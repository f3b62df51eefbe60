import EezDashboard.Codec.Endian

/-!
# Recursive-length-prefix items and their canonical encoding

An RLP item is a byte string or a list of items.  Its encoding is the concatenation of what it is
made of behind a header that gives the length: one byte for a payload of at most 55 bytes, and for
a longer one the length of the length followed by the length, spelled as shortly as possible.  A
single byte below `0x80` stands for itself.

The length of a length is at most eight bytes, so an item whose payload reaches `2 ^ 64` bytes has
no encoding at all; `Rlp.encode` returns an `Option` for that reason.

`Item.nesting` and `Item.count` are the two sizes that bounded readers limit: the greatest number
of lists that an item inside this one sits in, and the number of items, this one included.
-/

set_option autoImplicit false

open Codec

namespace Rlp

/-- A byte string, or a list of items. -/
inductive Item
  | bytes (w : List UInt8)
  | list (xs : List Item)

/-- Is this the one-byte string that is its own encoding? -/
def isSingle : List UInt8 → Bool
  | [b] => b.toNat ≤ 0x7F
  | _ => false

/-- The header of a payload of `n` bytes; `short` and `long` are the two prefix offsets that tell
strings from lists. -/
def header (short long n : ℕ) : Option (List UInt8) :=
  if n ≤ 55 then some [UInt8.ofNat (short + n)]
  else if (toBig n).length ≤ 8 then some (UInt8.ofNat (long + (toBig n).length) :: toBig n)
  else none

mutual

/-- The canonical encoding of an item, if it has one. -/
def encode : Item → Option (List UInt8)
  | .bytes w => if isSingle w then some w else (header 0x80 0xB7 w.length).map (· ++ w)
  | .list xs =>
    (encodeList xs).bind fun payload ↦ (header 0xC0 0xF7 payload.length).map (· ++ payload)

/-- The encodings of the items of a list, one after the other. -/
def encodeList : List Item → Option (List UInt8)
  | [] => some []
  | x :: xs => (encode x).bind fun a ↦ (encodeList xs).map (a ++ ·)

end

mutual

/-- The greatest number of lists that an item inside this one sits in. -/
def Item.nesting : Item → ℕ
  | .bytes _ => 0
  | .list xs => nestingList xs

/-- The same for the items of a list, the list itself counted. -/
def nestingList : List Item → ℕ
  | [] => 0
  | x :: xs => max (x.nesting + 1) (nestingList xs)

end

mutual

/-- The number of items, this one included. -/
def Item.count : Item → ℕ
  | .bytes _ => 1
  | .list xs => countList xs + 1

/-- The number of items in the items of a list. -/
def countList : List Item → ℕ
  | [] => 0
  | x :: xs => x.count + countList xs

end

/-- **Induction over items**, with what is known of every member of a list. -/
theorem Item.induction {P : Item → Prop} (bytes : ∀ w, P (.bytes w))
    (list : ∀ xs, (∀ x ∈ xs, P x) → P (.list xs)) : ∀ x, P x
  | .bytes w => bytes w
  | .list xs => list xs fun x _ ↦ Item.induction bytes list x

theorem Item.count_pos (x : Item) : 0 < x.count := by
  cases x <;> simp [Item.count]

/-! ## Reading an encoding back -/

theorem header_eq_some {short long n : ℕ} {hdr : List UInt8} :
    header short long n = some hdr ↔ (n ≤ 55 ∧ hdr = [UInt8.ofNat (short + n)]) ∨
      (55 < n ∧ (toBig n).length ≤ 8 ∧
        hdr = UInt8.ofNat (long + (toBig n).length) :: toBig n) := by
  rw [header]
  split
  · next h => simp [h, eq_comm, Nat.not_lt.mpr h]
  · next h => split <;> simp_all [eq_comm]

theorem encode_bytes_eq_some {w bs : List UInt8} :
    encode (.bytes w) = some bs ↔ (isSingle w = true ∧ bs = w) ∨
      (isSingle w = false ∧ ∃ hdr, header 0x80 0xB7 w.length = some hdr ∧ bs = hdr ++ w) := by
  rw [encode]
  split
  · next h => simp [h, eq_comm]
  · next h => simp [h, eq_comm]

theorem isSingle_eq_true {w : List UInt8} :
    isSingle w = true ↔ w.length = 1 ∧ (w.getD 0 0).toNat ≤ 0x7F := by
  cases w with
  | nil => simp [isSingle]
  | cons b w => cases w <;> simp [isSingle]

theorem encode_list_eq_some {xs : List Item} {bs : List UInt8} :
    encode (.list xs) = some bs ↔ ∃ payload hdr, encodeList xs = some payload ∧
      header 0xC0 0xF7 payload.length = some hdr ∧ bs = hdr ++ payload := by
  rw [encode, Option.bind_eq_some_iff]
  constructor
  · rintro ⟨payload, hp, h⟩
    obtain ⟨hdr, hh, rfl⟩ := Option.map_eq_some_iff.mp h
    exact ⟨payload, hdr, hp, hh, rfl⟩
  · rintro ⟨payload, hdr, hp, hh, rfl⟩
    exact ⟨payload, hp, by rw [hh, Option.map_some]⟩

theorem encodeList_cons_eq_some {x : Item} {xs : List Item} {bs : List UInt8} :
    encodeList (x :: xs) = some bs ↔
      ∃ a as, encode x = some a ∧ encodeList xs = some as ∧ bs = a ++ as := by
  rw [encodeList, Option.bind_eq_some_iff]
  constructor
  · rintro ⟨a, ha, h⟩
    obtain ⟨as, has, rfl⟩ := Option.map_eq_some_iff.mp h
    exact ⟨a, as, ha, has, rfl⟩
  · rintro ⟨a, as, ha, has, rfl⟩
    exact ⟨a, ha, by rw [has, Option.map_some]⟩

theorem encodeList_append_eq_some {xs ys : List Item} {as bs : List UInt8}
    (hx : encodeList xs = some as) (hy : encodeList ys = some bs) :
    encodeList (xs ++ ys) = some (as ++ bs) := by
  induction xs generalizing as with
  | nil =>
    obtain rfl : [] = as := by simpa [encodeList] using hx
    simpa using hy
  | cons x xs ih =>
    obtain ⟨a, as', ha, has, rfl⟩ := encodeList_cons_eq_some.mp hx
    rw [List.cons_append, encodeList_cons_eq_some]
    exact ⟨a, as' ++ bs, ha, ih has, List.append_assoc ..⟩

theorem header_ne_nil {short long n : ℕ} {hdr : List UInt8}
    (h : header short long n = some hdr) : hdr ≠ [] := by
  rw [header] at h
  split at h
  · cases h; simp
  · split at h
    · cases h; simp
    · cases h

/-- A payload below `2 ^ 56` has a header of at most eight bytes. -/
theorem exists_header (short long : ℕ) {n : ℕ} (hn : n < 2 ^ 56) :
    ∃ hdr, header short long n = some hdr ∧ hdr.length ≤ 8 := by
  have hsize : (toBig n).length ≤ 7 := length_toBig_le_iff.2 (by norm_num at hn ⊢; omega)
  rw [header]
  by_cases hshort : n ≤ 55
  · exact ⟨_, if_pos hshort, by simp⟩
  · rw [if_neg hshort, if_pos (by omega)]
    exact ⟨_, rfl, Nat.succ_le_succ hsize⟩

/-- The first byte of a list tells it from a string. -/
theorem le_head_of_header {n : ℕ} {hdr : List UInt8} (h : header 0xC0 0xF7 n = some hdr) :
    0xC0 ≤ (hdr.getD 0 0).toNat := by
  rw [header] at h
  split at h
  · cases h
    rw [List.getD_cons_zero, UInt8.toNat_ofNat']
    omega
  next hlong =>
    have hpos : (toBig n).length ≠ 0 := by
      rw [Ne, List.length_eq_zero_iff, toBig_eq_nil]
      omega
    split at h
    · cases h
      rw [List.getD_cons_zero, UInt8.toNat_ofNat']
      omega
    · cases h

/-- No item has an empty encoding. -/
theorem encode_ne_nil {x : Item} {bs : List UInt8} (h : encode x = some bs) : bs ≠ [] := by
  cases x with
  | bytes w =>
    rw [encode] at h
    split at h
    · next hs =>
      cases h
      rintro rfl
      simp [isSingle] at hs
    · obtain ⟨hdr, hh, rfl⟩ := Option.map_eq_some_iff.mp h
      simp [header_ne_nil hh]
  | list xs =>
    obtain ⟨payload, hdr, -, hh, rfl⟩ := encode_list_eq_some.mp h
    simp [header_ne_nil hh]

theorem countList_append (xs ys : List Item) :
    countList (xs ++ ys) = countList xs + countList ys := by
  induction xs with
  | nil => simp [countList]
  | cons x xs ih => rw [List.cons_append, countList, countList, ih, Nat.add_assoc]

theorem nestingList_le_iff {xs : List Item} {n : ℕ} :
    nestingList xs ≤ n ↔ ∀ x ∈ xs, x.nesting + 1 ≤ n := by
  induction xs with
  | nil => simp [nestingList]
  | cons x xs ih => rw [nestingList, max_le_iff, ih, List.forall_mem_cons]

end Rlp
