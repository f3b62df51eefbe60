import EezDashboard.Blob.DirectCanonical
import EezDashboard.Blob.Legacy

/-!
# Payloads of both kinds

A payload of tag 0 with a historical body is read as it was written unless it is the canonical encoding of some
direct content.  There are such payloads, but no short ones: while the payload is short, a direct reading has too
few transactions for a token of two bytes, so it reads on from item to item of the body, and no item covers as many
blocks as the first bytes of the body, which are read as a number, ask for.
-/

set_option autoImplicit false

open Codec

namespace Rlp

/-- The encodings of some items. -/
def IsForest (bs : List UInt8) : Prop := ∃ xs, encodeList xs = some bs

variable {b : UInt8} {s payload : List UInt8} {x : Item} {xs : List Item}

theorem toBig_of_lt {n : ℕ} (hpos : 0 < n) (hlt : n < 256) : toBig n = [UInt8.ofNat n] := by
  rw [toBig, Nat.digits_of_lt 256 n (by omega) hlt]
  rfl

theorem length_le_encodeList (h : encodeList xs = some payload) : xs.length ≤ payload.length := by
  induction xs generalizing payload with
  | nil => exact Nat.zero_le _
  | cons x xs ih =>
    obtain ⟨first, rest, hfirst, hrest, rfl⟩ := encodeList_cons_eq_some.1 h
    have hpos := List.length_pos_iff.2 (encode_ne_nil hfirst)
    have := ih hrest
    rw [List.length_cons, List.length_append]
    omega

/-- How an item of fewer than 257 bytes begins. -/
inductive Begins : Item → List UInt8 → Prop
  | single (b : UInt8) (hb : b.toNat < 128) : Begins (.bytes [b]) [b]
  | string {w s : List UInt8} {b : UInt8} (hb : 128 ≤ b.toNat) (hb' : b.toNat < 192) : Begins (.bytes w) (b :: s)
  | short {xs : List Item} {payload : List UInt8} (h : encodeList xs = some payload) (hlen : payload.length ≤ 55) :
      Begins (.list xs) (UInt8.ofNat (192 + payload.length) :: payload)
  | long {xs : List Item} {payload : List UInt8} (h : encodeList xs = some payload) (hlen : 55 < payload.length)
      (hle : payload.length < 256) : Begins (.list xs) (248 :: UInt8.ofNat payload.length :: payload)

theorem begins_of_encode {bs : List UInt8} (h : encode x = some bs) (hlen : bs.length ≤ 256) : Begins x bs := by
  cases x with
  | bytes w =>
    obtain ⟨hsingle, rfl⟩ | ⟨-, hdr, hheader, rfl⟩ := encode_bytes_eq_some.1 h
    · obtain ⟨hone, hlow⟩ := isSingle_eq_true.1 hsingle
      obtain ⟨b, rfl⟩ := List.length_eq_one_iff.1 hone
      exact .single b (Nat.lt_succ_of_le hlow)
    · rw [header] at hheader
      split at hheader
      · cases hheader
        exact .string (by rw [UInt8.toNat_ofNat']; omega) (by rw [UInt8.toNat_ofNat']; omega)
      next hlong =>
        split at hheader
        next hsize =>
          cases hheader
          have hpos : (toBig w.length).length ≠ 0 := by
            rw [Ne, List.length_eq_zero_iff, toBig_eq_nil]
            omega
          exact .string (by rw [UInt8.toNat_ofNat']; omega) (by rw [UInt8.toNat_ofNat']; omega)
        · cases hheader
  | list xs =>
    obtain ⟨payload, hdr, hpayload, hheader, rfl⟩ := encode_list_eq_some.1 h
    rw [header] at hheader
    split at hheader
    next hshort =>
      cases hheader
      exact .short hpayload hshort
    next hlong =>
      split at hheader
      · cases hheader
        rw [List.length_append, List.length_cons] at hlen
        rw [toBig_of_lt (by omega) (by omega)]
        exact .long hpayload (by omega) (by omega)
      · cases hheader

/-- **What follows the first byte of a forest**: the rest of it, unless the byte begins a byte string, or a long list,
whose length comes first. -/
theorem IsForest.cons_cases (h : IsForest (b :: s)) (hlen : s.length ≤ 255) :
    (b.toNat < 128 ∧ IsForest s) ∨ (128 ≤ b.toNat ∧ b.toNat < 192) ∨
      (192 ≤ b.toNat ∧ b.toNat ≤ 247 ∧ IsForest s) ∨
        (b = 248 ∧ ∃ l s', s = l :: s' ∧ 56 ≤ l.toNat ∧ IsForest s') := by
  obtain ⟨xs, h⟩ := h
  cases xs with
  | nil => simp [encodeList] at h
  | cons x xs =>
    obtain ⟨first, rest, hfirst, hrest, heq⟩ := encodeList_cons_eq_some.1 h
    have hshort : first.length ≤ 256 := by
      have := congrArg List.length heq
      rw [List.length_cons, List.length_append] at this
      omega
    cases begins_of_encode hfirst hshort with
    | single b' hb =>
      obtain ⟨rfl, rfl⟩ := List.cons.inj heq
      exact .inl ⟨hb, xs, hrest⟩
    | string hb hb' =>
      obtain ⟨rfl, -⟩ := List.cons.inj heq
      exact .inr (.inl ⟨hb, hb'⟩)
    | short hpayload hle =>
      obtain ⟨rfl, rfl⟩ := List.cons.inj heq
      refine .inr (.inr (.inl ⟨?_, ?_, _, encodeList_append_eq_some hpayload hrest⟩))
      · rw [UInt8.toNat_ofNat']
        omega
      · rw [UInt8.toNat_ofNat']
        omega
    | long hpayload hlong hle =>
      obtain ⟨rfl, rfl⟩ := List.cons.inj heq
      refine .inr (.inr (.inr ⟨rfl, _, _, rfl, ?_, _, encodeList_append_eq_some hpayload hrest⟩))
      rw [UInt8.toNat_ofNat']
      omega

/-- A forest goes on behind a byte that is an item by itself. -/
theorem IsForest.tail (h : IsForest (b :: s)) (hlen : s.length ≤ 255) (hb : b.toNat < 128) : IsForest s := by
  obtain ⟨-, h⟩ | ⟨hb', -⟩ | ⟨hb', -⟩ | ⟨rfl, -⟩ := h.cons_cases hlen
  · exact h
  · omega
  · omega
  · exact absurd hb (by decide)

end Rlp

namespace BlobDecoder

open Rlp

/-! ## The count column over items -/

variable {r : ℕ × ℕ} {rs : List (ℕ × ℕ)} {s tail : Bytes} {k m n : ℕ}

/-- The bytes are items, or the length of a long list and the items in it and behind it. -/
def Pending (s : Bytes) : Prop := ∃ l s', s = l :: s' ∧ 56 ≤ l.toNat ∧ IsForest s'

/-- The token of empty blocks over items is an item of one byte, or the header of a list. -/
theorem emptyRun_over (hpos : 0 < r.1) (hempty : r.2 = 0) (h : IsForest (encodeCount r ++ s)) (hlen : s.length ≤ 255)
    (hshort : (encodeCount r ++ s).length ≤ 256) :
    r.1 ≤ 58 * (encodeCount r).length ∧ (IsForest s ∨ Pending s) := by
  obtain ⟨blocks, txs⟩ := r
  dsimp only at hpos hempty
  subst hempty
  by_cases hone : blocks = 1
  · have hspell : encodeCount (blocks, 0) = [0] := by simp [encodeCount, hone]
    rw [hspell] at h ⊢
    exact ⟨by simp [hone], .inl (h.tail hlen (by decide))⟩
  by_cases hmany : blocks ≤ 64
  · have hspell : encodeCount (blocks, 0) = [UInt8.ofNat (192 + (blocks - 2))] := by simp [encodeCount, hone, hmany]
    have hbyte : (UInt8.ofNat (192 + (blocks - 2))).toNat = 190 + blocks := by
      rw [UInt8.toNat_ofNat']
      omega
    rw [hspell] at h ⊢
    rw [List.length_singleton]
    obtain ⟨hb, -⟩ | ⟨-, hb⟩ | ⟨-, hb, hrest⟩ | ⟨hb, hpending⟩ := h.cons_cases hlen
    · omega
    · omega
    · exact ⟨by omega, .inl hrest⟩
    · rw [hb] at hbyte
      have hblocks : 248 = 190 + blocks := hbyte
      exact ⟨by omega, .inr hpending⟩
  · have hspell : encodeCount (blocks, 0) = 255 :: toVarint blocks := by simp [encodeCount, hone, hmany]
    rw [hspell] at h hshort
    obtain ⟨hb, -⟩ | ⟨-, hb⟩ | ⟨-, hb, -⟩ | ⟨hb, -⟩ := h.cons_cases (Nat.le_of_succ_le_succ hshort)
    · exact absurd hb (by decide)
    · exact absurd hb (by decide)
    · exact absurd hb (by decide)
    · exact absurd hb (by decide)

/-- The token of a block with a few transactions is an item of one byte, or the length of a list. -/
theorem blockRun_over (hrun : CountRun r) (hpos : r.2 ≠ 0) (hfew : r.2 < 128)
    (h : IsForest (encodeCount r ++ s) ∨ Pending (encodeCount r ++ s)) (hlen : s.length ≤ 255) :
    r.1 ≤ 58 * (encodeCount r).length ∧ IsForest s := by
  have hspell : encodeCount r = [UInt8.ofNat r.2] := by simp [encodeCount, hpos, hfew]
  have hbyte : (UInt8.ofNat r.2).toNat = r.2 := by
    rw [UInt8.toNat_ofNat']
    omega
  rw [hspell] at h ⊢
  refine ⟨by simp [hrun.2.2.2 hpos], ?_⟩
  obtain h | ⟨l, s', heq, -, h⟩ := h
  · exact h.tail hlen (by omega)
  · obtain ⟨-, rfl⟩ := List.cons.inj heq
    exact h

/-- **A count column that lies over items covers few blocks.**  No token of two bytes occurs, so each token is the
first byte of an item, or the length of a long list. -/
theorem coverage_le (hmax : RunLength.Maximal isEmptyCount rs) (hruns : ∀ r ∈ rs, CountRun r)
    (hfew : ∀ r ∈ rs, r.2 < 128) (hlen : (rs.flatMap encodeCount ++ tail).length ≤ 255)
    (h : IsForest (rs.flatMap encodeCount ++ tail) ∨
      Pending (rs.flatMap encodeCount ++ tail) ∧ ∀ r ∈ rs.head?, r.2 ≠ 0) :
    coverage rs ≤ 58 * (rs.flatMap encodeCount).length := by
  induction rs with
  | nil => exact Nat.zero_le _
  | cons r rs ih =>
    obtain ⟨-, -, hnext, hmax⟩ := RunLength.maximal_cons_iff.1 hmax
    obtain ⟨hrun, hruns⟩ := List.forall_mem_cons.1 hruns
    obtain ⟨hfirst, hfew⟩ := List.forall_mem_cons.1 hfew
    rw [List.flatMap_cons, List.append_assoc] at h hlen
    have hrest : (rs.flatMap encodeCount ++ tail).length ≤ 255 := by
      rw [List.length_append] at hlen
      omega
    have hcover : coverage (r :: rs) = r.1 + coverage rs := rfl
    rw [hcover, List.flatMap_cons, List.length_append]
    by_cases hempty : r.2 = 0
    · replace h : IsForest (encodeCount r ++ (rs.flatMap encodeCount ++ tail)) := by
        obtain h | ⟨-, hhead⟩ := h
        · exact h
        · exact absurd hempty (hhead r rfl)
      obtain ⟨hle, hafter⟩ := emptyRun_over hrun.1 hempty h hrest (Nat.le_succ_of_le hlen)
      -- the next run is not empty, as it would be part of this one
      have hhead : ∀ r' ∈ rs.head?, r'.2 ≠ 0 := fun r' hr' hzero ↦
        hnext r' hr' (by simp [isEmptyCount, hempty]) (hempty.trans hzero.symm)
      have := ih hmax hruns hfew hrest (hafter.imp_right fun hpending ↦ ⟨hpending, hhead⟩)
      omega
    · obtain ⟨hle, hafter⟩ := blockRun_over hrun hempty hfirst (h.imp_right And.left) hrest
      have := ih hmax hruns hfew hrest (.inl hafter)
      omega

/-! ## A number over a body -/

/-- The first byte of a number is the whole of it, or its lowest digit. -/
theorem varintDigits_cons {b : UInt8} (h : b :: s = varintDigits k n ++ tail) (hn : n < 128 ^ k * 16) :
    (b.toNat < 128 ∧ n = b.toNat ∧ s = tail) ∨
      128 ≤ b.toNat ∧ ∃ j m, k = j + 1 ∧ n = b.toNat - 128 + 128 * m ∧ 0 < m ∧ m < 128 ^ j * 16 ∧
        s = varintDigits j m ++ tail := by
  have hsmall : n < 128 → b :: s = [UInt8.ofNat n] ++ tail → b.toNat < 128 ∧ n = b.toNat ∧ s = tail := by
    intro hlt heq
    obtain ⟨rfl, rfl⟩ := List.cons.inj heq
    have hbyte : (UInt8.ofNat n).toNat = n := by
      rw [UInt8.toNat_ofNat']
      omega
    exact ⟨by omega, hbyte.symm, rfl⟩
  cases k with
  | zero => exact .inl (hsmall (by omega) h)
  | succ k =>
    rw [varintDigits] at h
    split at h
    next hlt => exact .inl (hsmall hlt h)
    next hle =>
      obtain ⟨rfl, rfl⟩ := List.cons.inj h
      have hbyte : (UInt8.ofNat (n % 128 + 128)).toNat = n % 128 + 128 := by
        rw [UInt8.toNat_ofNat']
        omega
      rw [pow_succ'] at hn
      exact .inr ⟨by omega, k, n / 128, rfl, by omega, by omega, by omega, rfl⟩

/-- The encoding of a number of one byte. -/
theorem encode_countItem {j : ℕ} {bs : Bytes} (h : Rlp.encode (countItem j) = some bs) (hj : j ≤ 255) :
    (j = 0 ∧ bs = [128]) ∨ (0 < j ∧ j < 128 ∧ bs = [UInt8.ofNat j]) ∨ (128 ≤ j ∧ bs = [129, UInt8.ofNat j]) := by
  have hbyte : (UInt8.ofNat j).toNat = j := by
    rw [UInt8.toNat_ofNat']
    omega
  by_cases hzero : j = 0
  · subst hzero
    have hempty : Rlp.encode (countItem 0) = some [128] := by decide
    exact .inl ⟨rfl, Option.some.inj (h.symm.trans hempty)⟩
  · rw [countItem, toBig_of_lt (by omega) (by omega)] at h
    obtain ⟨hsingle, rfl⟩ | ⟨hsingle, hdr, hheader, rfl⟩ := encode_bytes_eq_some.1 h
    · have hlow : (UInt8.ofNat j).toNat ≤ 127 := (isSingle_eq_true.1 hsingle).2
      exact .inr (.inl ⟨by omega, by omega, rfl⟩)
    · have hlow : ¬(UInt8.ofNat j).toNat ≤ 127 := by
        rintro hlow
        rw [isSingle_eq_true (w := [UInt8.ofNat j]).2 ⟨rfl, hlow⟩] at hsingle
        cases hsingle
      have hone : header 0x80 0xB7 [UInt8.ofNat j].length = some [129] := rfl
      obtain rfl := Option.some.inj (hheader.symm.trans hone)
      exact .inr (.inr ⟨by omega, rfl⟩)

section Body

variable {js : List ℕ} {txs entries : List Item} {bs : Bytes}

/-- A number that ends in the entries leaves items. -/
theorem forest_of_entries (h : encode (.list entries) = some (varintDigits k m ++ s)) (hk : k ≤ 1)
    (hm : m < 128 ^ k * 16) (hlen : (varintDigits k m ++ s).length ≤ 255) : IsForest s := by
  generalize hbs : varintDigits k m ++ s = bs at h hlen
  cases begins_of_encode h (Nat.le_succ_of_le hlen) with
  | short hpayload hle =>
    obtain ⟨hb, -⟩ | ⟨-, i, m', rfl, -, -, hm', rfl⟩ := varintDigits_cons hbs.symm hm
    · rw [UInt8.toNat_ofNat'] at hb
      omega
    · obtain rfl : i = 0 := by omega
      have hbyte : (UInt8.ofNat m').toNat = m' := by
        rw [UInt8.toNat_ofNat']
        omega
      exact IsForest.tail (b := UInt8.ofNat m') ⟨_, hpayload⟩ (by simp [varintDigits] at hlen; omega) (by omega)
  | long hpayload hlong hle =>
    obtain ⟨hb, -⟩ | ⟨-, i, m', rfl, -, -, hm', heq⟩ := varintDigits_cons hbs.symm hm
    · exact absurd hb (by decide)
    · obtain rfl : i = 0 := by omega
      obtain ⟨-, hbyte, -⟩ | ⟨-, _, -, hi, -⟩ := varintDigits_cons heq hm'
      · rw [UInt8.toNat_ofNat'] at hbyte
        omega
      · omega

/-- **A number that begins in the counts leaves items.** -/
theorem forest_of_counts (h : encodeList (js.map countItem ++ [.list txs, .list entries]) =
      some (varintDigits k m ++ s)) (hk : k ≤ 2) (hm : m < 128 ^ k * 16) (hsum : js.sum = txs.length)
    (hjs : ∀ j ∈ js, j ≤ 255) (hbound : k ≤ 1 ∨ ∀ j ∈ js, j < 128)
    (hlen : (varintDigits k m ++ s).length ≤ 255) : IsForest s := by
  generalize hbs : varintDigits k m ++ s = bs at h hlen
  induction js generalizing k m bs with
  | nil =>
    -- there are no transactions, and the number goes on in the entries
    obtain rfl : txs = [] := List.length_eq_zero_iff.1 hsum.symm
    obtain ⟨first, rest, hfirst, hrest, rfl⟩ := encodeList_cons_eq_some.1 h
    have hempty : encode (.list []) = some [192] := by decide
    obtain rfl := Option.some.inj (hempty.symm.trans hfirst)
    obtain ⟨last, none, hlast, hnone, rfl⟩ := encodeList_cons_eq_some.1 hrest
    obtain rfl : [] = none := by simpa [encodeList] using hnone
    obtain ⟨hb, -⟩ | ⟨-, j, m', rfl, -, -, hm', heq⟩ := varintDigits_cons hbs.symm hm
    · exact absurd hb (by decide)
    · replace heq : last = varintDigits j m' ++ s := (List.append_nil last).symm.trans heq
      rw [heq] at hlast
      refine forest_of_entries hlast (by omega) hm' ?_
      rw [← heq]
      simp at hlen
      omega
  | cons j js ih =>
    obtain ⟨hj, hrestLe⟩ := List.forall_mem_cons.1 hjs
    obtain ⟨first, rest, hfirst, hrest, rfl⟩ := encodeList_cons_eq_some.1 h
    obtain ⟨rfl, rfl⟩ | ⟨hpos, hlow, rfl⟩ | ⟨hhigh, rfl⟩ := encode_countItem hfirst hj
    · obtain ⟨hb, -⟩ | ⟨-, i, m', rfl, -, -, hm', heq⟩ := varintDigits_cons hbs.symm hm
      · exact absurd hb (by decide)
      · refine ih (k := i) (m := m') (by omega) hm' (by simpa using hsum) hrestLe (.inl (by omega)) rest heq.symm hrest ?_
        simp at hlen
        omega
    · have hbyte : (UInt8.ofNat j).toNat = j := by
        rw [UInt8.toNat_ofNat']
        omega
      obtain ⟨-, -, rfl⟩ | ⟨hb, -⟩ := varintDigits_cons hbs.symm hm
      · exact ⟨_, hrest⟩
      · omega
    · have hbyte : (UInt8.ofNat j).toNat = j := by
        rw [UInt8.toNat_ofNat']
        omega
      obtain ⟨hb, -⟩ | ⟨-, i, m', rfl, -, -, hm', heq⟩ := varintDigits_cons hbs.symm hm
      · exact absurd hb (by decide)
      · obtain hk | hsmall := hbound
        · obtain rfl : i = 0 := by omega
          obtain ⟨hb, -⟩ | ⟨-, _, -, hi, -⟩ := varintDigits_cons heq hm'
          · omega
          · omega
        · exact absurd (hsmall j List.mem_cons_self) (by omega)

/-- As many transactions as the counts say are in the bytes. -/
theorem counts_le (h : encodeList [.list (js.map countItem), .list txs, .list entries] = some bs)
    (hsum : js.sum = txs.length) {j : ℕ} (hj : j ∈ js) : j ≤ bs.length := by
  obtain ⟨first, rest, -, hrest, rfl⟩ := encodeList_cons_eq_some.1 h
  obtain ⟨second, last, hsecond, -, rfl⟩ := encodeList_cons_eq_some.1 hrest
  obtain ⟨payload, hdr, hpayload, -, rfl⟩ := encode_list_eq_some.1 hsecond
  have hmany := length_le_encodeList hpayload
  have hsingle := List.single_le_sum (fun _ _ ↦ Nat.zero_le _) j hj
  simp only [List.length_append]
  omega

/-- A number that begins in the fields is large, and leaves items. -/
theorem forest_of_fields
    (h : encodeList [.list (js.map countItem), .list txs, .list entries] = some (varintDigits k m ++ s)) (hk : k ≤ 3)
    (hm : m < 128 ^ k * 16) (hsum : js.sum = txs.length) (hlen : (varintDigits k m ++ s).length ≤ 255)
    (hshort : k ≤ 2 ∨ (varintDigits k m ++ s).length ≤ 55) : IsForest s ∧ 128 ≤ m := by
  have hjs : ∀ j ∈ js, j ≤ (varintDigits k m ++ s).length := fun j hj ↦ counts_le h hsum hj
  generalize hbs : varintDigits k m ++ s = bs at h hlen hshort hjs
  obtain ⟨first, rest, hfirst, hrest, rfl⟩ := encodeList_cons_eq_some.1 h
  rw [List.length_append] at hlen hshort hjs
  cases begins_of_encode hfirst (by omega) with
  | @short _ payload hpayload hle =>
    obtain ⟨hb, -⟩ | ⟨-, i, m', rfl, rfl, hpos, hm', heq⟩ := varintDigits_cons hbs.symm hm
    · rw [UInt8.toNat_ofNat'] at hb
      omega
    · replace heq : payload ++ rest = varintDigits i m' ++ s := heq
      have hitems := encodeList_append_eq_some hpayload hrest
      rw [heq] at hitems
      have hsize : (varintDigits i m' ++ s).length ≤ 255 := by
        rw [← heq, List.length_append]
        rw [List.length_cons] at hlen
        omega
      have hbound : i ≤ 1 ∨ ∀ j ∈ js, j < 128 := by
        obtain hk | hshort := hshort
        · exact .inl (by omega)
        · exact .inr fun j hj ↦ by have := hjs j hj; omega
      exact ⟨forest_of_counts hitems (by omega) hm' hsum (fun j hj ↦ (hjs j hj).trans hlen) hbound hsize, by omega⟩
  | @long _ payload hpayload hlong hle =>
    obtain ⟨hb, -⟩ | ⟨-, i, m', rfl, rfl, hpos, hm', heq⟩ := varintDigits_cons hbs.symm hm
    · exact absurd hb (by decide)
    · rw [List.length_cons, List.length_cons] at hlen hshort
      refine ⟨?_, by omega⟩
      have hitems := encodeList_append_eq_some hpayload hrest
      replace heq : UInt8.ofNat payload.length :: (payload ++ rest) = varintDigits i m' ++ s := heq
      obtain ⟨-, -, rfl⟩ | ⟨-, i', m'', rfl, -, -, hm'', heq'⟩ := varintDigits_cons heq hm'
      · exact ⟨_, hitems⟩
      · rw [heq'] at hitems
        refine forest_of_counts hitems (by omega) hm'' hsum (fun j hj ↦ (hjs j hj).trans ?_) (.inl (by omega)) ?_
        · rw [List.length_cons, List.length_cons]
          omega
        · rw [← heq', List.length_append]
          omega

/-- **A number over a short body is large, and leaves items.** -/
theorem forest_of_body (body : LegacyBody) (h : Rlp.encode body.item = some (toVarint n ++ s)) (hn : n < 2 ^ 32)
    (hlen : (toVarint n ++ s).length ≤ 255) : IsForest s ∧ 58 * s.length < n := by
  have hsum : body.counts.sum = (body.transactions.map Spelled.item).length := by
    rw [body.counted, List.length_map]
  have hs : s.length ≤ 255 := by
    rw [List.length_append] at hlen
    omega
  generalize hbs : toVarint n ++ s = bs at h hlen
  cases begins_of_encode h (Nat.le_succ_of_le hlen) with
  | short hpayload hle =>
    obtain ⟨hb, -⟩ | ⟨-, i, m, hi, rfl, hpos, hm, rfl⟩ := varintDigits_cons hbs.symm hn
    · rw [UInt8.toNat_ofNat'] at hb
      omega
    · obtain rfl : i = 3 := by omega
      obtain ⟨hforest, hlarge⟩ := forest_of_fields hpayload (by omega) hm hsum (by omega) (.inr hle)
      exact ⟨hforest, by omega⟩
  | @long _ payload hpayload hlong hle =>
    obtain ⟨hb, -⟩ | ⟨-, i, m, hi, rfl, hpos, hm, heq⟩ := varintDigits_cons hbs.symm hn
    · exact absurd hb (by decide)
    · obtain rfl : i = 3 := by omega
      obtain ⟨hb, rfl, rfl⟩ | ⟨-, i, m', hi, rfl, -, hm', rfl⟩ := varintDigits_cons heq hm
      · refine ⟨⟨_, hpayload⟩, ?_⟩
        rw [UInt8.toNat_ofNat'] at hb ⊢
        have hbyte : (248 : UInt8).toNat = 248 := rfl
        omega
      · obtain rfl : i = 2 := by omega
        obtain ⟨hforest, hlarge⟩ := forest_of_fields hpayload (by omega) hm' hsum (by omega) (.inl (by omega))
        exact ⟨hforest, by omega⟩

/-- **A short body is not a direct content.** -/
theorem encode_ne_of_short (body : LegacyBody) {data : Bytes} (h : Rlp.encode body.item = some data)
    (hlen : data.length ≤ 255) {c : Columns} (hc : c.Valid) : c.encode ≠ data := by
  rintro rfl
  rw [Columns.encode] at h hlen
  obtain ⟨hforest, hlarge⟩ := forest_of_body body h hc.bounded hlen
  have hmany := two_mul_length_le hc.carried
  have hfew : ∀ r ∈ c.counts, r.2 < 128 := by
    intro r hr
    have hsingle := List.single_le_sum (fun _ _ ↦ Nat.zero_le _) r.2 (List.mem_map_of_mem (f := Prod.snd) hr)
    rw [← hc.counted] at hsingle
    simp only [List.length_append] at hlen hmany
    omega
  have hcover := coverage_le hc.maximal_counts hc.counts hfew (by rw [List.length_append] at hlen; omega) (.inl hforest)
  rw [List.length_append] at hlarge
  omega

end Body

/-! ## Reading a body -/

/-- **Old captures keep their meaning exactly if they are no direct contents.**  A payload of tag 0 with a historical
body is read as it was written unless the canonical encoder writes it for some content, and then as this content.
It writes no body of up to 255 bytes. -/
theorem decodeOperations_legacy (body : LegacyBody) (data : Bytes) (h : Rlp.encode body.item = some data)
    (hcount : body.item.count ≤ maxRlpItems) :
    (decodeOperations (0 :: data) = .ok (.envelope (body.envelope (data.length + 1))) ↔
      ¬∃ c : DirectContent, c.Carried ∧ c.encode = 0 :: data) ∧
    (∀ c : DirectContent, c.Carried → c.encode = 0 :: data →
      ∃ r, decodeOperations (0 :: data) = .ok (.direct r) ∧ Expands (0 :: data) r c) ∧
    (data.length ≤ 255 → ¬∃ c : DirectContent, c.Carried ∧ c.encode = 0 :: data) := by
  obtain ⟨v, hroot, hopens⟩ := decodeRlpExact_encode h
  rw [LegacyBody.item] at hopens
  cases hopens
  have hdirect : ∀ c : DirectContent, c.Carried → c.encode = 0 :: data →
      ∃ r, decodeOperations (0 :: data) = .ok (.direct r) ∧ Expands (0 :: data) r c := by
    rintro c hc hencode
    obtain ⟨r, hr, hexpands⟩ := decodeDirectOperations_encode hc 0
    rw [show 0 :: c.columns.encode = 0 :: data from hencode] at hr hexpands
    exact ⟨r, by rw [decodeOperations_zero, hr], hexpands⟩
  refine ⟨⟨?_, fun hnone ↦ ?_⟩, hdirect, ?_⟩
  · rintro hread ⟨c, hc, hencode⟩
    obtain ⟨r, hr, -⟩ := hdirect c hc hencode
    cases hread.symm.trans hr
  · rw [decodeOperations_zero, hroot, body.decodeTagged_eq h hcount]
    cases hresult : decodeDirectOperations (0 :: data) with
    | error e => rfl
    | ok r =>
      obtain ⟨c, hcolumns, hspan, -⟩ := decodeDirectOperations_eq_ok.1 hresult
      obtain ⟨content, hcontent, rfl⟩ := hcolumns.exists_content
      exact absurd ⟨content, hcontent, congrArg (0 :: ·) (span_tail_iff.1 hspan)⟩ hnone
  · rintro hlen ⟨c, hc, hencode⟩
    exact encode_ne_of_short body h hlen (DirectContent.columns_valid hc) (List.cons.inj hencode).2

/-- Three blocks with two transactions and an entry, in both spellings. -/
def shortBody : LegacyBody where
  counts := [1, 0, 1]
  transactions := [⟨_, [0xFF, 0x85, 0x01], .bytes _⟩, ⟨_, [0x02, 0xC0], .list _⟩]
  entries := [⟨_, [0x2A], .bytes _⟩]
  small := by decide
  counted := rfl

def shortBytes : Bytes :=
  [0xCF, 0xC3, 0x01, 0x80, 0x01, 0xC8, 0x83, 0xFF, 0x85, 0x01, 0xC3, 0x02, 0x81, 0xC0, 0xC1, 0x2A]

/-- It is read as it was written. -/
theorem decodeOperations_legacy_short : decodeOperations (0 :: shortBytes) =
    .ok (.envelope ⟨0, "legacy-calldata", 17, 3, [1, 0, 1], 2, [3, 2], 1, [1], [], []⟩) := by
  have hlegacy := decodeOperations_legacy shortBody shortBytes (by decide +kernel) (by decide +kernel)
  exact hlegacy.1.2 (hlegacy.2.2 (by decide))

/-! ## A payload of both kinds -/

/-- A transaction with the runs of a direct payload, and the most of its first transaction. -/
def runsTransaction : Bytes :=
  [0xFE, 0x01, 0xFB, 0xF9, 0x02] ++ List.replicate 20 0 ++ [0xF9, 0x02, 0x00, 0xCD, 0x03] ++ List.replicate 9 1 ++
    [0xF9, 0x01, 0xCA, 0xB9, 0x01, 0xC7] ++ List.replicate 212 0

/-- A transaction with the end of that one, and eight more. -/
def listsTransaction : Bytes := List.replicate 241 0 ++ List.replicate 8 0xC0

def ambiguousBody : LegacyBody where
  counts := [2]
  transactions := [⟨.bytes runsTransaction, runsTransaction, .bytes _⟩,
    ⟨.bytes listsTransaction, listsTransaction, .bytes _⟩]
  entries := []
  small := by decide
  counted := rfl

def ambiguousBytes : Bytes :=
  [0xF9, 0x02, 0x05, 0xC1, 0x02, 0xF9, 0x01, 0xFF, 0xB9, 0x01, 0x01] ++ runsTransaction ++ [0xB8, 0xF9] ++
    listsTransaction ++ [0xC0]

theorem encode_ambiguousBody : Rlp.encode ambiguousBody.item = some ambiguousBytes := by
  decide +kernel

/-- The bytes are read as a direct payload, although they are the body that they were written for. -/
theorem decodeOperations_ambiguous : ¬∀ (body : LegacyBody) (data : Bytes), Rlp.encode body.item = some data →
    body.item.count ≤ maxRlpItems →
      decodeOperations (0 :: data) = .ok (.envelope (body.envelope (data.length + 1))) := by
  intro h
  have henvelope := h ambiguousBody ambiguousBytes encode_ambiguousBody (by decide +kernel)
  have hdirect : (decodeDirectOperations (0 :: ambiguousBytes)).isOk = true := by
    decide +kernel
  cases hresult : decodeDirectOperations (0 :: ambiguousBytes) with
  | error e =>
    rw [hresult] at hdirect
    cases hdirect
  | ok operations =>
    rw [decodeOperations_zero, hresult] at henvelope
    cases henvelope

end BlobDecoder
