import Mathlib.Tactic.Ring
import EezDashboard.Codec.Endian
import EezDashboard.Js.Hex

/-!
# Hexadecimal texts of whole bytes

The bytes a text `0x…` writes, two digits each, and the functions that cut and join such texts.  Read as a
number, the bytes and the digits are the same (`ofBig_pairBytes`).
-/

set_option autoImplicit false

namespace Js

open Codec

/-- `(?:[0-9a-fA-F]{2})*` -/
def hexPairs : List Char → Bool
  | [] => true
  | [_] => false
  | a :: b :: ds => isHexDigit a && isHexDigit b && hexPairs ds

/-- `/^0x(?:[0-9a-fA-F]{2})*$/` -/
def isBytes (s : String) : Bool :=
  match s.toList with
  | '0' :: 'x' :: ds => hexPairs ds
  | _ => false

/-- `size(s)`, of a hexadecimal text -/
def size (s : String) : ℕ := (s.toList.length - 2 + 1) / 2

/-- `concatHex(values)` -/
def concatHex (values : List String) : String :=
  String.ofList ('0' :: 'x' :: (values.map fun s ↦ s.toList.drop 2).flatten)

/-- `toHex(n, { size })`, which throws when the number does not fit -/
def toHexSized (n size : ℕ) : Except String String :=
  if n < 256 ^ size then
    let ds := hexDigits n
    .ok (String.ofList ('0' :: 'x' :: (List.replicate (size * 2 - ds.length) '0' ++ ds)))
  else .error s!"Number {n} is not in safe integer range"

/-- The bytes that pairs of digits write. -/
def pairBytes : List Char → Option (List UInt8)
  | [] => some []
  | [_] => none
  | a :: b :: ds =>
    if isHexDigit a && isHexDigit b then
      (pairBytes ds).map (UInt8.ofNat (16 * digitValue a + digitValue b) :: ·)
    else none

/-- The bytes of a text. -/
def bytes? (s : String) : Option (List UInt8) :=
  match s.toList with
  | '0' :: 'x' :: ds => pairBytes ds
  | _ => none

variable {ds es : List Char} {bs cs : List UInt8} {s : String}

/-! ## Digits -/

theorem toNat_lt_of_isHexDigit {c : Char} (h : isHexDigit c = true) : c.toNat < 103 := by
  simp only [isHexDigit, Char.isDigit, Bool.or_eq_true, Bool.and_eq_true, decide_eq_true_eq] at h
  obtain ⟨-, h⟩ | ⟨-, h⟩ | ⟨-, h⟩ := h <;>
    exact Nat.lt_of_le_of_lt (UInt32.le_iff_toNat_le.1 h) (by decide)

/-- What holds of the characters that are digits holds of each of them. -/
theorem hexDigit_induction {p : Char → Prop}
    (hp : ∀ n < 103, isHexDigit (Char.ofNat n) = true → p (Char.ofNat n)) {c : Char}
    (h : isHexDigit c = true) : p c := by
  have hc := hp c.toNat (toNat_lt_of_isHexDigit h)
  rw [Char.ofNat_toNat] at hc
  exact hc h

/-- A digit in lower case is the digit of its value. -/
theorem hexDigit_spec {c : Char} (h : isHexDigit c = true) :
    digitValue c < 16 ∧ digitValue c.toLower = digitValue c ∧ c.toLower = Nat.digitChar (digitValue c) ∧
      isHexDigit c.toLower = true ∧ c.toLower.toLower = c.toLower :=
  hexDigit_induction (p := fun c ↦ digitValue c < 16 ∧ digitValue c.toLower = digitValue c ∧
    c.toLower = Nat.digitChar (digitValue c) ∧ isHexDigit c.toLower = true ∧ c.toLower.toLower = c.toLower)
    (by decide +kernel) h

theorem digitValue_lt {c : Char} (h : isHexDigit c = true) : digitValue c < 16 := (hexDigit_spec h).1

theorem digitValue_toLower {c : Char} (h : isHexDigit c = true) : digitValue c.toLower = digitValue c :=
  (hexDigit_spec h).2.1

theorem hexValue_foldl (n : ℕ) (ds : List Char) :
    ds.foldl (fun n c ↦ 16 * n + digitValue c) n = n * 16 ^ ds.length + hexValue ds := by
  induction ds generalizing n with
  | nil => simp [hexValue]
  | cons d ds ih =>
    rw [hexValue, List.foldl_cons, List.foldl_cons, ih, ih (16 * 0 + _), List.length_cons]
    ring

theorem hexValue_cons (d : Char) (ds : List Char) :
    hexValue (d :: ds) = digitValue d * 16 ^ ds.length + hexValue ds := by
  rw [hexValue, List.foldl_cons, hexValue_foldl, Nat.mul_zero, Nat.zero_add]

theorem hexValue_map_toLower (h : ∀ c ∈ ds, isHexDigit c = true) :
    hexValue (ds.map Char.toLower) = hexValue ds := by
  induction ds with
  | nil => rfl
  | cons d ds ih =>
    rw [List.forall_mem_cons] at h
    rw [List.map_cons, hexValue_cons, hexValue_cons, ih h.2, digitValue_toLower h.1, List.length_map]

theorem hexValue_replicate_zero_append (n : ℕ) (ds : List Char) :
    hexValue (List.replicate n '0' ++ ds) = hexValue ds := by
  induction n with
  | zero => rfl
  | succ n ih =>
    rw [List.replicate_succ, List.cons_append, hexValue_cons, ih, show digitValue '0' = 0 from rfl, Nat.zero_mul,
      Nat.zero_add]

theorem hexValue_lt (h : ∀ c ∈ ds, isHexDigit c = true) : hexValue ds < 16 ^ ds.length := by
  induction ds with
  | nil => exact Nat.one_pos
  | cons d ds ih =>
    rw [List.forall_mem_cons] at h
    have hd : digitValue d ≤ 15 := Nat.le_of_lt_succ (digitValue_lt h.1)
    have := Nat.mul_le_mul_right (16 ^ ds.length) hd
    have := ih h.2
    rw [hexValue_cons, List.length_cons, pow_succ]
    omega

theorem toLower_eq_of_digitValue_eq {c d : Char} (hc : isHexDigit c = true) (hd : isHexDigit d = true)
    (h : digitValue c = digitValue d) : c.toLower = d.toLower := by
  rw [(hexDigit_spec hc).2.2.1, (hexDigit_spec hd).2.2.1, h]

/-- Digits of one length write one number only when they are the same but for case. -/
theorem hexValue_eq_iff (hds : ∀ c ∈ ds, isHexDigit c = true) (hes : ∀ c ∈ es, isHexDigit c = true)
    (hlen : ds.length = es.length) : hexValue ds = hexValue es ↔ ds.map Char.toLower = es.map Char.toLower := by
  constructor
  · intro h
    induction ds generalizing es with
    | nil =>
      rw [List.length_eq_zero_iff.1 hlen.symm]
    | cons d ds ih =>
      obtain _ | ⟨e, es⟩ := es
      · cases hlen
      · rw [List.forall_mem_cons] at hds hes
        have hlen' : ds.length = es.length := Nat.succ_inj.1 hlen
        rw [hexValue_cons, hexValue_cons, hlen'] at h
        have hlt := hexValue_lt hds.2
        have hlt' := hexValue_lt hes.2
        rw [hlen'] at hlt
        have hdiv := congrArg (· / 16 ^ es.length) h
        have hmod := congrArg (· % 16 ^ es.length) h
        simp only [Nat.mul_add_mod_of_lt, hlt, hlt'] at hmod
        simp only [Nat.mul_add_div (Nat.pow_pos (show 0 < 16 by decide)), Nat.mul_comm (digitValue _),
          Nat.div_eq_of_lt hlt, Nat.div_eq_of_lt hlt', Nat.add_zero] at hdiv
        rw [List.map_cons, List.map_cons, toLower_eq_of_digitValue_eq hds.1 hes.1 hdiv, ih hds.2 hes.2 hlen' hmod]
  · intro h
    rw [← hexValue_map_toLower hds, h, hexValue_map_toLower hes]

/-! ## Pairs of digits -/

theorem hexPairs_eq (ds : List Char) : hexPairs ds = (pairBytes ds).isSome := by
  induction ds using pairBytes.induct with
  | case1 => rfl
  | case2 => rfl
  | case3 a b ds hab ih => rw [hexPairs, pairBytes, if_pos hab, hab, Bool.true_and, ih, Option.isSome_map]
  | case4 a b ds hab =>
    rw [Bool.not_eq_true] at hab
    rw [hexPairs, pairBytes, hab, Bool.false_and]
    rfl

theorem isBytes_iff : isBytes s = true ↔ ∃ bs, bytes? s = some bs := by
  rw [isBytes, bytes?]
  split
  · rw [hexPairs_eq, Option.isSome_iff_exists]
  · simp

theorem length_of_pairBytes (h : pairBytes ds = some bs) : ds.length = 2 * bs.length := by
  induction ds using pairBytes.induct generalizing bs with
  | case1 => cases h; rfl
  | case2 => cases h
  | case3 a b ds hab ih =>
    rw [pairBytes, if_pos hab, Option.map_eq_some_iff] at h
    obtain ⟨cs, hcs, rfl⟩ := h
    rw [List.length_cons, List.length_cons, List.length_cons, ih hcs]
    omega
  | case4 a b ds hab =>
    rw [pairBytes, if_neg hab] at h
    cases h

theorem pairBytes_append (h : pairBytes ds = some bs) (es : List Char) :
    pairBytes (ds ++ es) = (pairBytes es).map (bs ++ ·) := by
  induction ds using pairBytes.induct generalizing bs with
  | case1 => cases h; simp
  | case2 => cases h
  | case3 a b ds hab ih =>
    rw [pairBytes, if_pos hab, Option.map_eq_some_iff] at h
    obtain ⟨cs, hcs, rfl⟩ := h
    rw [List.cons_append, List.cons_append, pairBytes, if_pos hab, ih hcs, Option.map_map]
    rfl
  | case4 a b ds hab =>
    rw [pairBytes, if_neg hab] at h
    cases h

/-- **Bytes and digits write the same number.** -/
theorem ofBig_pairBytes (h : pairBytes ds = some bs) : ofBig bs = hexValue ds := by
  induction ds using pairBytes.induct generalizing bs with
  | case1 => cases h; rfl
  | case2 => cases h
  | case3 a b ds hab ih =>
    rw [pairBytes, if_pos hab, Option.map_eq_some_iff] at h
    obtain ⟨cs, hcs, rfl⟩ := h
    obtain ⟨ha, hb⟩ := Bool.and_eq_true_iff.1 hab
    have hlow : 16 * digitValue a + digitValue b < 256 := by
      have := digitValue_lt ha
      have := digitValue_lt hb
      omega
    rw [ofBig_cons, ih hcs, hexValue_cons, hexValue_cons, List.length_cons, length_of_pairBytes hcs,
      UInt8.toNat_ofNat', Nat.mod_eq_of_lt hlow, pow_succ, pow_mul]
    ring
  | case4 a b ds hab =>
    rw [pairBytes, if_neg hab] at h
    cases h

/-- Leaving out bytes leaves out pairs of digits. -/
theorem pairBytes_drop (h : pairBytes ds = some bs) (k : ℕ) : pairBytes (ds.drop (2 * k)) = some (bs.drop k) := by
  induction k generalizing ds bs with
  | zero => exact h
  | succ k ih =>
    match ds, h with
    | [], h =>
      cases h
      rfl
    | a :: b :: ds, h =>
      rw [pairBytes] at h
      split at h
      · rw [Option.map_eq_some_iff] at h
        obtain ⟨cs, hcs, rfl⟩ := h
        exact ih hcs
      · cases h

theorem exists_pairBytes {k : ℕ} (h : ∀ c ∈ ds, isHexDigit c = true) (hlen : ds.length = 2 * k) :
    ∃ bs, pairBytes ds = some bs ∧ bs.length = k := by
  have hpairs : hexPairs ds = true := by
    induction ds using hexPairs.induct generalizing k with
    | case1 => rfl
    | case2 =>
      rw [List.length_singleton] at hlen
      omega
    | case3 a b ds ih =>
      obtain ⟨ha, hb, hds⟩ : isHexDigit a = true ∧ isHexDigit b = true ∧ ∀ c ∈ ds, isHexDigit c = true := by
        simpa using h
      rw [List.length_cons, List.length_cons] at hlen
      rw [hexPairs, ha, hb, ih hds (k := k - 1) (by omega)]
      rfl
  rw [hexPairs_eq, Option.isSome_iff_exists] at hpairs
  obtain ⟨bs, hbs⟩ := hpairs
  refine ⟨bs, hbs, ?_⟩
  have := length_of_pairBytes hbs
  omega

/-! ## Texts -/

theorem toList_of_bytes? (h : bytes? s = some bs) : ∃ ds, s.toList = '0' :: 'x' :: ds ∧ pairBytes ds = some bs := by
  rw [bytes?] at h
  split at h
  next ds hds => exact ⟨ds, hds, h⟩
  next => cases h

theorem size_of_bytes? (h : bytes? s = some bs) : size s = bs.length := by
  obtain ⟨ds, hs, hds⟩ := toList_of_bytes? h
  have hlen := length_of_pairBytes hds
  rw [size, hs, List.length_cons, List.length_cons, hlen]
  omega

/-- A number written in a fixed width is the number its bytes write. -/
theorem toHexSized_eq_ok {n k : ℕ} (hk : 0 < k) (hn : n < 256 ^ k) :
    ∃ s bs, toHexSized n k = .ok s ∧ bytes? s = some bs ∧ bs.length = k ∧ ofBig bs = n := by
  have hshort : (hexDigits n).length ≤ k * 2 :=
    length_hexDigits_le (by omega) (by rwa [Nat.mul_comm k 2, pow_mul])
  have hdigits : ∀ c ∈ List.replicate (k * 2 - (hexDigits n).length) '0' ++ hexDigits n, isHexDigit c = true := by
    intro c hc
    obtain hzero | hdigit := List.mem_append.1 hc
    · rw [List.eq_of_mem_replicate hzero]
      rfl
    · exact isHexDigit_of_mem_hexDigits hdigit
  obtain ⟨bs, hbs, hlen⟩ := exists_pairBytes hdigits
    (show _ = 2 * k by rw [List.length_append, List.length_replicate]; omega)
  refine ⟨_, bs, if_pos hn, ?_, hlen, ?_⟩
  · rw [bytes?, String.toList_ofList]
    exact hbs
  · rw [ofBig_pairBytes hbs, hexValue_replicate_zero_append, hexValue_hexDigits]

/-- The bytes of texts that are joined. -/
theorem bytes?_concatHex {values : List String} {bss : List (List UInt8)}
    (h : List.Forall₂ (fun s bs ↦ bytes? s = some bs) values bss) :
    bytes? (concatHex values) = some bss.flatten := by
  rw [bytes?, concatHex, String.toList_ofList]
  show pairBytes _ = _
  induction h with
  | nil => rfl
  | cons hs _ ih =>
    obtain ⟨ds, hds, hbs⟩ := toList_of_bytes? hs
    rw [List.map_cons, List.flatten_cons, hds, pairBytes_append (by exact hbs), ih]
    rfl

end Js
