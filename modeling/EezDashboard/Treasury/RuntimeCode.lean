import EezDashboard.Finite.Mask
import EezDashboard.Js.Hex

/-!
# Reviewed runtime code

`matchesRuntime` compares the code of a contract with the runtime that was reviewed.  A constructor
writes the values of its immutables into slots of that runtime, so both texts are masked slot by slot
before they are compared, and the slots of one immutable are compared among themselves on the code.

Whatever the slots are, this accepts the codes that agree with the runtime on every byte no slot
covers and that give each immutable one value (`matchesRuntime_iff`).
-/

set_option autoImplicit false

namespace Treasury.RuntimeCode

open Js

/-! ## The check -/

/-- Where the compiler left room for an immutable, counted in bytes. -/
structure Slot where
  start : ℤ
  length : ℕ
  deriving DecidableEq, Repr

/-- `Pick<Artifact, "runtime" | "immutables" | "immutableGroups">` -/
structure Artifact where
  runtime : Hex
  immutables : List Slot
  immutableGroups : Option (List (List Slot)) := none

/-- `text.slice(0, first) + "0".repeat(length * 2) + text.slice(stop)` -/
def maskSlot (text : List Char) (first stop : ℤ) (length : ℕ) : List Char :=
  slice text 0 first ++ List.replicate (length * 2) '0' ++ sliceFrom text stop

/-- Mask both texts slot by slot, unless a slot leaves the code. -/
def maskSlots (code : List Char) : List Slot → List Char × List Char → Option (List Char × List Char)
  | [], masked => some masked
  | ⟨start, length⟩ :: slots, (normalized, expected) =>
    let first := 2 + start * 2
    let stop := first + length * 2
    if first < 2 ∨ stop > code.length then none
    else maskSlots code slots (maskSlot normalized first stop length, maskSlot expected first stop length)

/-- What a slot holds, in lower case. -/
def Slot.held (slot : Slot) (code : Hex) : List Char :=
  (slice code.text (2 + slot.start * 2) (2 + (slot.start + slot.length) * 2)).map Char.toLower

def matchesRuntime (code : Hex) (artifact : Artifact) : Bool :=
  if code.text.length ≠ artifact.runtime.text.length ∨ code.text = ['0', 'x'] then false
  else
    match maskSlots code.text artifact.immutables
        (code.text.map Char.toLower, artifact.runtime.text.map Char.toLower) with
    | none => false
    | some (normalized, expected) =>
      if (artifact.immutableGroups.getD []).any fun refs ↦
          let values := refs.map fun slot ↦ slot.held code
          values.any fun value ↦ some value ≠ values.head?
      then false
      else normalized = expected

/-! ## What it compares -/

/-- The two digits of a byte of the code, in lower case. -/
def byteAt (code : Hex) (i : ℕ) : Option Char × Option Char :=
  ((code.digits.map Char.toLower)[2 * i]?, (code.digits.map Char.toLower)[2 * i + 1]?)

/-- The slot lies inside the code. -/
def Slot.Inside (slot : Slot) (code : Hex) : Prop :=
  0 ≤ slot.start ∧ (slot.start + slot.length) * 2 ≤ code.digits.length

/-- The slot covers the byte. -/
def Slot.Covers (slot : Slot) (i : ℕ) : Prop := slot.start ≤ i ∧ (i : ℤ) < slot.start + slot.length

/-- The places of a slot in the text of the code. -/
def Slot.range (slot : Slot) : ℕ × ℕ :=
  ((2 + slot.start * 2).toNat, (2 + slot.start * 2 + slot.length * 2).toNat)

variable {code runtime : Hex} {artifact : Artifact} {slot : Slot} {slots : List Slot} {i : ℕ}

@[simp] theorem length_text (code : Hex) : code.text.length = code.digits.length + 2 := rfl

theorem length_lower (code : Hex) : (code.text.map Char.toLower).length = code.digits.length + 2 :=
  List.length_map ..

theorem Slot.Inside.fits (h : slot.Inside code) : Mask.Fits (code.digits.length + 2) slot.range := by
  obtain ⟨hstart, hstop⟩ := h
  constructor <;> rw [range] <;> omega

theorem not_inside_iff : ¬slot.Inside code ↔
    2 + slot.start * 2 < 2 ∨ 2 + slot.start * 2 + slot.length * 2 > code.text.length := by
  rw [Slot.Inside, length_text]
  omega

/-- A slot is masked by overwriting its places. -/
theorem maskSlot_eq (text : List Char) (h : 0 ≤ slot.start) :
    maskSlot text (2 + slot.start * 2) (2 + slot.start * 2 + slot.length * 2) slot.length =
      Mask.overwrite '0' slot.range.1 slot.range.2 text := by
  have hlen : slot.length * 2 = slot.range.2 - slot.range.1 := by
    rw [Slot.range]
    omega
  rw [maskSlot, slice, sliceFrom, cut, cut, cut, if_neg (by omega), if_neg (by omega), if_neg (by omega),
    Mask.overwrite, hlen]
  rfl

theorem maskSlots_eq_some_iff {normalized expected : List Char} {masked : List Char × List Char} :
    maskSlots code.text slots (normalized, expected) = some masked ↔
      (∀ slot ∈ slots, slot.Inside code) ∧
        masked = (Mask.overwriteAll '0' (slots.map Slot.range) normalized,
          Mask.overwriteAll '0' (slots.map Slot.range) expected) := by
  induction slots generalizing normalized expected with
  | nil => simp [maskSlots, Mask.overwriteAll, eq_comm]
  | cons slot slots ih =>
    by_cases hin : slot.Inside code
    · have hnot := mt not_inside_iff.2 (not_not.2 hin)
      rw [maskSlots, if_neg hnot, ih, maskSlot_eq _ hin.1, maskSlot_eq _ hin.1, List.forall_mem_cons,
        and_iff_right hin]
      rfl
    · rw [maskSlots, if_pos (not_inside_iff.1 hin), List.forall_mem_cons]
      exact iff_of_false (by simp) fun h ↦ hin h.1.1

/-- Of the text, a slot covers the two digits of each byte it covers. -/
theorem covers_range_iff (h : 0 ≤ slot.start) (d : ℕ) (hd : d < 2) :
    Mask.Covers slot.range (2 + (2 * i + d)) ↔ slot.Covers i := by
  rw [Mask.Covers, Slot.range, Slot.Covers]
  omega

theorem getElem?_lower (code : Hex) (p : ℕ) :
    (code.text.map Char.toLower)[2 + p]? = (code.digits.map Char.toLower)[p]? := by
  rw [Nat.add_comm]
  rfl

/-- The texts agree outside the slots just when the bytes do. -/
theorem agree_iff (h : ∀ slot ∈ slots, 0 ≤ slot.start) :
    (∀ p, (∀ r ∈ slots.map Slot.range, ¬Mask.Covers r p) →
        (code.text.map Char.toLower)[p]? = (runtime.text.map Char.toLower)[p]?) ↔
      ∀ i, (∀ slot ∈ slots, ¬slot.Covers i) → byteAt code i = byteAt runtime i := by
  simp only [List.forall_mem_map]
  have hdigit (i d : ℕ) (hd : d < 2) : (∀ slot ∈ slots, ¬Mask.Covers slot.range (2 + (2 * i + d))) ↔
      ∀ slot ∈ slots, ¬slot.Covers i :=
    forall₂_congr fun slot hslot ↦ not_congr (covers_range_iff (h slot hslot) d hd)
  constructor
  · intro hall i hi
    have heven := hall _ ((hdigit i 0 (by omega)).2 hi)
    have hodd := hall _ ((hdigit i 1 (by omega)).2 hi)
    rw [getElem?_lower, getElem?_lower] at heven hodd
    exact Prod.ext heven hodd
  · rintro hall p hp
    match p with
    | 0 => rfl
    | 1 => rfl
    | p + 2 =>
      have hplace : p + 2 = 2 + (2 * (p / 2) + p % 2) := by omega
      rw [hplace] at hp ⊢
      have hbyte := hall (p / 2) ((hdigit _ _ (Nat.mod_lt p two_pos)).1 hp)
      rw [byteAt, byteAt, Prod.mk.injEq] at hbyte
      rw [getElem?_lower, getElem?_lower]
      obtain h0 | h1 := Nat.mod_two_eq_zero_or_one p
      · rw [h0]
        exact hbyte.1
      · rw [h1]
        exact hbyte.2

/-- The values of a group differ when two of its slots do. -/
theorem any_ne_head?_eq_false_iff {refs : List Slot} :
    ((refs.map fun slot ↦ slot.held code).any fun value ↦
        some value ≠ (refs.map fun slot ↦ slot.held code).head?) = false ↔
      ∀ s ∈ refs, ∀ t ∈ refs, s.held code = t.held code := by
  cases refs with
  | nil => simp
  | cons first refs =>
    rw [List.any_eq_false, List.forall_mem_map]
    simp only [List.map_cons, List.head?_cons, decide_eq_true_eq, not_not, Option.some_inj]
    constructor
    · intro hall s hs t ht
      rw [hall s hs, hall t ht]
    · exact fun hall s hs ↦ hall s hs first List.mem_cons_self

/-- **A code is accepted just when it agrees with the runtime outside the slots and gives each immutable
one value.** -/
theorem matchesRuntime_iff : matchesRuntime code artifact = true ↔
    code.digits ≠ [] ∧ code.digits.length = artifact.runtime.digits.length ∧
      (∀ slot ∈ artifact.immutables, slot.Inside code) ∧
      (∀ i, (∀ slot ∈ artifact.immutables, ¬slot.Covers i) → byteAt code i = byteAt artifact.runtime i) ∧
      ∀ refs ∈ artifact.immutableGroups.getD [], ∀ s ∈ refs, ∀ t ∈ refs, s.held code = t.held code := by
  have hempty : code.text = ['0', 'x'] ↔ code.digits = [] := by
    rw [Hex.text, List.cons_eq_cons, List.cons_eq_cons]
    exact ⟨fun h ↦ h.2.2, fun h ↦ ⟨rfl, rfl, h⟩⟩
  rw [matchesRuntime]
  split
  next h =>
    rw [hempty, length_text, length_text] at h
    exact iff_of_false Bool.false_ne_true fun ⟨hne, hlen, _⟩ ↦ h.elim (fun h ↦ h (by omega)) hne
  next h =>
    rw [hempty, length_text, length_text] at h
    obtain ⟨hlen, hne⟩ := not_or.1 h
    have hsame : code.digits.length = artifact.runtime.digits.length := by omega
    rw [and_iff_right hne, and_iff_right hsame]
    split
    next hnone =>
      refine iff_of_false Bool.false_ne_true fun ⟨hin, _⟩ ↦ ?_
      rw [maskSlots_eq_some_iff.2 ⟨hin, rfl⟩] at hnone
      cases hnone
    next normalized expected hsome =>
      obtain ⟨hin, hmasked⟩ := maskSlots_eq_some_iff.1 hsome
      rw [Prod.mk.injEq] at hmasked
      obtain ⟨rfl, rfl⟩ := hmasked
      rw [and_iff_right hin, ← agree_iff fun slot hslot ↦ (hin slot hslot).1]
      have hfits : ∀ r ∈ artifact.immutables.map Slot.range,
          Mask.Fits (code.text.map Char.toLower).length r := by
        rw [length_lower]
        exact List.forall_mem_map.2 fun slot hslot ↦ (hin slot hslot).fits
      rw [← Mask.overwriteAll_eq_iff (z := '0') (by rw [length_lower, length_lower, hsame]) hfits]
      split
      next hany =>
        refine iff_of_false Bool.false_ne_true fun ⟨_, hgroups⟩ ↦ ?_
        obtain ⟨refs, hrefs, hdiffer⟩ := List.any_eq_true.1 hany
        rw [any_ne_head?_eq_false_iff.2 (hgroups refs hrefs)] at hdiffer
        cases hdiffer
      next hnone =>
        rw [Bool.not_eq_true, List.any_eq_false] at hnone
        rw [decide_eq_true_eq, iff_self_and]
        exact fun _ refs hrefs ↦ any_ne_head?_eq_false_iff.1 (Bool.not_eq_true _ ▸ hnone refs hrefs)

/-! ## What a slot holds -/

theorem getElem?_held (h : slot.Inside code) (p : ℕ) : (slot.held code)[p]? =
    if p < 2 * slot.length then (code.digits.map Char.toLower)[2 * slot.start.toNat + p]? else none := by
  obtain ⟨hstart, hstop⟩ := h
  rw [Slot.held, slice, cut, cut, if_neg (by omega), if_neg (by omega), List.map_drop, List.map_take,
    List.getElem?_drop, List.getElem?_take]
  have hfirst : (2 + slot.start * 2).toNat + p = 2 + (2 * slot.start.toNat + p) := by omega
  rw [hfirst, getElem?_lower]
  by_cases hp : p < 2 * slot.length
  · rw [if_pos hp, if_pos (by omega)]
  · rw [if_neg hp, if_neg (by omega)]

theorem length_held (h : slot.Inside code) : (slot.held code).length = 2 * slot.length := by
  obtain ⟨hstart, hstop⟩ := h
  rw [Slot.held, slice, cut, cut, if_neg (by omega), if_neg (by omega), List.length_map, List.length_drop,
    List.length_take, length_text]
  omega

/-- Two slots inside the code hold the same when they hold the same bytes. -/
theorem held_eq_iff {s t : Slot} (hs : s.Inside code) (ht : t.Inside code) : s.held code = t.held code ↔
    s.length = t.length ∧
      ∀ i < s.length, byteAt code (s.start.toNat + i) = byteAt code (t.start.toNat + i) := by
  constructor
  · intro h
    have hlen : s.length = t.length := by
      have h2 : 2 * s.length = 2 * t.length := by rw [← length_held hs, ← length_held ht, h]
      omega
    refine ⟨hlen, fun i hi ↦ ?_⟩
    have hplace (p : ℕ) (hp : p < 2 * s.length) : (code.digits.map Char.toLower)[2 * s.start.toNat + p]? =
        (code.digits.map Char.toLower)[2 * t.start.toNat + p]? := by
      have hp' := congrArg (fun l : List Char ↦ l[p]?) h
      simp only [getElem?_held hs, getElem?_held ht, ← hlen, if_pos hp] at hp'
      exact hp'
    rw [byteAt, byteAt, Nat.mul_add, Nat.mul_add]
    exact Prod.ext (hplace (2 * i) (by omega)) (hplace (2 * i + 1) (by omega))
  · rintro ⟨hlen, hbytes⟩
    refine List.ext_getElem? fun p ↦ ?_
    rw [getElem?_held hs, getElem?_held ht, hlen]
    split
    next hp =>
      have hbyte := hbytes (p / 2) (by omega)
      rw [byteAt, byteAt, Prod.mk.injEq] at hbyte
      obtain h0 | h1 := Nat.mod_two_eq_zero_or_one p
      · convert hbyte.1 using 2 <;> omega
      · convert hbyte.2 using 2 <;> omega
    next => rfl

/-- **What is accepted, and what never is.**  Slots may overlap and repeat; the slots of a group hold the same
when they hold the same bytes, if they lie inside the code as the immutables have to. -/
theorem matchesRuntime_trusts (code : Hex) (artifact : Artifact) :
    (matchesRuntime code artifact = true ↔
      code.digits ≠ [] ∧ code.digits.length = artifact.runtime.digits.length ∧
        (∀ slot ∈ artifact.immutables, slot.Inside code) ∧
        (∀ i, (∀ slot ∈ artifact.immutables, ¬slot.Covers i) → byteAt code i = byteAt artifact.runtime i) ∧
        ∀ refs ∈ artifact.immutableGroups.getD [], ∀ s ∈ refs, ∀ t ∈ refs, s.held code = t.held code) ∧
      (∀ s t : Slot, s.Inside code → t.Inside code → (s.held code = t.held code ↔
        s.length = t.length ∧
          ∀ i < s.length, byteAt code (s.start.toNat + i) = byteAt code (t.start.toNat + i))) ∧
      (∀ i, (∀ slot ∈ artifact.immutables, ¬slot.Covers i) → byteAt code i ≠ byteAt artifact.runtime i →
        matchesRuntime code artifact = false) ∧
      ∀ refs ∈ artifact.immutableGroups.getD [], ∀ s ∈ refs, ∀ t ∈ refs, s.held code ≠ t.held code →
        matchesRuntime code artifact = false := by
  refine ⟨matchesRuntime_iff, fun s t ↦ held_eq_iff, fun i hi hne ↦ ?_, fun refs hrefs s hs t ht hne ↦ ?_⟩
  · rw [← Bool.not_eq_true, matchesRuntime_iff]
    exact fun ⟨_, _, _, hagree, _⟩ ↦ hne (hagree i hi)
  · rw [← Bool.not_eq_true, matchesRuntime_iff]
    exact fun ⟨_, _, _, _, hgroups⟩ ↦ hne (hgroups refs hrefs s hs t ht)

end Treasury.RuntimeCode
