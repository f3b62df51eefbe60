import Mathlib.Data.List.Basic

/-!
# Overwriting ranges of a list

`overwrite z p q l` writes `z` over the places of `l` from `p` up to `q`.  Done for any number of
ranges, in whatever order and however they overlap, it changes exactly the places that some range
covers, so that two lists of one length become equal just when they agreed everywhere else.
-/

set_option autoImplicit false

namespace Mask

variable {α : Type}

/-- Write `z` from `p` up to `q`. -/
def overwrite (z : α) (p q : ℕ) (l : List α) : List α := l.take p ++ List.replicate (q - p) z ++ l.drop q

/-- Overwrite one range after another. -/
def overwriteAll (z : α) (ranges : List (ℕ × ℕ)) (l : List α) : List α :=
  ranges.foldl (fun l r ↦ overwrite z r.1 r.2 l) l

/-- A range of a list with `n` places. -/
def Fits (n : ℕ) (r : ℕ × ℕ) : Prop := r.1 ≤ r.2 ∧ r.2 ≤ n

/-- The range contains the place. -/
def Covers (r : ℕ × ℕ) (i : ℕ) : Prop := r.1 ≤ i ∧ i < r.2

instance (r : ℕ × ℕ) (i : ℕ) : Decidable (Covers r i) := inferInstanceAs (Decidable (_ ∧ _))

variable {z : α} {p q i : ℕ} {l m : List α} {ranges : List (ℕ × ℕ)}

theorem length_overwrite (h : Fits l.length (p, q)) : (overwrite z p q l).length = l.length := by
  obtain ⟨hpq, hq⟩ : p ≤ q ∧ q ≤ l.length := h
  simp only [overwrite, List.length_append, List.length_take, List.length_replicate, List.length_drop]
  omega

theorem getElem?_overwrite (h : Fits l.length (p, q)) :
    (overwrite z p q l)[i]? = if Covers (p, q) i then some z else l[i]? := by
  obtain ⟨hpq, hq⟩ : p ≤ q ∧ q ≤ l.length := h
  have htake : (l.take p).length = p := List.length_take_of_le (by omega)
  have hhead : (l.take p ++ List.replicate (q - p) z).length = q := by
    rw [List.length_append, htake, List.length_replicate, Nat.add_sub_cancel' hpq]
  rw [overwrite]
  by_cases hiq : i < q
  · rw [List.getElem?_append_left (by omega)]
    by_cases hip : i < p
    · rw [List.getElem?_append_left (by omega), List.getElem?_take_of_lt hip,
        if_neg fun hc ↦ absurd hc.1 (by omega)]
    · rw [List.getElem?_append_right (by omega), htake, List.getElem?_replicate, if_pos (by omega),
        if_pos ⟨Nat.le_of_not_lt hip, hiq⟩]
  · rw [List.getElem?_append_right (by omega), hhead, List.getElem?_drop, Nat.add_sub_cancel' (by omega),
      if_neg fun hc ↦ hiq hc.2]

theorem overwriteAll_cons (r : ℕ × ℕ) :
    overwriteAll z (r :: ranges) l = overwriteAll z ranges (overwrite z r.1 r.2 l) := rfl

/-- **What some range covers is overwritten, and nothing else changes.** -/
theorem getElem?_overwriteAll (h : ∀ r ∈ ranges, Fits l.length r) :
    (overwriteAll z ranges l)[i]? = if ∃ r ∈ ranges, Covers r i then some z else l[i]? := by
  induction ranges generalizing l with
  | nil => simp [overwriteAll]
  | cons r ranges ih =>
    obtain ⟨hr, hrest⟩ := List.forall_mem_cons.1 h
    have hlen := length_overwrite (z := z) hr
    rw [overwriteAll_cons, ih (hlen ▸ hrest), getElem?_overwrite hr]
    by_cases hc : Covers r i
    · have hex : ∃ r' ∈ r :: ranges, Covers r' i := ⟨r, List.mem_cons_self, hc⟩
      rw [if_pos hc, if_pos hex, ite_self]
    · simp only [List.exists_mem_cons_iff, hc, false_or, if_false]

/-- **Overwritten, two lists are equal just when they agree outside the ranges.** -/
theorem overwriteAll_eq_iff (hlen : l.length = m.length) (h : ∀ r ∈ ranges, Fits l.length r) :
    overwriteAll z ranges l = overwriteAll z ranges m ↔
      ∀ i, (∀ r ∈ ranges, ¬Covers r i) → l[i]? = m[i]? := by
  rw [List.ext_getElem?_iff]
  refine forall_congr' fun i ↦ ?_
  rw [getElem?_overwriteAll h, getElem?_overwriteAll (hlen ▸ h)]
  by_cases hc : ∃ r ∈ ranges, Covers r i
  · rw [if_pos hc, if_pos hc]
    exact iff_of_true rfl fun hnot ↦ hc.elim fun r hr ↦ absurd hr.2 (hnot r hr.1)
  · rw [if_neg hc, if_neg hc]
    exact ⟨fun heq _ ↦ heq, fun heq ↦ heq fun r hr hcr ↦ hc ⟨r, hr, hcr⟩⟩

end Mask
