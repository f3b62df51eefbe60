import Mathlib

/-!
# Run-length columns

A column of values is written as a list of runs, a length and a value each.  Which neighbouring
equal values share a run is decided by `merges`: a value it accepts is always merged with an equal
neighbour, a value it rejects always stands alone.  With `merges` constantly true this is ordinary
run-length encoding.

`RunLength.runs merges l` is the one list of maximal runs that expands to `l`: it expands back
(`expand_runs`), it is maximal (`maximal_runs`), and a maximal list of runs is the runs of what it
expands to (`runs_expand`), so nothing else is.
-/

set_option autoImplicit false

universe u

namespace RunLength

variable {α β : Type u}

/-- The column a list of runs stands for. -/
def expand : List (ℕ × α) → List α
  | [] => []
  | (n, a) :: rs => List.replicate n a ++ expand rs

variable [DecidableEq α] (merges : α → Bool)

/-- One more value in front of a column. -/
def push (a : α) : List (ℕ × α) → List (ℕ × α)
  | [] => [(1, a)]
  | (n, b) :: rs => if merges a ∧ a = b then (n + 1, b) :: rs else (1, a) :: (n, b) :: rs

/-- The maximal runs of a column. -/
def runs (l : List α) : List (ℕ × α) := l.foldr (push merges) []

/-- No run is empty, a value that is not merged stands alone, and neighbouring runs of a value that
is merged have different values. -/
structure Maximal (rs : List (ℕ × α)) : Prop where
  pos : ∀ r ∈ rs, 0 < r.1
  single : ∀ r ∈ rs, merges r.2 = false → r.1 = 1
  chain : rs.IsChain fun r s ↦ merges r.2 = true → r.2 ≠ s.2

variable {merges}

omit [DecidableEq α] in
@[simp] theorem expand_nil : expand ([] : List (ℕ × α)) = [] := rfl

omit [DecidableEq α] in
@[simp] theorem expand_cons (r : ℕ × α) (rs : List (ℕ × α)) :
    expand (r :: rs) = List.replicate r.1 r.2 ++ expand rs := rfl

omit [DecidableEq α] in
theorem length_expand (rs : List (ℕ × α)) : (expand rs).length = (rs.map Prod.fst).sum := by
  induction rs with
  | nil => rfl
  | cons r rs ih => simp [ih]

omit [DecidableEq α] in
theorem expand_map (f : α → β) (rs : List (ℕ × α)) :
    expand (rs.map fun r ↦ (r.1, f r.2)) = (expand rs).map f := by
  induction rs with
  | nil => rfl
  | cons r rs ih => simp [ih]

omit [DecidableEq α] in
theorem mem_expand {a : α} {rs : List (ℕ × α)} (h : ∀ r ∈ rs, 0 < r.1) :
    a ∈ expand rs ↔ ∃ r ∈ rs, r.2 = a := by
  induction rs with
  | nil => simp
  | cons r rs ih =>
    rw [List.forall_mem_cons] at h
    rw [expand_cons, List.mem_append, List.mem_replicate, ih h.2]
    simp [Nat.ne_of_gt h.1, eq_comm]

theorem expand_push (a : α) (rs : List (ℕ × α)) : expand (push merges a rs) = a :: expand rs := by
  cases rs with
  | nil => simp [push]
  | cons r rs =>
    rw [push]
    split
    · next h => simp [h.2, List.replicate_succ]
    · simp

/-- **The runs of a column expand to it.** -/
@[simp] theorem expand_runs (l : List α) : expand (runs merges l) = l := by
  induction l with
  | nil => rfl
  | cons a l ih => rw [runs, List.foldr_cons, expand_push]; exact congrArg _ ih

omit [DecidableEq α] in
theorem maximal_nil : Maximal merges ([] : List (ℕ × α)) :=
  ⟨by simp, by simp, List.isChain_nil⟩

omit [DecidableEq α] in
/-- A run in front of maximal runs, when it neither needs splitting nor merging. -/
theorem maximal_cons_iff {r : ℕ × α} {rs : List (ℕ × α)} :
    Maximal merges (r :: rs) ↔ 0 < r.1 ∧ (merges r.2 = false → r.1 = 1) ∧
      (∀ s ∈ rs.head?, merges r.2 = true → r.2 ≠ s.2) ∧ Maximal merges rs := by
  constructor
  · rintro ⟨hpos, hsingle, hchain⟩
    rw [List.forall_mem_cons] at hpos hsingle
    rw [List.isChain_cons] at hchain
    exact ⟨hpos.1, hsingle.1, hchain.1, hpos.2, hsingle.2, hchain.2⟩
  · rintro ⟨hpos, hsingle, hhead, htail⟩
    exact ⟨List.forall_mem_cons.mpr ⟨hpos, htail.pos⟩,
      List.forall_mem_cons.mpr ⟨hsingle, htail.single⟩, List.isChain_cons.mpr ⟨hhead, htail.chain⟩⟩

theorem maximal_push (a : α) {rs : List (ℕ × α)} (h : Maximal merges rs) :
    Maximal merges (push merges a rs) := by
  cases rs with
  | nil => exact maximal_cons_iff.mpr ⟨by simp, by simp, by simp, maximal_nil⟩
  | cons r rs =>
    have h' := maximal_cons_iff.mp h
    rw [push]
    split
    · next hm =>
      obtain ⟨hma, rfl⟩ := hm
      exact maximal_cons_iff.mpr ⟨by simp, by simp [hma], h'.2.2.1, h'.2.2.2⟩
    · next hm =>
      refine maximal_cons_iff.mpr ⟨by simp, by simp, ?_, h⟩
      simpa using hm

/-- **The runs of a column are maximal.** -/
theorem maximal_runs (l : List α) : Maximal merges (runs merges l) := by
  induction l with
  | nil => exact maximal_nil
  | cons a l ih => exact maximal_push a ih

/-- Putting the values of one run in front of what follows it gives the run back. -/
theorem foldr_push_replicate {n : ℕ} {a : α} {rs : List (ℕ × α)}
    (h : Maximal merges ((n, a) :: rs)) :
    (List.replicate n a).foldr (push merges) rs = (n, a) :: rs := by
  obtain ⟨hpos, hsingle, hhead, -⟩ := maximal_cons_iff.mp h
  have hone : push merges a rs = (1, a) :: rs := by
    cases rs with
    | nil => rfl
    | cons s rs =>
      rw [push, if_neg]
      exact fun hm ↦ hhead s rfl hm.1 hm.2
  induction n with
  | zero => exact absurd hpos (by simp)
  | succ n ih =>
    rw [List.replicate_succ, List.foldr_cons]
    cases n with
    | zero => exact hone
    | succ n =>
      have hm : merges a = true := by
        by_contra hm
        have := hsingle (by simpa using hm)
        simp at this
      have hprev := ih (maximal_cons_iff.mpr ⟨by simp, by simp [hm], hhead,
        (maximal_cons_iff.mp h).2.2.2⟩) (by simp) (by simp [hm]) hhead
      rw [hprev, push, if_pos ⟨hm, rfl⟩]

/-- **A maximal list of runs is the runs of what it expands to.** -/
theorem runs_expand {rs : List (ℕ × α)} (h : Maximal merges rs) : runs merges (expand rs) = rs := by
  induction rs with
  | nil => rfl
  | cons r rs ih =>
    rw [expand_cons, runs, List.foldr_append]
    have htail : (expand rs).foldr (push merges) [] = rs := ih (maximal_cons_iff.mp h).2.2.2
    rw [htail]
    exact foldr_push_replicate h

end RunLength
