import Mathlib.Algebra.BigOperators.Group.List.Basic
import Mathlib.Data.List.Chain
import EezDashboard.Finite.PrefixMax

/-!
# The heaviest chain

In a chain every element is related to the next.  When the score of an element is its weight and the best score of
the elements it may follow, no chain that ends with it is heavier (`Solves.sum_le`), and the chain that is found by
going back from it has that weight (`Solves.climb`).
-/

set_option autoImplicit false

namespace HeaviestChain

open PrefixMax (IsBest)

universe u

variable {ι : Type u} (R : ι → ι → Prop) (w : ι → ℕ)

/-- Every element follows the best of those that it may follow. -/
structure Solves (score : ι → ℕ) (previous : ι → Option ι) (i : ι) : Prop where
  best : IsBest score {j | R j i} (previous i)
  score_eq : score i = (previous i).elim 0 score + w i

/-- `for (let i = end; i >= 0; i = previous[i])` -/
def climb (previous : ι → Option ι) : ℕ → Option ι → List ι
  | fuel + 1, some i => i :: climb previous fuel (previous i)
  | _, _ => []

variable {R w} {score : ι → ℕ} {previous : ι → Option ι}

/-- **No chain is heavier than the score of its last element.** -/
theorem Solves.sum_le (h : ∀ j i, R j i → Solves R w score previous j) {c : List ι} {i : ι}
    (hi : Solves R w score previous i) (hc : (c ++ [i]).IsChain R) : ((c ++ [i]).map w).sum ≤ score i := by
  induction c using List.reverseRecOn generalizing i with
  | nil =>
    rw [List.nil_append, List.map_singleton, List.sum_singleton, hi.score_eq]
    exact Nat.le_add_left _ _
  | append_singleton c j ih =>
    rw [List.isChain_append] at hc
    have hji : R j i := hc.2.2 j (by simp) i rfl
    have hsum := ih (h j i hji) hc.1
    rw [List.map_append, List.sum_append, List.map_singleton, List.sum_singleton, hi.score_eq]
    refine Nat.add_le_add_right (hsum.trans ?_) _
    have hbest := hi.best
    cases hprevious : previous i with
    | none =>
      rw [hprevious] at hbest
      exact absurd hji (hbest j)
    | some k =>
      rw [hprevious] at hbest
      exact hbest.2 j hji

/-- **The way back is a chain of that weight.** -/
theorem Solves.climb (h : ∀ j i, R j i → Solves R w score previous j) (rank : ι → ℕ)
    (hrank : ∀ j i, R j i → rank j < rank i) {fuel : ℕ} {i : ι} (hfuel : rank i < fuel)
    (hi : Solves R w score previous i) :
    ∃ c, (climb previous fuel (some i)).reverse = c ++ [i] ∧ (c ++ [i]).IsChain R ∧
      ((c ++ [i]).map w).sum = score i := by
  induction fuel generalizing i with
  | zero => omega
  | succ fuel ih =>
    rw [HeaviestChain.climb, List.reverse_cons, hi.score_eq]
    have hbest := hi.best
    cases hprevious : previous i with
    | none =>
      refine ⟨[], ?_, .singleton i, by simp⟩
      cases fuel <;> rfl
    | some j =>
      rw [hprevious] at hbest
      have hji : R j i := hbest.1
      have hlt := hrank j i hji
      obtain ⟨c, hreverse, hchain, hsum⟩ := ih (by omega) (h j i hji)
      refine ⟨c ++ [j], by rw [hreverse], ?_, ?_⟩
      · refine List.isChain_append.2 ⟨hchain, .singleton i, ?_⟩
        simpa using hji
      · rw [List.map_append, List.sum_append, hsum]
        simp

end HeaviestChain
