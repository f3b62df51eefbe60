import Mathlib.Logic.Function.Iterate
import Mathlib.Data.Nat.Notation
import Mathlib.Tactic.Common

/-!
# Loops that run until nothing changes

A loop that repeats a round for as long as it makes progress is the iteration of the round, when each
round that changes anything uses up some of a bounded measure: after as many rounds as the bound allows,
another one changes nothing.
-/

set_option autoImplicit false

namespace Settle

variable {α : Type*} {f : α → α} {P : α → Prop} {μ : α → ℕ} {n : ℕ}

/-- What a round preserves holds after any number of rounds. -/
theorem iterate_preserves (hP : ∀ a, P a → P (f a)) {a : α} (ha : P a) (k : ℕ) : P (f^[k] a) := by
  induction k with
  | zero => exact ha
  | succ k ih =>
    rw [Function.iterate_succ_apply']
    exact hP _ ih

/-- Each round either changes nothing or raises the measure, so `k` rounds raise it to `k`. -/
theorem fixed_or_le (hP : ∀ a, P a → P (f a)) (hf : ∀ a, P a → f a = a ∨ μ a < μ (f a)) {a : α}
    (ha : P a) (k : ℕ) : f (f^[k] a) = f^[k] a ∨ k ≤ μ (f^[k] a) := by
  induction k with
  | zero => exact Or.inr (Nat.zero_le _)
  | succ k ih =>
    rw [Function.iterate_succ_apply']
    rcases ih with hfix | hle
    · exact Or.inl (by rw [hfix, hfix])
    · rcases hf _ (iterate_preserves hP ha k) with hfix | hlt
      · exact Or.inl (by rw [hfix, hfix])
      · exact Or.inr (Nat.succ_le_of_lt (Nat.lt_of_le_of_lt hle hlt))

/-- After as many rounds as the measure can rise, the loop has settled. -/
theorem iterate_settled (hP : ∀ a, P a → P (f a)) (hf : ∀ a, P a → f a = a ∨ μ a < μ (f a))
    (hn : ∀ a, P a → μ a ≤ n) {a : α} (ha : P a) : f (f^[n] a) = f^[n] a := by
  rcases fixed_or_le hP hf ha n with hfix | hle
  · exact hfix
  · have hPn := iterate_preserves hP ha n
    rcases hf _ hPn with hfix | hlt
    · exact hfix
    · exact absurd (hn _ (hP _ hPn)) (by omega)

end Settle
