import Mathlib

/-!
# Readers that can fail

A program that raises is a function into `Except`, and one that also updates a counter on the way
is a function into `StateT σ (Except ε)`.  The lemmas here peel such a program apart from a
successful result: each says what has to have happened for the whole to return `ok`.

`raiseIf c e` is the statement `if c: raise e`; written this way a checked program keeps the shape
of its source, one line for each check.
-/

set_option autoImplicit false

universe u

variable {ε σ : Type u} {α β : Type u}

/-- `if c: raise e`. -/
def raiseIf (c : Prop) [Decidable c] (e : ε) : Except ε PUnit.{u + 1} :=
  if c then .error e else .ok ⟨⟩

@[simp] theorem raiseIf_eq_ok {c : Prop} [Decidable c] {e : ε} {x : PUnit} :
    raiseIf c e = .ok x ↔ ¬c := by
  rw [raiseIf]
  split <;> simp [*]

namespace Except

theorem bind_eq_ok {x : Except ε α} {f : α → Except ε β} {b : β} :
    (x >>= f) = .ok b ↔ ∃ a, x = .ok a ∧ f a = .ok b := by
  cases x <;> simp [bind, Except.bind]

@[simp] theorem pure_eq_ok {a b : α} : (pure a : Except ε α) = .ok b ↔ a = b := by
  simp [pure, Except.pure]

@[simp] theorem throw_ne_ok {e : ε} {b : α} : (throw e : Except ε α) ≠ .ok b := by
  simp [throw, throwThe, MonadExceptOf.throw]

/-- `.ok` in either of two alternatives. -/
theorem ite_eq_ok {c : Prop} [Decidable c] {x y : Except ε α} {b : α} :
    (if c then x else y) = .ok b ↔ (c ∧ x = .ok b) ∨ (¬c ∧ y = .ok b) := by
  split <;> simp [*]

end Except

/-! ## With a counter -/

namespace StateT

variable {s s' : σ}

theorem bind_eq_ok {x : StateT σ (Except ε) α} {f : α → StateT σ (Except ε) β} {b : β} :
    (x >>= f) s = .ok (b, s') ↔ ∃ a t, x s = .ok (a, t) ∧ f a t = .ok (b, s') := by
  simp only [bind, StateT.bind]
  cases h : x s with
  | error e => simp [Except.bind]
  | ok r =>
    obtain ⟨a, t⟩ := r
    simp [Except.bind]

@[simp] theorem pure_eq_ok {a b : α} :
    (pure a : StateT σ (Except ε) α) s = .ok (b, s') ↔ a = b ∧ s = s' := by
  simp [pure, StateT.pure, Except.pure]

@[simp] theorem lift_eq_ok {x : Except ε α} {b : α} :
    (liftM x : StateT σ (Except ε) α) s = .ok (b, s') ↔ x = .ok b ∧ s = s' := by
  cases x <;>
    simp [liftM, monadLift, MonadLift.monadLift, StateT.lift, bind, Except.bind, pure, Except.pure]

theorem throw_ne_ok {e : ε} {r : α × σ} :
    (throw e : StateT σ (Except ε) α) s ≠ .ok r := by
  simp [throw, throwThe, MonadExceptOf.throw, StateT.lift, bind, Except.bind]

end StateT
