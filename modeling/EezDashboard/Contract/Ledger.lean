import Mathlib.Algebra.Group.Pi.Basic
import Mathlib.Algebra.Notation.Pi.Basic
import Mathlib.Tactic.Common
import Mathlib.Tactic.SplitIfs
import Mathlib.Tactic.Abel

/-!
# The books of a token

A standard token records balances and approvals.  What a call does to them is a signed change of the
balances, together with the approvals it may have touched: `Moves`.  Changes add up, so the effect
of a composite payment is the sum of the effects of its calls, whichever accounts coincide.

The operations of a standard token are given too, each with the change it makes.
-/

set_option autoImplicit false

namespace Contract

variable {A : Type}

/-- What a standard token records. -/
structure Token (A : Type) where
  balance : A → ℕ
  approval : A → A → ℕ

/-- No approval at all. -/
def noApproval (_ _ : A) : Prop := False

/-- The approval of one owner to one spender. -/
def approvalOf (owner spender : A) (o s : A) : Prop := o = owner ∧ s = spender

/-- The change `n` units moving from one account to another make. -/
def shift [DecidableEq A] (source target : A) (n : ℕ) : A → ℤ :=
  Pi.single target (n : ℤ) - Pi.single source (n : ℤ)

theorem shift_apply [DecidableEq A] (source target : A) (n : ℕ) (x : A) :
    shift source target n x =
      (if x = target then (n : ℤ) else 0) - if x = source then (n : ℤ) else 0 := by
  rw [shift, Pi.sub_apply, Pi.single_apply, Pi.single_apply]

/-- Moving on what has just arrived. -/
theorem shift_add_shift [DecidableEq A] (a b c : A) (n : ℕ) :
    shift a b n + shift b c n = shift a c n := by
  simp only [shift]
  abel

@[simp] theorem shift_zero [DecidableEq A] (source target : A) : shift source target 0 = 0 := by
  simp [shift]

namespace Token

/-- The balances change by `δ`, and the approvals outside `touched` do not change. -/
structure Moves (t t' : Token A) (δ : A → ℤ) (touched : A → A → Prop) : Prop where
  balance : ∀ x, (t'.balance x : ℤ) = t.balance x + δ x
  approval : ∀ o s, ¬touched o s → t'.approval o s = t.approval o s

theorem Moves.refl (t : Token A) (touched : A → A → Prop) : t.Moves t 0 touched :=
  ⟨fun _ ↦ by simp, fun _ _ _ ↦ rfl⟩

/-- Changes one after another add up. -/
theorem Moves.trans {t t' t'' : Token A} {δ δ' : A → ℤ} {touched touched' : A → A → Prop}
    (h : t.Moves t' δ touched) (h' : t'.Moves t'' δ' touched') :
    t.Moves t'' (δ + δ') fun o s ↦ touched o s ∨ touched' o s where
  balance x := by rw [h'.balance, h.balance, Pi.add_apply, add_assoc]
  approval o s hn := by
    rw [h'.approval o s fun ht ↦ hn (.inr ht), h.approval o s fun ht ↦ hn (.inl ht)]

theorem Moves.mono {t t' : Token A} {δ : A → ℤ} {touched touched' : A → A → Prop}
    (h : t.Moves t' δ touched) (ht : ∀ o s, touched o s → touched' o s) :
    t.Moves t' δ touched' :=
  ⟨h.balance, fun o s hn ↦ h.approval o s fun hto ↦ hn (ht o s hto)⟩

/-! ## The operations of a standard token -/

variable [DecidableEq A]

/-- Move `n` units, which the source must hold. -/
def transfer (t : Token A) (source target : A) (n : ℕ) : Option (Token A) :=
  if n ≤ t.balance source then
    some { t with
      balance := fun x ↦
        t.balance x - (if x = source then n else 0) + if x = target then n else 0 }
  else none

/-- Create `n` units. -/
def mint (t : Token A) (target : A) (n : ℕ) : Token A :=
  { t with balance := fun x ↦ t.balance x + if x = target then n else 0 }

/-- Destroy `n` units, which the source must hold. -/
def burn (t : Token A) (source : A) (n : ℕ) : Option (Token A) :=
  if n ≤ t.balance source then
    some { t with balance := fun x ↦ t.balance x - if x = source then n else 0 }
  else none

/-- Let the spender move `n` units of the owner. -/
def approve (t : Token A) (owner spender : A) (n : ℕ) : Token A :=
  { t with approval := fun o s ↦ if o = owner ∧ s = spender then n else t.approval o s }

/-- Move `n` units of the owner on the spender's account, which uses up that much approval. -/
def transferFrom (t : Token A) (spender owner target : A) (n : ℕ) : Option (Token A) :=
  if n ≤ t.approval owner spender then
    (t.approve owner spender (t.approval owner spender - n)).transfer owner target n
  else none

theorem transfer_moves {t t' : Token A} {source target : A} {n : ℕ}
    (h : t.transfer source target n = some t') :
    t.Moves t' (shift source target n) noApproval := by
  unfold transfer at h
  split at h
  next hn =>
    cases h
    refine ⟨fun x ↦ ?_, fun _ _ _ ↦ rfl⟩
    rw [shift_apply]
    rcases eq_or_ne x source with rfl | hx
    · simp only [if_true]
      split_ifs <;> omega
    · simp only [if_neg hx]
      split_ifs <;> omega
  next => cases h

theorem mint_moves (t : Token A) (target : A) (n : ℕ) :
    t.Moves (t.mint target n) (Pi.single target (n : ℤ)) noApproval :=
  ⟨fun x ↦ by rw [Pi.single_apply]; simp [mint], fun _ _ _ ↦ rfl⟩

theorem burn_moves {t t' : Token A} {source : A} {n : ℕ} (h : t.burn source n = some t') :
    t.Moves t' (-Pi.single source (n : ℤ)) noApproval := by
  unfold burn at h
  split at h
  next hn =>
    cases h
    refine ⟨fun x ↦ ?_, fun _ _ _ ↦ rfl⟩
    rw [Pi.neg_apply, Pi.single_apply]
    by_cases hx : x = source
    · subst hx
      simp
      omega
    · simp [hx]
  next => cases h

theorem approve_moves (t : Token A) (owner spender : A) (n : ℕ) :
    t.Moves (t.approve owner spender n) 0 (approvalOf owner spender) :=
  ⟨fun _ ↦ by simp [approve], fun _ _ hn ↦ if_neg hn⟩

theorem transferFrom_moves {t t' : Token A} {spender owner target : A} {n : ℕ}
    (h : t.transferFrom spender owner target n = some t') :
    t.Moves t' (shift owner target n) (approvalOf owner spender) := by
  unfold transferFrom at h
  split at h
  · have hm := (approve_moves t owner spender _).trans (transfer_moves h)
    rw [zero_add] at hm
    exact hm.mono fun o s ht ↦ ht.elim id False.elim
  · cases h

end Token

end Contract
