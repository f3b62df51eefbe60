import EezDashboard.Treasury.Policy

/-!
# The L1 delegate

`StandardBridgeDelegate`, which spends SafeL1's allowance on behalf of one rollup policy: `bindPolicy`
and `pay`, statement by statement.
-/

set_option autoImplicit false

namespace Treasury

open Contract Prog

/-- The immutables of the delegate; `this` is its own address. -/
structure DelegateImmutables where
  this : Address
  safe : Address
  allowance : Address
  token : Address
  bridge : Address
  rollupId : ℕ
  deriving DecidableEq, Repr

/-- The storage of the delegate. -/
structure DelegateStorage where
  policyAlias : Address
  entered : Bool
  deriving DecidableEq, Repr

inductive DelegateError
  | onlySafe
  | onlyPolicy
  | invalidConfiguration
  | residualFunds
  | reentered
  deriving DecidableEq, Repr

/-- Code of the delegate. -/
abbrev DelegateM := Prog DelegateStorage External DelegateError

/-- `bindPolicy`; `hasCode` is `alias_.code.length != 0`. -/
def bindPolicy (im : DelegateImmutables) (sender alias_ : Address) (hasCode : Bool) :
    DelegateM Unit := do
  revertIf (sender ≠ im.safe) .onlySafe
  let s ← get
  revertIf (s.policyAlias ≠ 0 ∨ hasCode = false) .invalidConfiguration
  modify fun s ↦ { s with policyAlias := alias_ }

/-- The part of `pay` that bridges what the delegate has just received. -/
def bridgeToL2 (im : DelegateImmutables) (recipient : Address) (amount beforeBalance : ℕ) :
    DelegateM Unit := do
  let received ← ask ⟨im.token, .balanceOf im.this⟩ Abi.uint256
  let expected ← checkedAdd beforeBalance amount
  revertIf (received ≠ expected) .residualFunds
  ask ⟨im.token, .forceApprove im.bridge amount⟩ Abi.nothing
  ask ⟨im.bridge, .bridgeTokens im.token amount im.rollupId recipient⟩ Abi.nothing
  let left ← ask ⟨im.token, .allowance im.this im.bridge⟩ Abi.uint256
  revertIf (left ≠ 0) .residualFunds

/-- `pay` -/
def delegatePay (im : DelegateImmutables) (sender recipient : Address) (amount : ℕ) (onL1 : Bool) :
    DelegateM Unit := do
  let s ← get
  revertIf (sender ≠ s.policyAlias) .onlyPolicy
  revertIf (s.entered = true) .reentered
  revertIf (amount = 0 ∨ amount > 2 ^ 96 - 1 ∨ recipient = 0 ∨ recipient = im.this)
    .invalidConfiguration
  modify fun s ↦ { s with entered := true }
  let beforeBalance ← ask ⟨im.token, .balanceOf im.this⟩ Abi.uint256
  ask ⟨im.allowance, .executeAllowanceTransfer im.safe im.token
    (if onL1 then recipient else im.this) (amount % 2 ^ 96) 0 0 im.this []⟩ Abi.nothing
  when (onL1 = false) (bridgeToL2 im recipient amount beforeBalance)
  let afterBalance ← ask ⟨im.token, .balanceOf im.this⟩ Abi.uint256
  revertIf (afterBalance ≠ beforeBalance) .residualFunds
  modify fun s ↦ { s with entered := false }

/-- `bindPolicy` succeeds for the Safe alone, and only while no policy is bound. -/
theorem bindPolicy_eq_ok {W : Type} {im : DelegateImmutables} {sender alias_ : Address}
    {hasCode : Bool} {handle : External → DelegateStorage → W →
      Option (List Word) × DelegateStorage × W} {s s' : DelegateStorage} {w w' : W} {u : Unit} :
    (bindPolicy im sender alias_ hasCode).run false handle s w = (.ok u, s', w') ↔
      sender = im.safe ∧ s.policyAlias = 0 ∧ hasCode = true ∧
        s' = { s with policyAlias := alias_ } ∧ w' = w := by
  rw [bindPolicy, run_revertIf_bind_eq_ok, run_get_bind, run_revertIf_bind_eq_ok,
    run_modify_eq_ok]
  simp only [not_or, ne_eq, not_not, Bool.not_eq_false, true_and, and_assoc]

end Treasury
