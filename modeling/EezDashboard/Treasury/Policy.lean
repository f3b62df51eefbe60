import EezDashboard.Contract.Execution
import EezDashboard.Contract.Abi

/-!
# The treasury policy

`TreasuryPolicyBase` and its two adapters, `TreasuryPolicy` and `StandardBridgeTreasuryPolicy`: the
storage, the calls the policy makes, and the code of `paySplit` with everything it runs, statement
by statement.  The other contracts appear only as the targets of calls.
-/

set_option autoImplicit false

namespace Treasury

open Contract

/-! ## The deployment -/

/-- What an adapter adds to the immutables: where the policy's alias is read, and which L1 account
spends the allowance. -/
inductive Adapter
  /-- `TreasuryPolicy` -/
  | treasury (aliasReaderL1Proxy : Address)
  /-- `StandardBridgeTreasuryPolicy` -/
  | standard (bridgeL1Proxy bridgeExecutorL1 bridgeExecutorL1Proxy : Address)
  deriving DecidableEq, Repr

/-- The immutables of a policy; `this` is its own address. -/
structure Immutables where
  this : Address
  safeL1Proxy : Address
  safeL1 : Address
  safeL2 : Address
  canonicalToken : Address
  wrappedToken : Address
  allowanceL2 : Address
  allowanceL1Proxy : Address
  tokenL1Proxy : Address
  rollupId : ℕ
  bridge : Address
  bridgeL1 : Address
  adapter : Adapter
  deriving DecidableEq, Repr

def PERIOD : ℕ := 600
def GLOBAL_LIMIT : ℕ := 150000000

/-! ## Storage, events, errors and calls -/

inductive Event
  | l1PaymentAuthorized (safeNonce : ℕ) (callHash : Word)
  | paid (token recipient : Address) (onL1 : Bool) (amount fromL1 fromL2 epoch : ℕ)
  deriving DecidableEq, Repr

/-- The policy's storage, with the events it has emitted: a revert takes back both. -/
structure Storage where
  spent : ℕ → ℕ
  entered : Bool
  log : List Event

/-- The storage of a fresh policy. -/
def Storage.initial : Storage := ⟨fun _ ↦ 0, false, []⟩

inductive PolicyError
  | onlySafe
  | invalidConfiguration
  | invalidRecipient
  | invalidAmount
  | staleEpoch
  | globalLimit
  | capacity
  | unalignedAllowance
  | approvalFailed
  | reentered
  | residualBalance
  deriving DecidableEq, Repr

/-- The methods the treasury's contracts call on others. -/
inductive Method
  | nonce
  | canonicalBridgeAddress
  | rollupId
  | aliasOf (original : Address) (rollupId : ℕ)
  | policyAlias
  | getTokenAllowance (safe delegate token : Address)
  | balanceOf (owner : Address)
  | allowance (owner spender : Address)
  | executeAllowanceTransfer (safe token to_ : Address) (amount : ℕ) (paymentToken : Address)
      (payment : ℕ) (delegate : Address) (signature : List UInt8)
  | bridgeTokens (token : Address) (amount destination : ℕ) (recipient : Address)
  | approve (spender : Address) (amount : ℕ)
  | forceApprove (spender : Address) (amount : ℕ)
  | bridgeFromL1 (amount : ℕ) (recipient : Address)
  | pay (recipient : Address) (amount : ℕ) (onL1 : Bool)
  deriving DecidableEq, Repr

/-- The methods declared `view`, which are called with writes forbidden. -/
def Method.view : Method → Bool
  | .nonce | .canonicalBridgeAddress | .rollupId | .aliasOf .. | .policyAlias
  | .getTokenAllowance .. | .balanceOf _ | .allowance .. => true
  | .executeAllowanceTransfer .. | .bridgeTokens .. | .approve .. | .forceApprove ..
  | .bridgeFromL1 .. | .pay .. => false

/-- A call to another contract. -/
structure External where
  target : Address
  method : Method
  deriving DecidableEq, Repr

/-- A call of `paySplit`; `callHash` is `keccak256(msg.data)`. -/
structure PaySplit where
  sender : Address
  callHash : Word
  recipient : Address
  amount : ℕ
  onL1 : Bool
  expectedEpoch : ℕ
  fromL1 : ℕ
  deriving DecidableEq, Repr

/-- Code of the policy. -/
abbrev PolicyM := Prog Storage External PolicyError

open Prog

/-- Emit an event. -/
def emit (ev : Event) : PolicyM Unit := modify fun s ↦ { s with log := s.log ++ [ev] }

/-! ## Reading the allowances -/

/-- The five words of `getTokenAllowance`. -/
structure TokenAllowance where
  amount : ℕ
  spent : ℕ
  resetTimeMin : ℕ
  lastResetMin : ℕ
  nonce : ℕ
  deriving DecidableEq, Repr

/-- `uint256[5] memory` -/
def TokenAllowance.decode : List Word → Option TokenAllowance
  | a₀ :: a₁ :: a₂ :: a₃ :: a₄ :: _ =>
    some ⟨a₀.toNat, a₁.toNat, a₂.toNat, a₃.toNat, a₄.toNat⟩
  | _ => none

/-- `_remaining` -/
def remaining (module safe delegate token : Address) (epoch : ℕ) : PolicyM ℕ := do
  let a ← ask ⟨module, .getTokenAllowance safe delegate token⟩ TokenAllowance.decode
  revertIf (a.resetTimeMin ≠ PERIOD / 60 ∨ a.lastResetMin ≠ epoch * (PERIOD / 60))
    .unalignedAllowance
  pure (if a.spent < a.amount then a.amount - a.spent else 0)

/-- `_capacity` -/
def capacity (im : Immutables) (onL1 : Bool) (delegate : Address) (epoch : ℕ) : PolicyM ℕ := do
  let remaining ← remaining
    (if onL1 then im.allowanceL1Proxy else im.allowanceL2)
    (if onL1 then im.safeL1 else im.safeL2)
    (if onL1 then delegate else im.this)
    (if onL1 then im.canonicalToken else im.wrappedToken)
    epoch
  let balance ← (if onL1 then ask ⟨im.tokenL1Proxy, .balanceOf im.safeL1⟩ Abi.uint256
    else ask ⟨im.wrappedToken, .balanceOf im.safeL2⟩ Abi.uint256)
  pure (if balance < remaining then balance else remaining)

/-! ## The adapters -/

/-- `_paymentContext`: the policy's alias and the L1 account that spends the allowance. -/
def paymentContext (im : Immutables) : PolicyM (Address × Address) :=
  match im.adapter with
  | .treasury aliasReaderL1Proxy => do
    let alias_ ← ask ⟨aliasReaderL1Proxy, .aliasOf im.this im.rollupId⟩ Abi.address
    pure (alias_, alias_)
  | .standard bridgeL1Proxy bridgeExecutorL1 bridgeExecutorL1Proxy => do
    let peer ← ask ⟨bridgeL1Proxy, .canonicalBridgeAddress⟩ Abi.address
    revertIf (peer ≠ im.bridge) .invalidConfiguration
    let origin ← ask ⟨bridgeL1Proxy, .rollupId⟩ Abi.uint64
    revertIf (origin ≠ 0) .invalidConfiguration
    let alias_ ← ask ⟨bridgeExecutorL1Proxy, .policyAlias⟩ Abi.address
    revertIf (alias_ = 0) .invalidConfiguration
    pure (alias_, bridgeExecutorL1)

/-- `_payL1` -/
def payL1 (im : Immutables) (alias_ recipient : Address) (amount : ℕ) (onL1 : Bool) :
    PolicyM Unit :=
  match im.adapter with
  | .treasury _ => do
    let beforeBalance ← (if onL1 then pure 0
      else ask ⟨im.tokenL1Proxy, .balanceOf alias_⟩ Abi.uint256)
    ask ⟨im.allowanceL1Proxy, .executeAllowanceTransfer im.safeL1 im.canonicalToken
      (if onL1 then recipient else alias_) (amount % 2 ^ 96) 0 0 alias_ []⟩ Abi.nothing
    when (onL1 = false) do
      let approved ← ask ⟨im.tokenL1Proxy, .approve im.bridgeL1 amount⟩ Abi.bool
      revertIf (approved = false) .approvalFailed
      ask ⟨im.bridge, .bridgeFromL1 amount recipient⟩ Abi.nothing
      let afterBalance ← ask ⟨im.tokenL1Proxy, .balanceOf alias_⟩ Abi.uint256
      revertIf (afterBalance ≠ beforeBalance) .residualBalance
      let left ← ask ⟨im.tokenL1Proxy, .allowance alias_ im.bridgeL1⟩ Abi.uint256
      revertIf (left ≠ 0) .residualBalance
  | .standard _ _ bridgeExecutorL1Proxy =>
    ask ⟨bridgeExecutorL1Proxy, .pay recipient amount onL1⟩ Abi.nothing

/-! ## The payment -/

/-- The L2 contribution, the branch `fromL2 > 0` of `_pay`. -/
def payL2 (im : Immutables) (recipient : Address) (fromL2 : ℕ) (onL1 : Bool) : PolicyM Unit := do
  let beforeBalance ← ask ⟨im.wrappedToken, .balanceOf im.this⟩ Abi.uint256
  ask ⟨im.allowanceL2, .executeAllowanceTransfer im.safeL2 im.wrappedToken
    (if onL1 then im.this else recipient) (fromL2 % 2 ^ 96) 0 0 im.this []⟩ Abi.nothing
  when (onL1 = true) (ask ⟨im.bridge, .bridgeTokens im.wrappedToken fromL2 0 recipient⟩ Abi.nothing)
  let afterBalance ← ask ⟨im.wrappedToken, .balanceOf im.this⟩ Abi.uint256
  revertIf (afterBalance ≠ beforeBalance) .residualBalance

/-- The requirements of `_pay` that are settled before the accounting; the result is the alias. -/
def checkPayment (im : Immutables) (recipient : Address) (amount : ℕ) (expectedEpoch fromL1 : ℕ)
    (epoch : ℕ) : PolicyM Address := do
  revertIf (amount = 0 ∨ amount > GLOBAL_LIMIT ∨ amount > 2 ^ 96 - 1 ∨ fromL1 > amount)
    .invalidAmount
  revertIf (expectedEpoch ≠ epoch) .staleEpoch
  let s ← get
  let total ← checkedAdd (s.spent epoch) amount
  revertIf (total > GLOBAL_LIMIT) .globalLimit
  let peer ← ask ⟨im.bridge, .canonicalBridgeAddress⟩ Abi.address
  revertIf (peer ≠ im.bridgeL1) .invalidConfiguration
  let (alias_, delegate) ← paymentContext im
  revertIf (recipient = 0 ∨ recipient = im.this ∨ recipient = alias_ ∨ recipient = im.safeL1 ∨
    recipient = im.safeL2 ∨ recipient = im.bridge ∨ recipient = im.bridgeL1 ∨
    recipient = delegate) .invalidRecipient
  -- `||` stops at the first contribution that exceeds its capacity
  let capacityL1 ← capacity im true delegate epoch
  revertIf (fromL1 > capacityL1) .capacity
  let capacityL2 ← capacity im false delegate epoch
  revertIf (amount - fromL1 > capacityL2) .capacity
  pure alias_

/-- `_pay` -/
def pay (im : Immutables) (time : ℕ) (recipient : Address) (amount : ℕ) (onL1 : Bool)
    (expectedEpoch fromL1 : ℕ) : PolicyM Unit := do
  let epoch := time / PERIOD
  let alias_ ← checkPayment im recipient amount expectedEpoch fromL1 epoch
  let fromL2 := amount - fromL1
  let s ← get
  let total ← checkedAdd (s.spent epoch) amount
  modify fun s ↦ { s with spent := Function.update s.spent epoch total }
  when (fromL2 > 0) (payL2 im recipient fromL2 onL1)
  when (fromL1 > 0) (payL1 im alias_ recipient fromL1 onL1)
  emit (.paid im.canonicalToken recipient onL1 amount fromL1 fromL2 epoch)

/-- `_authorizePayment` -/
def authorizePayment (im : Immutables) (sender : Address) (callHash : Word) : PolicyM Unit :=
  if sender = im.safeL2 then pure ()
  else do
    revertIf (sender ≠ im.safeL1Proxy) .onlySafe
    let safeNonce ← ask ⟨im.safeL1Proxy, .nonce⟩ Abi.uint256
    emit (.l1PaymentAuthorized safeNonce callHash)

/-- `paySplit`, under the modifier `paymentExecution`. -/
def paySplit (im : Immutables) (time : ℕ) (e : PaySplit) : PolicyM Unit := do
  authorizePayment im e.sender e.callHash
  let s ← get
  revertIf (s.entered = true) .reentered
  modify fun s ↦ { s with entered := true }
  pay im time e.recipient e.amount e.onL1 e.expectedEpoch e.fromL1
  modify fun s ↦ { s with entered := false }

/-- The policy as a contract with one entry. -/
def policy (im : Immutables) : Code Storage External PolicyError PaySplit where
  body := fun f e ↦ paySplit im f.time e
  view := fun q ↦ q.method.view

/-! ## What does not write

The requirements are settled by view calls alone.  The contributions call other contracts, and write
nothing themselves either. -/

/-- Calls with writes forbidden. -/
def IsView (q : External) : Prop := q.method.view = true

theorem quiet_view {α : Type} {target : Address} {m : Method} (h : m.view = true)
    (decode : List Word → Option α) : (ask ⟨target, m⟩ decode : PolicyM α).Quiet IsView :=
  Quiet.ask (show IsView ⟨target, m⟩ from h) decode

theorem quiet_remaining (module safe delegate token : Address) (epoch : ℕ) :
    (remaining module safe delegate token epoch).Quiet IsView :=
  (quiet_view rfl _).bind fun _ ↦ (Quiet.revertIf _ _).bind fun _ ↦ .ret _

theorem quiet_capacity (im : Immutables) (onL1 : Bool) (delegate : Address) (epoch : ℕ) :
    (capacity im onL1 delegate epoch).Quiet IsView :=
  (quiet_remaining _ _ _ _ _).bind fun _ ↦
    (Quiet.ite (quiet_view rfl _) (quiet_view rfl _)).bind fun _ ↦ .ret _

theorem quiet_paymentContext (im : Immutables) : (paymentContext im).Quiet IsView := by
  unfold paymentContext
  split
  · exact (quiet_view rfl _).bind fun _ ↦ .ret _
  · exact (quiet_view rfl _).bind fun _ ↦ (Quiet.revertIf _ _).bind fun _ ↦
      (quiet_view rfl _).bind fun _ ↦ (Quiet.revertIf _ _).bind fun _ ↦
      (quiet_view rfl _).bind fun _ ↦ (Quiet.revertIf _ _).bind fun _ ↦ .ret _

theorem quiet_payL1 (im : Immutables) (alias_ recipient : Address) (amount : ℕ) (onL1 : Bool) :
    (payL1 im alias_ recipient amount onL1).Quiet fun _ ↦ True := by
  unfold payL1
  split
  · refine (Quiet.ite (.ret _) (Quiet.ask trivial _)).bind fun _ ↦
      (Quiet.ask trivial _).bind fun _ ↦ ?_
    exact ((Quiet.ask trivial _).bind fun _ ↦ (Quiet.revertIf _ _).bind fun _ ↦
      (Quiet.ask trivial _).bind fun _ ↦ (Quiet.ask trivial _).bind fun _ ↦
      (Quiet.revertIf _ _).bind fun _ ↦ (Quiet.ask trivial _).bind fun _ ↦
      Quiet.revertIf _ _).when
  · exact Quiet.ask trivial _

theorem quiet_payL2 (im : Immutables) (recipient : Address) (fromL2 : ℕ) (onL1 : Bool) :
    (payL2 im recipient fromL2 onL1).Quiet fun _ ↦ True :=
  (Quiet.ask trivial _).bind fun _ ↦ (Quiet.ask trivial _).bind fun _ ↦
    (Quiet.ask trivial _).when.bind fun _ ↦ (Quiet.ask trivial _).bind fun _ ↦ Quiet.revertIf _ _

end Treasury
