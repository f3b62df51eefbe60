import EezDashboard.Contract.Execution
import EezDashboard.Contract.Abi

/-!
# The treasury's bridge pair

`TreasuryBridge`, deployed once on each chain: `bridgeFromL1`, which mints on L2, and `lockForL2`,
which it reaches through its alias on L1.  Both contracts have both entries, so the model has one
definition of each entry, on either chain.  One EEZ entry is atomic over the two chains, so a
cross-chain call is a call, and the two storages are changed and restored together.

What the bridges inherit and the tokens appear as calls whose answers nothing is assumed of.  The
managers are a parameter: what becomes of a call of `lockForL2` on a proxy is for them to say, and
`Pair.Authentic` is what the bridges rely on.
-/

set_option autoImplicit false

namespace Bridge

open Contract Prog

/-! ## The pair -/

inductive Chain
  | l1
  | l2
  deriving DecidableEq, Repr

def Chain.other : Chain → Chain
  | .l1 => .l2
  | .l2 => .l1

/-- The immutables of one bridge and what it was configured with; `this` is its own address. -/
structure Config where
  this : Address
  canonicalToken : Address
  treasuryRollupId : ℕ
  rollupId : ℕ
  canonicalBridgeAddress : Address

/-- `_bridgeAddress` -/
def Config.bridgeAddress (cfg : Config) : Address :=
  if cfg.canonicalBridgeAddress ≠ 0 then cfg.canonicalBridgeAddress else cfg.this

/-- The arguments of `lockForL2`, as its calldata carries them. -/
structure LockCall where
  payer : Address
  amount : Word
  recipient : Address
  nonce : Word
  deriving DecidableEq, Repr

/-- What becomes of a call of `lockForL2` on a proxy. -/
inductive Delivery
  /-- `lockForL2` of the peer runs, with these arguments, and its answer comes back -/
  | executed (call : LockCall)
  /-- nothing runs on the other chain, and this comes back -/
  | answered (answer : Word)
  deriving DecidableEq, Repr

/-- Two bridges configured as each other's peer.  `computeCrossChainProxyAddress` is the address the
manager of a chain derives for an account of another one, `keccak256` the hash, and `deliver` what the
manager of a chain makes of a call of `lockForL2` on a proxy, given the words it finds; `none` when
the call fails there or its answer does not decode. -/
structure Pair where
  config : Chain → Config
  computeCrossChainProxyAddress : Chain → Address → ℕ → Address
  keccak256 : List Word → Word
  deliver : Chain → Address → LockCall → List Word → Option Delivery
  treasuryRollupId : (config .l1).treasuryRollupId = (config .l2).treasuryRollupId
  treasuryRollupId_ne : (config .l2).treasuryRollupId ≠ 0
  canonicalToken : (config .l1).canonicalToken = (config .l2).canonicalToken
  rollupId_l1 : (config .l1).rollupId = 0
  rollupId_l2 : (config .l2).rollupId = (config .l2).treasuryRollupId
  peer : ∀ c, (config c).canonicalBridgeAddress = (config c.other).this

/-- The proxy of the bridge of the other chain: the account as which it acts on this one, and by
which it is called from here. -/
def Pair.peerProxy (pair : Pair) (c : Chain) : Address :=
  pair.computeCrossChainProxyAddress c (pair.config c.other).this (pair.config c.other).rollupId

/-- The account as which a user of L2 acts on L1. -/
def Pair.aliasOf (pair : Pair) (payer : Address) : Address :=
  pair.computeCrossChainProxyAddress .l1 payer (pair.config .l1).treasuryRollupId

/-! ## Storage, events, errors and calls -/

/-- The storage `TreasuryBridge` adds to the bridge it inherits from. -/
structure Deposits where
  nextDepositNonce : ℕ
  lockedDeposits : ℕ → Bool
  depositing : Bool

inductive Event
  | depositLocked (nonce : ℕ) (payerAlias recipient : Address) (amount : ℕ)
  | depositMinted (nonce : ℕ) (payer recipient : Address) (amount : ℕ)
  deriving DecidableEq, Repr

/-- The storage of both bridges with the events they have emitted.  `held` is no variable of theirs:
it adds up by how much the bridge's balance was seen to rise between the two readings of
`lockForL2`. -/
structure Storage where
  bridge : Chain → Deposits
  log : List Event
  held : ℕ

/-- The storage of a fresh pair. -/
def Storage.initial : Storage := ⟨fun _ ↦ ⟨0, fun _ ↦ false, false⟩, [], 0⟩

/-- Change the storage of one bridge. -/
def Storage.set (s : Storage) (c : Chain) (d : Deposits) : Storage :=
  { s with bridge := Function.update s.bridge c d }

@[simp] theorem Storage.set_self (s : Storage) (c : Chain) (d : Deposits) :
    (s.set c d).bridge c = d := Function.update_self ..
@[simp] theorem Storage.set_set (s : Storage) (c : Chain) (d d' : Deposits) :
    (s.set c d).set c d' = s.set c d' := by simp [Storage.set]
@[simp] theorem Storage.set_log (s : Storage) (c : Chain) (d : Deposits) :
    (s.set c d).log = s.log := rfl
@[simp] theorem Storage.set_held (s : Storage) (c : Chain) (d : Deposits) :
    (s.set c d).held = s.held := rfl
@[simp] theorem Storage.set_l1_l2 (s : Storage) (d : Deposits) :
    (s.set .l1 d).bridge .l2 = s.bridge .l2 := by simp [Storage.set]
@[simp] theorem Storage.set_l2_l1 (s : Storage) (d : Deposits) :
    (s.set .l2 d).bridge .l1 = s.bridge .l1 := by simp [Storage.set]

inductive BridgeError
  | unauthorizedCaller
  | invalidRoute
  | zeroAmount
  | zeroAddress
  | depositAlreadyLocked
  | invalidLockReceipt
  | inexactLock
  | reentered
  deriving DecidableEq, Repr

/-- The calls a bridge makes to accounts outside the pair; `crossChain` is what runs on the way to the
other chain, and `crossChainReturn` what runs on the way back. -/
inductive External
  | wrappedTokens (token : Address) (origin : ℕ)
  | codeLength (account : Address)
  | createCrossChainProxy (original : Address) (rollupId : ℕ)
  | crossChain (proxy : Address) (call : LockCall)
  | crossChainReturn (proxy : Address)
  | balanceOf (token owner : Address)
  | safeTransferFrom (token source target : Address) (amount : ℕ)
  | mint (wrapped recipient : Address) (amount : ℕ)
  deriving DecidableEq, Repr

/-- The calls that forbid writes: reads of inherited storage and of code, and a view call. -/
def External.view : External → Bool
  | .wrappedTokens .. | .codeLength _ | .balanceOf .. => true
  | .createCrossChainProxy .. | .crossChain .. | .crossChainReturn _ | .safeTransferFrom ..
  | .mint .. => false

/-- Code of the bridges. -/
abbrev BridgeM := Prog Storage External BridgeError

/-! ## The code -/

/-- `_receipt` -/
def receipt (pair : Pair) (c : Chain) (l1Bridge l2Bridge payer : Address) (amount : ℕ)
    (recipient : Address) (nonce : ℕ) : Word :=
  pair.keccak256 [l1Bridge.setWidth 256, l2Bridge.setWidth 256,
    BitVec.ofNat 256 (pair.config c).treasuryRollupId, (pair.config c).canonicalToken.setWidth 256,
    payer.setWidth 256, recipient.setWidth 256, BitVec.ofNat 256 amount, BitVec.ofNat 256 nonce]

/-- Record a lock: its event, and by how much the balance was seen to rise. -/
def emitLocked (nonce : ℕ) (payerAlias recipient : Address) (amount rise : ℕ) : BridgeM Unit :=
  modify fun s ↦ { s with
    log := s.log ++ [.depositLocked nonce payerAlias recipient amount]
    held := s.held + rise }

/-- `onlyBridgeProxy` -/
def onlyBridgeProxy (pair : Pair) (c : Chain) (sender : Address) (sourceRollupId : ℕ) :
    BridgeM Unit := do
  let expectedProxy := pair.computeCrossChainProxyAddress c (pair.config c).bridgeAddress
    sourceRollupId
  revertIf (sender ≠ expectedProxy) .unauthorizedCaller

/-- `_getOrDeployProxy` -/
def getOrDeployProxy (pair : Pair) (c : Chain) (originalAddress : Address) (rollupId : ℕ) :
    BridgeM Address := do
  let proxy := pair.computeCrossChainProxyAddress c originalAddress rollupId
  let length ← ask (.codeLength proxy) Abi.uint256
  when (length = 0) (ask (.createCrossChainProxy originalAddress rollupId) Abi.nothing)
  pure proxy

/-- `lockForL2` -/
def lockForL2 (pair : Pair) (c : Chain) (sender payer : Address) (amount : ℕ)
    (recipient : Address) (nonce : ℕ) : BridgeM Word := do
  let cfg := pair.config c
  onlyBridgeProxy pair c sender cfg.treasuryRollupId
  revertIf (cfg.rollupId ≠ 0 ∨ cfg.canonicalBridgeAddress = 0) .invalidRoute
  revertIf (payer = 0 ∨ recipient = 0) .zeroAddress
  revertIf (amount = 0) .zeroAmount
  let s ← get
  revertIf ((s.bridge c).lockedDeposits nonce = true) .depositAlreadyLocked
  modify fun s ↦ s.set c { s.bridge c with
    lockedDeposits := Function.update (s.bridge c).lockedDeposits nonce true }
  let payerAlias := pair.computeCrossChainProxyAddress c payer cfg.treasuryRollupId
  let beforeBalance ← ask (.balanceOf cfg.canonicalToken cfg.this) Abi.uint256
  ask (.safeTransferFrom cfg.canonicalToken payerAlias cfg.this amount) Abi.nothing
  let afterBalance ← ask (.balanceOf cfg.canonicalToken cfg.this) Abi.uint256
  let expected ← checkedAdd beforeBalance amount
  revertIf (afterBalance ≠ expected) .inexactLock
  emitLocked nonce payerAlias recipient amount (afterBalance - beforeBalance)
  pure (receipt pair c cfg.this cfg.canonicalBridgeAddress payer amount recipient nonce)

/-- The call of `lockForL2` on a proxy.  Where the managers have it executed, the peer is entered as
this bridge's alias on the other chain, and a failure there is a failure here. -/
def callLockForL2 (pair : Pair) (c : Chain) (proxy : Address) (call : LockCall) : BridgeM Word := do
  let delivery ← ask (.crossChain proxy call) (pair.deliver c proxy call)
  match delivery with
  | .answered answer => pure answer
  | .executed call' => do
    let answer ← lockForL2 pair c.other (pair.peerProxy c.other) call'.payer call'.amount.toNat
      call'.recipient call'.nonce.toNat
    ask (.crossChainReturn proxy) Abi.nothing
    pure answer

/-- `bridgeFromL1` -/
def bridgeFromL1 (pair : Pair) (c : Chain) (sender : Address) (amount : ℕ) (recipient : Address) :
    BridgeM Unit := do
  let cfg := pair.config c
  revertIf (cfg.rollupId ≠ cfg.treasuryRollupId ∨ cfg.canonicalBridgeAddress = 0) .invalidRoute
  revertIf (amount = 0) .zeroAmount
  revertIf (recipient = 0) .zeroAddress
  let s ← get
  revertIf ((s.bridge c).depositing = true) .reentered
  modify fun s ↦ s.set c { s.bridge c with depositing := true }
  let wrapped ← ask (.wrappedTokens cfg.canonicalToken 0) Abi.address
  revertIf (wrapped = 0) .invalidRoute
  let s ← get
  let nonce := (s.bridge c).nextDepositNonce
  let next ← checkedAdd nonce 1
  modify fun s ↦ s.set c { s.bridge c with nextDepositNonce := next }
  let proxy ← getOrDeployProxy pair c cfg.canonicalBridgeAddress 0
  let answer ← callLockForL2 pair c proxy
    ⟨sender, BitVec.ofNat 256 amount, recipient, BitVec.ofNat 256 nonce⟩
  revertIf (answer ≠ receipt pair c cfg.canonicalBridgeAddress cfg.this sender amount recipient
    nonce) .invalidLockReceipt
  ask (.mint wrapped recipient amount) Abi.nothing
  modify fun s ↦ { s with log := s.log ++ [.depositMinted nonce sender recipient amount] }
  modify fun s ↦ s.set c { s.bridge c with depositing := false }

/-! ## What is relied on -/

/-- What `lockForL2` of the L1 bridge answers to a call. -/
def Pair.lockReceipt (pair : Pair) (call : LockCall) : Word :=
  receipt pair .l1 (pair.config .l1).this (pair.config .l2).this call.payer call.amount.toNat
    call.recipient call.nonce.toNat

/-- What the bridges rely on.  Nobody answers with a receipt for which no lock was run, and the hash
tells a call from what the managers have executed in its place. -/
structure Pair.Authentic (pair : Pair) : Prop where
  unforged : ∀ call found answer,
    pair.deliver .l2 (pair.peerProxy .l2) call found = some (.answered answer) →
    answer ≠ pair.lockReceipt call
  collisionFree : ∀ call found call',
    pair.deliver .l2 (pair.peerProxy .l2) call found = some (.executed call') →
    pair.lockReceipt call' = pair.lockReceipt call → call' = call

/-- The hash, written down for one deposit. -/
def sampleKeccak256 (words : List Word) : Word :=
  if words = [0xb1, 0xb2, 7, 0xc0, 0xaa, 0xbb, 5, 0] then
    0xddb4883089cfe656aef5acc175a9c82da0ecde4185444eab09bb4c8a7bb4ac66
  else 1

theorem sampleKeccak256_ne_zero (words : List Word) : sampleKeccak256 words ≠ 0 := by
  unfold sampleKeccak256
  split <;> decide

/-- A pair of bridges at `0xb1` and `0xb2`, with managers that execute a call unless they find a word:
then `0` is answered. -/
def samplePair : Pair where
  config
    | .l1 => ⟨0xb1, 0xc0, 7, 0, 0xb2⟩
    | .l2 => ⟨0xb2, 0xc0, 7, 7, 0xb1⟩
  computeCrossChainProxyAddress _ account rollupId :=
    account + BitVec.ofNat 160 (2 ^ 64 * (rollupId + 1))
  keccak256 := sampleKeccak256
  deliver _ _ call
    | [] => some (.executed call)
    | _ :: _ => some (.answered 0)
  treasuryRollupId := rfl
  treasuryRollupId_ne := by decide
  canonicalToken := rfl
  rollupId_l1 := rfl
  rollupId_l2 := rfl
  peer c := by cases c <;> rfl

theorem samplePair_authentic : samplePair.Authentic where
  unforged call found answer h := by
    rcases found with _ | ⟨w, found⟩
    · cases h
    · cases h
      exact (sampleKeccak256_ne_zero _).symm
  collisionFree call found call' h _ := by
    rcases found with _ | ⟨w, found⟩
    · cases h
      rfl
    · cases h

/-! ## The pair as a contract -/

/-- How the pair can be entered.  Anyone may call either entry of either bridge; the alias of the L2
bridge on L1 is a proxy, which calls only what that bridge calls. -/
inductive Entry (pair : Pair)
  | bridgeFromL1 (c : Chain) (sender : Address) (amount : Word) (recipient : Address)
  | lockForL2 (c : Chain) (sender payer : Address) (amount : ℕ) (recipient : Address) (nonce : ℕ)
      (outsider : c = .l1 → sender ≠ pair.peerProxy .l1)

/-- The two bridges as one contract. -/
def bridges (pair : Pair) : Code Storage External BridgeError (Entry pair) where
  body
    | _, .bridgeFromL1 c sender amount recipient => bridgeFromL1 pair c sender amount.toNat recipient
    | _, .lockForL2 c sender payer amount recipient nonce _ => do
      let _ ← lockForL2 pair c sender payer amount recipient nonce
      pure ()
  view := External.view

end Bridge
