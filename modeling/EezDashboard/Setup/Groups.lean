import EezDashboard.Treasury.Bootstrap

/-!
# Deployment batches

How a batch for a `TreasuryBootstrap` is put together before it is signed: `materializeGroup` and
`encodeGroup` of the deployment journal.  Later actions carry the addresses of earlier creations in
their constructor arguments, targets and calldata, so the nonce of the executor is counted along with
the creations, and each address is computed before anything is deployed.

The encoders of viem and the artifacts are a parameter.  A call of a plan reads the addresses as they
are when its turn comes, as the closures of the source do, and throws where one of them is missing.
-/

set_option autoImplicit false

namespace Deployment

open Contract Bootstrap

/-! ## Plans -/

/-- `state.addresses` -/
abbrev Addresses := String → Option Address

/-- `addresses[key] = address` -/
def Addresses.set (addresses : Addresses) (key : String) (address : Address) : Addresses :=
  Function.update addresses key (some address)

/-- An argument of a constructor or of a method. -/
inductive Value
  | address (a : Address)
  | addresses (as : List Address)
  | bytes (b : List UInt8)
  | uint (n : ℕ)
  deriving DecidableEq, Repr

/-- `special` -/
inductive Special
  | safe
  | alias
  | wrapped
  deriving DecidableEq, Repr

/-- `Call`, as far as an action of a group has it: a call without a method is a creation. -/
structure Call where
  artifact : String
  args : Addresses → Except String (List Value)
  method : Option String
  target : Addresses → Except String Address
  output : Option String
  special : Option Special

/-- The group of a step. -/
structure Group where
  create : Bool
  executor : String
  actions : List Call
  finish : Bool

/-- `GroupOutput` -/
structure GroupOutput where
  key : String
  address : Address
  artifact : String
  index : ℕ
  initHash : Option Word
  factory : Option Address
  singleton : Option Address
  deriving DecidableEq, Repr

/-- `GroupReceipt` -/
structure GroupReceipt where
  executor : Address
  create : Bool
  sequence : ℕ
  finish : Bool
  actionsHash : Word
  outputs : List GroupOutput
  deriving DecidableEq, Repr

/-! ## What is used of viem and of the artifacts -/

structure Viem where
  keccak256 : List UInt8 → Word
  /-- `getContractAddress({ from, nonce })` -/
  getContractAddress : Address → ℕ → Address
  /-- `getContractAddress({ opcode: 'CREATE2', from, salt, bytecode })` -/
  getCreate2Address : Address → Word → List UInt8 → Address
  /-- `encodeDeployData`, with the abi and the bytecode of an artifact -/
  encodeDeployData : String → List Value → List UInt8
  /-- `encodeFunctionData`, with the abi of an artifact -/
  encodeFunctionData : String → String → List Value → List UInt8
  /-- the deployment of a `TreasuryBootstrap` by a wallet -/
  encodeBootstrap : Address → List Action → List UInt8
  /-- a call of `execute` -/
  encodeExecute : ℕ → List Action → Bool → List UInt8

/-- What the node answers about the executor and the factories. -/
structure Reads where
  transactionCount : Address → ℕ
  owner : Address → Address
  closed : Address → Bool
  sequence : Address → ℕ
  /-- whether the code is that of a `TreasuryBootstrap` -/
  runtimeMatches : Address → Bool
  /-- `proxyCreationCode()` of a factory -/
  proxyCreationCode : Address → List UInt8

/-! ## The actions of a batch, with the nonce counted along -/

/-- The actions so far and the nonce of the executor's next creation. -/
structure Draft where
  nextNonce : ℕ
  actions : List Action
  deriving DecidableEq, Repr

section Draft

variable (viem : Viem) (executor : Address)

/-- The account the next creation goes to. -/
def Draft.next (draft : Draft) : Address := viem.getContractAddress executor draft.nextNonce

/-- One more creation. -/
def Draft.deploy (draft : Draft) (data : List UInt8) : Draft :=
  ⟨draft.nextNonce + 1, draft.actions ++ [⟨true, draft.next viem executor, data, 0⟩]⟩

/-- One more call. -/
def Draft.call (draft : Draft) (target : Address) (data : List UInt8) (returnHash : Word) : Draft :=
  ⟨draft.nextNonce, draft.actions ++ [⟨false, target, data, returnHash⟩]⟩

end Draft

/-- How many of the actions create. -/
def creations (actions : List Action) : ℕ := actions.countP Action.create

/-- Each creation is meant for the account that an executor with nonce `n` creates there. -/
def Placed (viem : Viem) (executor : Address) (n : ℕ) (actions : List Action) : Prop :=
  ∀ i action, actions[i]? = some action → action.create = true →
    action.target = viem.getContractAddress executor (n + creations (actions.take i))

/-- A draft begun at nonce `n`. -/
structure Draft.Sound (viem : Viem) (executor : Address) (n : ℕ) (draft : Draft) : Prop where
  nonce : draft.nextNonce = n + creations draft.actions
  placed : Placed viem executor n draft.actions

section Sound

variable {viem : Viem} {executor : Address} {n : ℕ} {draft : Draft} {actions : List Action} {action : Action}

theorem creations_append (actions actions' : List Action) :
    creations (actions ++ actions') = creations actions + creations actions' :=
  List.countP_append

theorem Placed.append (h : Placed viem executor n actions) (hlast : action.create = true →
    action.target = viem.getContractAddress executor (n + creations actions)) :
    Placed viem executor n (actions ++ [action]) := by
  intro i a ha hcreate
  rw [List.getElem?_append] at ha
  split at ha
  next hi =>
    rw [List.take_append_of_le_length hi.le]
    exact h i a ha hcreate
  next hi =>
    rw [List.getElem?_singleton] at ha
    split at ha
    next hzero =>
      cases ha
      rw [hlast hcreate, List.take_append_of_le_length (by omega), List.take_of_length_le (by omega)]
    next => cases ha

theorem Draft.sound_nil (n : ℕ) : Draft.Sound viem executor n ⟨n, []⟩ where
  nonce := rfl
  placed i a ha := by simp at ha

theorem Draft.Sound.deploy (h : draft.Sound viem executor n) (data : List UInt8) :
    (draft.deploy viem executor data).Sound viem executor n where
  nonce := by
    rw [Draft.deploy, creations_append, h.nonce]
    rfl
  placed := h.placed.append fun _ ↦ by rw [Draft.next, h.nonce]

theorem Draft.Sound.call (h : draft.Sound viem executor n) (target : Address) (data : List UInt8)
    (returnHash : Word) : (draft.call target data returnHash).Sound viem executor n where
  nonce := by
    rw [Draft.call, creations_append, h.nonce]
    rfl
  placed := h.placed.append fun hcreate ↦ by cases hcreate

end Sound

/-! ## `materializeGroup` -/

def unavailableExecutor : String := "Deployment executor changed or already closed"
def missingProxyCode : String := "Missing pinned factory proxy creation code"

/-- What a cast of a missing or ill-formed value leads to; no plan of the journal has one. -/
def undefinedValue : String := "undefined"

/-- The loop's state: the addresses with those of the batch itself, and what was put together so far. -/
structure Assembly where
  addresses : Addresses
  draft : Draft
  outputs : List GroupOutput

/-- The call of a token whose result has to be `true`. -/
def Call.checksResult (call : Call) : Bool :=
  decide (call.artifact ∈ ["DevnetUSDC", "SharedTestUSDC", "ERC20"]) &&
    decide (call.method.getD "" ∈ ["transfer", "approve", "transferFrom"])

section Materialize

variable (viem : Viem) (reads : Reads) (executor : Address)

/-- `boolHash` -/
def boolHash : Word := viem.keccak256 (encodeWord 1)

/-- The account `createProxyWithNonce` of a Safe factory creates. -/
def safeAddress (factory singleton : Address) (initializer : List UInt8) (salt : ℕ) (proxyCode : List UInt8) :
    Address :=
  viem.getCreate2Address factory
    (viem.keccak256 (encodeWord (viem.keccak256 initializer).toNat ++ encodeWord salt))
    (proxyCode ++ encodeWord singleton.toNat)

/-- The creation code of a factory's proxies: the pinned one, if the batch deploys the factory itself. -/
def proxyCodeOf (pinned : Option (List UInt8)) (outputs : List GroupOutput) (target : Address) :
    Option (List UInt8) :=
  if outputs.any fun output ↦ decide (output.artifact = "SafeProxyFactory") && decide (output.address = target)
  then pinned else some (reads.proxyCreationCode target)

/-- The body of the loop over the actions. -/
def Assembly.add (pinned : Option (List UInt8)) (built : Assembly) (call : Call) : Except String Assembly := do
  let args ← call.args built.addresses
  match call.method with
  | none =>
    let data := viem.encodeDeployData call.artifact args
    let target := built.draft.next viem executor
    let key := call.output.getD undefinedValue
    return {
      addresses := built.addresses.set key target
      draft := built.draft.deploy viem executor data
      outputs := built.outputs ++ [{
        key, address := target, artifact := call.artifact, index := built.draft.actions.length
        initHash := some (viem.keccak256 data), factory := none, singleton := none }] }
  | some method =>
    let data := viem.encodeFunctionData call.artifact method args
    let target ← call.target built.addresses
    let draft := built.draft.call target data (if call.checksResult then boolHash viem else 0)
    if call.special = some .safe then
      match args with
      | [.address singleton, .bytes initializer, .uint salt] =>
        match proxyCodeOf reads pinned built.outputs target with
        | none => throw missingProxyCode
        | some proxyCode =>
          let address := safeAddress viem target singleton initializer salt proxyCode
          let key := call.output.getD undefinedValue
          return {
            addresses := built.addresses.set key address
            draft
            outputs := built.outputs ++ [{
              key, address, artifact := "SafeProxy", index := built.draft.actions.length
              initHash := none, factory := some target, singleton := some singleton }] }
      | _ => throw undefinedValue
    else return { built with draft }

/-- What `materializeGroup` returns. -/
structure Built where
  executor : Address
  sequence : ℕ
  actions : List Action
  outputs : List GroupOutput
  addresses : Addresses

/-- The part of the saved state that is read. -/
structure State where
  deployer : Address
  addresses : Addresses

/-- The executor of a group: the next one of the wallet, or the one that was recorded. -/
def executorOf (state : State) (group : Group) (nonce : Option ℕ) : Except String Address :=
  if group.create then
    match nonce with
    | some nonce => return viem.getContractAddress state.deployer nonce
    | none => throw undefinedValue
  else
    match state.addresses group.executor with
    | some executor => return executor
    | none => throw undefinedValue

/-- The nonce of the executor's first creation in the batch; a new account starts with 1. -/
def firstNonce (group : Group) : ℕ := if group.create then 1 else reads.transactionCount executor

/-- The sequence number the batch is meant for, with the checks of an executor that is there already. -/
def sequenceOf (state : State) (group : Group) : Except String ℕ :=
  if group.create then return 0
  else if reads.owner executor ≠ state.deployer ∨ reads.closed executor = true ∨
      reads.runtimeMatches executor = false then throw unavailableExecutor
  else return reads.sequence executor

end Materialize

/-- `materializeGroup` -/
def materializeGroup (viem : Viem) (reads : Reads) (pinned : Option (List UInt8)) (state : State) (group : Group)
    (nonce : Option ℕ) : Except String Built := do
  let executor ← executorOf viem state group nonce
  let sequence ← sequenceOf reads executor state group
  let built ← group.actions.foldlM (Assembly.add viem reads executor pinned)
    ⟨state.addresses.set group.executor executor, ⟨firstNonce reads executor group, []⟩, []⟩
  return ⟨executor, sequence, built.draft.actions, built.outputs, built.addresses⟩

/-! ## `encodeGroup` -/

def oversizedBatch : String := "Deployment batch exceeds the EVM creation size limit; preserve setup for review"

/-- What `encodeGroup` returns; `target` is `to`. -/
structure Encoded where
  data : List UInt8
  target : Option Address
  receipt : GroupReceipt

/-- The actions of the request, with the Safe's transaction as the last one, if the step has one. -/
def Built.batch (viem : Viem) (built : Built) (safeExecution : Option (Address × List UInt8)) : List Action :=
  match safeExecution with
  | none => built.actions
  | some (safe, data) => built.actions ++ [⟨false, safe, data, boolHash viem⟩]

def encodeGroup (viem : Viem) (state : State) (group : Group) (built : Built)
    (safeExecution : Option (Address × List UInt8)) : Except String Encoded :=
  let actions := built.batch viem safeExecution
  let receipt : GroupReceipt := {
    executor := built.executor
    create := group.create
    sequence := built.sequence
    finish := group.finish
    actionsHash := viem.keccak256 (encodeActions actions)
    outputs := built.outputs }
  if group.create then
    let data := viem.encodeBootstrap state.deployer actions
    if data.length > 49152 then throw oversizedBatch else return ⟨data, none, receipt⟩
  else return ⟨viem.encodeExecute built.sequence actions group.finish, some built.executor, receipt⟩

end Deployment
