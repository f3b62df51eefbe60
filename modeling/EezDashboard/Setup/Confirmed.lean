import EezDashboard.Codec.Except
import EezDashboard.Setup.Groups
import EezDashboard.Treasury.RuntimeCode

/-!
# Confirming a deployment batch

The part of `reconcile` that is about a batch: what the journal checks of a canonical, successful
transaction before it records the addresses of the outputs.  The executor is looked at first, then
each output, in order, with the code it has.

`Inclusion` is what the node answers about the block of the receipt.  Its logs are those the abis of
`TreasuryBootstrap` and of the Safe factories decode.
-/

set_option autoImplicit false

namespace Deployment

open Contract Bootstrap Js Treasury.RuntimeCode

/-! ## Reviewed code -/

/-- The two digits of a byte. -/
def byteDigits (b : UInt8) : List Char := [Nat.digitChar (b.toNat / 16), Nat.digitChar (b.toNat % 16)]

theorem isHexDigit_of_mem_byteDigits {b : UInt8} {c : Char} (h : c ∈ byteDigits b) : isHexDigit c = true := by
  have hlt : b.toNat < 256 := b.toNat_lt
  rw [byteDigits, List.mem_cons, List.mem_singleton] at h
  rcases h with rfl | rfl
  · exact isHexDigit_digitChar (by omega)
  · exact isHexDigit_digitChar (by omega)

/-- A code as `eth_getCode` answers it. -/
def codeText (code : List UInt8) : Hex where
  digits := code.flatMap byteDigits
  hex c hc := by
    obtain ⟨b, -, hb⟩ := List.mem_flatMap.1 hc
    exact isHexDigit_of_mem_byteDigits hb

/-- `text.toLowerCase()` -/
def lower (text : List Char) : List Char := text.map Char.toLower

/-- `/^a[1-9a-f]/i.test(text)` -/
def opensMetadata : List Char → Bool
  | a :: d :: _ => (a = 'a' || a = 'A') && isHexDigit d && d ≠ '0'
  | _ => false

/-- `executableCode`: without the metadata of the compiler, if it ends with them. -/
def executableCode (code : Hex) : List Char :=
  let bytes := (code.digits.length + 1) / 2
  if bytes < 3 then code.text
  else
    let length := hexValue (sliceFrom code.text (-4))
    let start : ℤ := bytes - length - 2
    if length < 4 ∨ start ≤ 0 ∨ lower (slice code.text (2 + start * 2 - 2) (2 + start * 2)) ≠ ['f', 'e'] then
      code.text
    else if opensMetadata (sliceFrom code.text (2 + start * 2)) = false then code.text
    else slice code.text 0 (2 + start * 2)

/-- `matchingSafeCode` -/
def matchingSafeCode (code expected : Hex) : Bool :=
  decide (code.text ≠ ['0', 'x']) && decide (lower (executableCode code) = lower (executableCode expected))

/-- `artifacts.contracts` -/
abbrev Artifacts := String → Artifact

/-- `runtimeMatches` -/
def Artifacts.runtimeMatches (artifacts : Artifacts) (code : List UInt8) (name : String) : Bool :=
  matchesRuntime (codeText code) (artifacts name)

/-- Whether the code of an output is the reviewed one. -/
def Artifacts.reviewed (artifacts : Artifacts) (code : List UInt8) (name : String) : Bool :=
  if name = "SafeProxy" then matchingSafeCode (codeText code) (artifacts "SafeProxy").runtime
  else artifacts.runtimeMatches code name

/-! ## What is found -/

/-- A log that one of the abis decodes. -/
inductive Log
  | bootstrap (address : Address) (event : Event)
  | proxyCreation (address proxy singleton : Address)
  deriving DecidableEq, Repr

/-- What the node answers about the transaction, and about the executor and the outputs in its block. -/
structure Inclusion where
  contractAddress : Option Address
  logs : List Log
  code : Address → List UInt8
  owner : Address
  closed : Bool
  sequence : ℕ

/-- The part of `DeploymentPending` that is read. -/
structure Pending where
  sender : Address
  nonce : ℕ
  target : Option Address
  group : GroupReceipt

/-! ## The checks -/

def missingIdentity : String := "Missing deployment batch identity"
def unexpectedExecutor : String := "Unexpected deployment executor address"
def executorMismatch : String := "Deployment executor mismatch"
def missingExecution : String := "Missing matching deployment batch execution"
def executorStateMismatch : String := "Deployment executor state mismatch"
def missingOutputs : String := "Missing or duplicate batch outputs"
def unexpectedOutput : String := "Unexpected batch output"
def missingCreation : String := "Missing matching contract creation"
def invalidSafeOutput : String := "Invalid Safe batch output"
def missingSafeCreation : String := "Missing matching Safe creation"
def bytecodeMismatch : String := "Batch contract bytecode mismatch"

/-- The artifact an action's output is of. -/
def Call.outputArtifact (call : Call) : String :=
  if call.special = some .safe then "SafeProxy" else call.artifact

/-- Whether an action is to have an output among those of the batch. -/
def Call.expected (call : Call) : Bool :=
  decide (call.output.getD "" ≠ "") && decide (call.special ≠ some .wrapped)

/-- What says that an output was created. -/
def checkCreated (executor : Address) (logs : List Log) (output : GroupOutput) : Except String Unit :=
  match output.initHash with
  | some initHash =>
    raiseIf (Log.bootstrap executor (.created output.index output.address initHash) ∉ logs) missingCreation
  | none =>
    match output.factory, output.singleton with
    | some factory, some singleton => do
      raiseIf (output.artifact ≠ "SafeProxy") invalidSafeOutput
      raiseIf (Log.proxyCreation factory output.address singleton ∉ logs) missingSafeCreation
    | _, _ => throw invalidSafeOutput

/-- The body of the loop over the outputs. -/
def confirmOutput (artifacts : Artifacts) (group : Group) (executor : Address) (found : Inclusion)
    (addresses : Addresses) (output : GroupOutput) : Except String Addresses := do
  let expected := group.actions[output.index]?
  raiseIf (expected.bind Call.output ≠ some output.key ∨
    expected.map Call.outputArtifact ≠ some output.artifact) unexpectedOutput
  checkCreated executor found.logs output
  raiseIf (artifacts.reviewed (found.code output.address) output.artifact = false) bytecodeMismatch
  return addresses.set output.key output.address

/-- What is checked of the executor's address. -/
def checkExecutor (viem : Viem) (state : State) (group : Group) (pending : Pending) (found : Inclusion) :
    Except String Unit :=
  let executor := pending.group.executor
  if pending.group.create then
    raiseIf (found.contractAddress ≠ some executor ∨
      executor ≠ viem.getContractAddress pending.sender pending.nonce) unexpectedExecutor
  else
    raiseIf (pending.target ≠ some executor ∨ state.addresses group.executor ≠ some executor) executorMismatch

/-- The part of `reconcile` that is about a batch, as far as the loop over the outputs. -/
def confirmGroup (viem : Viem) (artifacts : Artifacts) (state : State) (group : Group) (pending : Pending)
    (found : Inclusion) : Except String Addresses := do
  let receipt := pending.group
  raiseIf (receipt.create ≠ group.create ∨ receipt.finish ≠ group.finish) missingIdentity
  checkExecutor viem state group pending found
  raiseIf (Log.bootstrap receipt.executor (.executed receipt.sequence receipt.actionsHash group.finish) ∉
    found.logs) missingExecution
  raiseIf (artifacts.runtimeMatches (found.code receipt.executor) "TreasuryBootstrap" = false ∨
    found.owner ≠ state.deployer ∨ found.closed ≠ group.finish ∨ found.sequence ≠ receipt.sequence + 1)
    executorStateMismatch
  let expectedOutputs := group.actions.filter Call.expected
  raiseIf (receipt.outputs.length ≠ expectedOutputs.length ∨
    (receipt.outputs.map GroupOutput.key).dedup.length ≠ expectedOutputs.length) missingOutputs
  receipt.outputs.foldlM (confirmOutput artifacts group receipt.executor found)
    (state.addresses.set group.executor receipt.executor)

/-! ## When it accepts -/

/-- An output that is accepted. -/
structure GroupOutput.Accepted (artifacts : Artifacts) (group : Group) (executor : Address) (found : Inclusion)
    (o : GroupOutput) : Prop where
  planned : ∃ call, group.actions[o.index]? = some call ∧ call.output = some o.key ∧
    call.outputArtifact = o.artifact
  created : ∀ hash, o.initHash = some hash →
    Log.bootstrap executor (.created o.index o.address hash) ∈ found.logs
  safe : o.initHash = none → o.artifact = "SafeProxy" ∧ ∃ factory singleton, o.factory = some factory ∧
    o.singleton = some singleton ∧ Log.proxyCreation factory o.address singleton ∈ found.logs
  code : artifacts.reviewed (found.code o.address) o.artifact = true

section Accepted

variable {viem : Viem} {artifacts : Artifacts} {state : State} {group : Group} {pending : Pending}
  {found : Inclusion} {executor : Address} {addresses addresses' : Addresses} {o : GroupOutput}
  {outputs : List GroupOutput}

theorem checkCreated_eq_ok {logs : List Log} {u : Unit} : checkCreated executor logs o = .ok u ↔
    (∀ hash, o.initHash = some hash → Log.bootstrap executor (.created o.index o.address hash) ∈ logs) ∧
      (o.initHash = none → o.artifact = "SafeProxy" ∧ ∃ factory singleton, o.factory = some factory ∧
        o.singleton = some singleton ∧ Log.proxyCreation factory o.address singleton ∈ logs) := by
  rw [checkCreated]
  split
  next hash hhash => simp [hhash]
  next hnone =>
    split
    next factory singleton hfactory hsingleton =>
      simp [Except.bind_eq_ok, hnone, hfactory, hsingleton]
    next hmissing =>
      refine iff_of_false Except.throw_ne_ok ?_
      rintro ⟨-, h⟩
      obtain ⟨-, factory, singleton, hfactory, hsingleton, -⟩ := h hnone
      exact hmissing factory singleton hfactory hsingleton

theorem confirmOutput_eq_ok :
    confirmOutput artifacts group executor found addresses o = .ok addresses' ↔
      o.Accepted artifacts group executor found ∧ addresses' = addresses.set o.key o.address := by
  simp only [confirmOutput, Except.bind_eq_ok, raiseIf_eq_ok, checkCreated_eq_ok, Except.pure_eq_ok, not_or,
    not_not, Bool.not_eq_false]
  constructor
  · rintro ⟨_, ⟨hkey, hartifact⟩, _, ⟨hcreated, hsafe⟩, _, hcode, rfl⟩
    obtain ⟨call, hcall, houtput⟩ := Option.bind_eq_some_iff.1 hkey
    rw [hcall, Option.map_some, Option.some_inj] at hartifact
    exact ⟨⟨⟨call, hcall, houtput, hartifact⟩, hcreated, hsafe, hcode⟩, rfl⟩
  · rintro ⟨⟨⟨call, hcall, houtput, hartifact⟩, hcreated, hsafe, hcode⟩, rfl⟩
    refine ⟨⟨⟩, ⟨?_, ?_⟩, ⟨⟩, ⟨hcreated, hsafe⟩, ⟨⟩, hcode, rfl⟩
    · rw [hcall, Option.bind_some, houtput]
    · rw [hcall, Option.map_some, hartifact]

/-- The loop accepts the outputs it accepts one by one, and records them in order. -/
theorem foldlM_confirmOutput_eq_ok :
    outputs.foldlM (confirmOutput artifacts group executor found) addresses = .ok addresses' ↔
      (∀ o ∈ outputs, o.Accepted artifacts group executor found) ∧
        addresses' = outputs.foldl (fun a o ↦ a.set o.key o.address) addresses := by
  induction outputs generalizing addresses with
  | nil =>
    rw [List.foldlM_nil, Except.pure_eq_ok]
    simp [eq_comm]
  | cons o outputs ih =>
    simp only [List.foldlM_cons, Except.bind_eq_ok, confirmOutput_eq_ok, ih, List.forall_mem_cons, List.foldl_cons]
    constructor
    · rintro ⟨_, ⟨ho, rfl⟩, houtputs, rfl⟩
      exact ⟨⟨ho, houtputs⟩, rfl⟩
    · rintro ⟨⟨ho, houtputs⟩, rfl⟩
      exact ⟨_, ⟨ho, rfl⟩, houtputs, rfl⟩

theorem checkExecutor_eq_ok {u : Unit} : checkExecutor viem state group pending found = .ok u ↔
    if pending.group.create = true then
      found.contractAddress = some pending.group.executor ∧
        pending.group.executor = viem.getContractAddress pending.sender pending.nonce
    else pending.target = some pending.group.executor ∧
      state.addresses group.executor = some pending.group.executor := by
  rw [checkExecutor]
  split <;> rw [raiseIf_eq_ok, not_or, not_not, not_not]

/-- What a batch is confirmed for, and what is recorded then. -/
theorem confirmGroup_eq_ok : confirmGroup viem artifacts state group pending found = .ok addresses ↔
    (pending.group.create = group.create ∧ pending.group.finish = group.finish) ∧
    checkExecutor viem state group pending found = .ok () ∧
    Log.bootstrap pending.group.executor
      (.executed pending.group.sequence pending.group.actionsHash group.finish) ∈ found.logs ∧
    (artifacts.runtimeMatches (found.code pending.group.executor) "TreasuryBootstrap" = true ∧
      found.owner = state.deployer ∧ found.closed = group.finish ∧
      found.sequence = pending.group.sequence + 1) ∧
    (pending.group.outputs.length = (group.actions.filter Call.expected).length ∧
      (pending.group.outputs.map GroupOutput.key).dedup.length = (group.actions.filter Call.expected).length) ∧
    (∀ o ∈ pending.group.outputs, o.Accepted artifacts group pending.group.executor found) ∧
    addresses = pending.group.outputs.foldl (fun a o ↦ a.set o.key o.address)
      (state.addresses.set group.executor pending.group.executor) := by
  simp only [confirmGroup, Except.bind_eq_ok, raiseIf_eq_ok, foldlM_confirmOutput_eq_ok, not_or, not_not,
    Bool.not_eq_false]
  constructor
  · rintro ⟨_, hidentity, _, hexecutor, _, hexecuted, _, hstate, _, houtputs, haccepted, hrecorded⟩
    exact ⟨hidentity, hexecutor, hexecuted, hstate, houtputs, haccepted, hrecorded⟩
  · rintro ⟨hidentity, hexecutor, hexecuted, hstate, houtputs, haccepted, hrecorded⟩
    exact ⟨⟨⟩, hidentity, ⟨⟩, hexecutor, ⟨⟩, hexecuted, ⟨⟩, hstate, ⟨⟩, houtputs, haccepted, hrecorded⟩

end Accepted

end Deployment
