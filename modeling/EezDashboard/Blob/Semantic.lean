import EezDashboard.Blob.Operations

/-!
# The native blob stream

`decode_native_blobs` of `src/monitor/blob_decoder.py`.  The bytes of the blobs are one stream: a
version, one `ChainOperation`, and then messages until `CloseBlobStream`, which zeros follow to the
end.  The messages between are the cross-chain transactions of the batch, each an `Initiate`, calls
and returns, snapshots and reverts, and a `Finish`.

One loop reads them all.  What it keeps is the `State` of this file, with the source's three stacks
in it, the top of a stack being the head of its list; `current` is the transaction being read.
There is one definition for each branch of the loop, which checks, reads the fields of its message
and updates the state in the order of the source.
-/

set_option autoImplicit false

open Codec

namespace BlobDecoder

/-! ## What is recorded -/

inductive MessageType
  | chainOperation | closeBlobStream | initiate | call | staticCall | returnSuccess | returnFail
  | snapshot | revert | finish
  deriving DecidableEq, Repr

/-- The two messages that start a call. -/
inductive Mode
  | call | staticCall
  deriving DecidableEq, Repr

/-- The two messages that end one. -/
inductive Outcome
  | returnSuccess | returnFail
  deriving DecidableEq, Repr

structure CallResult where
  outcome : Outcome
  returnDataBytes : ℕ
  returnDataPreview : String
  deriving DecidableEq, Repr

/-- What a call message becomes: the record of the call without what later messages add. -/
structure CallRequest where
  index : ℕ
  parentIndex : Option ℕ
  depth : ℕ
  mode : Mode
  fromChain : ℕ
  toChain : ℕ
  fromAddress : String
  toAddress : String
  value : String
  gas : ℕ
  dataBytes : ℕ
  dataPreview : String
  deriving DecidableEq, Repr

structure SemanticCall extends CallRequest where
  result : Option CallResult := none
  rollbackRegion : Option ℕ := none
  forcedRollback : Bool := false
  rollbackSpan : Option ℕ := none
  deriving DecidableEq, Repr

/-- The record of a call that has just been made. -/
def CallRequest.opened (request : CallRequest) : SemanticCall where
  toCallRequest := request

structure RollbackRegion where
  index : ℕ
  firstCallIndex : ℕ
  lastCallIndex : ℕ
  callCount : ℕ
  contextDepth : ℕ
  deriving DecidableEq, Repr

structure Snapshot where
  contextDepth : ℕ
  callDepth : ℕ
  firstCallIndex : ℕ
  deriving DecidableEq, Repr

/-- An entry of `semanticMessages`. -/
inductive SemanticMessage
  | initiate (chainId txDataBytes : ℕ) (txDataPreview : String)
  | call (request : CallRequest)
  | ret (result : CallResult) (callIndex : ℕ)
  | snapshot (snapshot : Snapshot)
  | revert (region : RollbackRegion)
  | finish
  deriving DecidableEq, Repr

/-- `current`: a transaction that is being read. -/
structure SemanticTransaction where
  originChain : ℕ
  txDataBytes : ℕ
  txDataPreview : String
  calls : List SemanticCall := []
  messages : List SemanticMessage := []
  snapshotCount : ℕ := 0
  rollbackRegions : List RollbackRegion := []
  maxCallDepth : ℕ := 0
  deriving DecidableEq, Repr

/-- A transaction with the totals that `Finish` adds. -/
structure FinishedTransaction extends SemanticTransaction where
  callCount : ℕ
  mutableCallCount : ℕ
  staticCallCount : ℕ
  successReturnCount : ℕ
  failedReturnCount : ℕ
  rollbackRegionCount : ℕ
  forcedRollbackCallCount : ℕ
  deriving DecidableEq, Repr

/-- The variables of the loop. -/
structure State where
  contexts : List ℕ := []
  openCalls : List ℕ := []
  snapshots : List Snapshot := []
  current : Option SemanticTransaction := none
  messages : List MessageType := []
  semanticMessages : List SemanticMessage := []
  semanticTransactions : List FinishedTransaction := []
  deriving DecidableEq, Repr

/-! ## The messages of a transaction -/

/-- A message is listed three times: in the transaction, and among all messages by name and in
full. -/
def State.record (st : State) (type : MessageType) (message : SemanticMessage)
    (current : SemanticTransaction) : State :=
  { st with
    current := some { current with messages := current.messages ++ [message] }
    messages := st.messages ++ [type]
    semanticMessages := st.semanticMessages ++ [message] }

/-- The state after `InitiateCrossChainTransaction`. -/
def State.initiate (st : State) (origin : ℕ) (txData : Bytes) : State :=
  { st with contexts := origin :: st.contexts }.record .initiate
    (.initiate origin txData.length (preview txData))
    { originChain := origin, txDataBytes := txData.length, txDataPreview := preview txData }

def onInitiate (stream : Bytes) (position : ℕ) (st : State) : Decoded (State × ℕ) := do
  raiseIf (st.current ≠ none ∨ st.contexts ≠ []) "cross-chain transactions cannot nest"
  let (rawOrigin, position) ← fixed stream position 8 "transaction chain id"
  let origin := ofLittle rawOrigin
  let (txData, position) ← messageBytes stream position "transaction tx_data"
  return (st.initiate origin txData, position)

/-- The fields of a call message. -/
structure CallFields where
  mode : Mode
  target : ℕ
  fromAddress : Bytes
  toAddress : Bytes
  value : ℕ
  gas : ℕ
  data : Bytes

/-- The record of a call that is about to be opened. -/
def State.request (st : State) (current : SemanticTransaction) (call : CallFields) :
    CallRequest where
  index := current.calls.length
  parentIndex := st.openCalls.head?
  depth := st.openCalls.length
  mode := call.mode
  fromChain := st.contexts.headD 0
  toChain := call.target
  fromAddress := "0x" ++ hex call.fromAddress
  toAddress := "0x" ++ hex call.toAddress
  value := toString call.value
  gas := call.gas
  dataBytes := call.data.length
  dataPreview := preview call.data

def Mode.messageType : Mode → MessageType
  | .call => .call
  | .staticCall => .staticCall

/-- The state after `Call` or `StaticCall`. -/
def State.call (st : State) (current : SemanticTransaction) (call : CallFields) : State :=
  let request := st.request current call
  let openCalls := request.index :: st.openCalls
  { st with contexts := call.target :: st.contexts, openCalls := openCalls }.record
    call.mode.messageType (.call request)
    { current with
      calls := current.calls ++ [request.opened]
      maxCallDepth := max current.maxCallDepth openCalls.length }

/-- A static call has no value field. -/
def callValue (mode : Mode) (stream : Bytes) (position : ℕ) : Decoded (ℕ × ℕ) :=
  match mode with
  | .staticCall => return (0, position)
  | .call => do
    let (rawValue, position) ← fixed stream position 32 "Call value"
    return (ofLittle rawValue, position)

def onCall (mode : Mode) (stream : Bytes) (position : ℕ) (st : State) :
    Decoded (State × ℕ) :=
  match st.current with
  | none => throw "Call appears outside a cross-chain transaction"
  | some current => do
    raiseIf (st.contexts = []) "Call appears outside a cross-chain transaction"
    raiseIf (st.contexts.length ≥ 64) "maximum call depth 64 exceeded"
    let (rawTarget, position) ← fixed stream position 8 "Call to_chain"
    let (rawFrom, position) ← fixed stream position 20 "Call from_address"
    let (rawTo, position) ← fixed stream position 20 "Call to_address"
    let (value, position) ← callValue mode stream position
    let (rawGas, position) ← fixed stream position 8 "Call gas"
    let gas := ofLittle rawGas
    raiseIf (gas ≠ 0) s!"semantic call gas {gas} is unsupported; expected zero"
    let (data, position) ← messageBytes stream position "Call data"
    return (st.call current {
      mode := mode
      target := ofLittle rawTarget
      fromAddress := rawFrom
      toAddress := rawTo
      value := value
      gas := gas
      data := data }, position)

/-- The fields of a return message. -/
structure ReturnFields where
  outcome : Outcome
  data : Bytes

def ReturnFields.result (ret : ReturnFields) : CallResult where
  outcome := ret.outcome
  returnDataBytes := ret.data.length
  returnDataPreview := preview ret.data

def Outcome.messageType : Outcome → MessageType
  | .returnSuccess => .returnSuccess
  | .returnFail => .returnFail

/-- The state after a return: the innermost open call has its result. -/
def State.ret (st : State) (current : SemanticTransaction) (ret : ReturnFields) : State :=
  let callIndex := st.openCalls.headD 0
  { st with contexts := st.contexts.tail, openCalls := st.openCalls.tail }.record
    ret.outcome.messageType (.ret ret.result callIndex)
    { current with
      calls := current.calls.modify callIndex fun call ↦ { call with result := some ret.result } }

def onReturn (outcome : Outcome) (stream : Bytes) (position : ℕ) (st : State) :
    Decoded (State × ℕ) :=
  match st.current with
  | none => throw "semantic return has no open Call"
  | some current => do
    raiseIf (st.openCalls = [] ∨ st.contexts.length < 2) "semantic return has no open Call"
    raiseIf (st.snapshots.head?.any fun snapshot ↦ snapshot.contextDepth = st.contexts.length)
      "semantic return crosses an open Snapshot"
    let (returnData, position) ← messageBytes stream position "return_data"
    return (st.ret current ⟨outcome, returnData⟩, position)

/-- What a snapshot taken now would say. -/
def State.snapshotHere (st : State) (current : SemanticTransaction) : Snapshot where
  contextDepth := st.contexts.length
  callDepth := st.openCalls.length
  firstCallIndex := current.calls.length

/-- The state after `Snapshot`. -/
def State.snapshot (st : State) (current : SemanticTransaction) : State :=
  let snapshot := st.snapshotHere current
  { st with snapshots := snapshot :: st.snapshots }.record .snapshot (.snapshot snapshot)
    { current with snapshotCount := current.snapshotCount + 1 }

def onSnapshot (st : State) : Decoded State :=
  match st.current with
  | none => throw "Snapshot appears outside a cross-chain transaction"
  | some current => do
    raiseIf (st.snapshots.length ≥ 64) "maximum snapshot depth 64 exceeded"
    return st.snapshot current

/-- A call that is found to have been rolled back. -/
def SemanticCall.rollBack (region : ℕ) (call : SemanticCall) : SemanticCall :=
  { call with rollbackRegion := some region, forcedRollback := true }

/-- The calls of a region, each of them rolled back and the first with the size of the region. -/
def rollBackCalls (region : ℕ) (calls : List SemanticCall) : List SemanticCall :=
  (calls.map (SemanticCall.rollBack region)).modifyHead fun call ↦
    { call with rollbackSpan := some calls.length }

def State.region (st : State) (current : SemanticTransaction) (snapshot : Snapshot) :
    RollbackRegion where
  index := current.rollbackRegions.length
  firstCallIndex := snapshot.firstCallIndex
  lastCallIndex := current.calls.length - 1
  callCount := current.calls.length - snapshot.firstCallIndex
  contextDepth := st.contexts.length

/-- The state after `Revert` to this snapshot. -/
def State.revert (st : State) (current : SemanticTransaction) (snapshot : Snapshot) : State :=
  let region := st.region current snapshot
  { st with snapshots := st.snapshots.tail }.record .revert (.revert region)
    { current with
      calls := current.calls.take snapshot.firstCallIndex ++
        rollBackCalls region.index (current.calls.drop snapshot.firstCallIndex)
      rollbackRegions := current.rollbackRegions ++ [region] }

def onRevert (st : State) : Decoded State :=
  match st.current, st.snapshots with
  | some current, snapshot :: _ => do
    raiseIf (snapshot.contextDepth ≠ st.contexts.length ∨
        snapshot.callDepth ≠ st.openCalls.length)
      "Revert crosses an open Call"
    raiseIf (current.calls.length - snapshot.firstCallIndex = 0)
      "Snapshot/Revert region contains no calls"
    raiseIf ((current.calls.drop snapshot.firstCallIndex).any fun call ↦
        call.rollbackRegion.isSome)
      "nested or overlapping Snapshot/Revert regions are unsupported"
    return st.revert current snapshot
  | _, _ => throw "Revert has no open Snapshot"

/-- The totals of a transaction. -/
def SemanticTransaction.finish (current : SemanticTransaction) : FinishedTransaction where
  toSemanticTransaction := { current with messages := current.messages ++ [.finish] }
  callCount := current.calls.length
  mutableCallCount := current.calls.countP fun call ↦ call.mode = .call
  staticCallCount := current.calls.countP fun call ↦ call.mode = .staticCall
  successReturnCount := current.calls.countP fun call ↦
    call.result.any fun result ↦ result.outcome = .returnSuccess
  failedReturnCount := current.calls.countP fun call ↦
    call.result.any fun result ↦ result.outcome = .returnFail
  rollbackRegionCount := current.rollbackRegions.length
  forcedRollbackCallCount := current.calls.countP fun call ↦ call.forcedRollback

/-- The state after `FinishCrossChainTransaction`. -/
def State.finish (st : State) (current : SemanticTransaction) : State :=
  { st with
    contexts := st.contexts.tail
    current := none
    messages := st.messages ++ [.finish]
    semanticMessages := st.semanticMessages ++ [.finish]
    semanticTransactions := st.semanticTransactions ++ [current.finish] }

def onFinish (st : State) : Decoded State :=
  match st.current with
  | none => throw "FinishCrossChainTransaction has no open transaction"
  | some current => do
    raiseIf (st.contexts.length ≠ 1 ∨ st.openCalls ≠ [])
      "FinishCrossChainTransaction has an open Call"
    raiseIf (st.snapshots ≠ []) "FinishCrossChainTransaction has an open Snapshot"
    raiseIf (current.calls = []) "cross-chain semantic transaction contains no calls"
    return st.finish current

/-! ## The stream -/

/-- One of the message types 3 to 10. -/
def onMessage (messageType : ℕ) (stream : Bytes) (position : ℕ) (st : State) :
    Decoded (State × ℕ) :=
  match messageType with
  | 3 => onInitiate stream position st
  | 4 => onCall .call stream position st
  | 5 => onCall .staticCall stream position st
  | 6 => onReturn .returnSuccess stream position st
  | 7 => onReturn .returnFail stream position st
  | 8 => return (← onSnapshot st, position)
  | 9 => return (← onRevert st, position)
  | 10 => return (← onFinish st, position)
  | _ => throw s!"unknown blob message type {messageType}"

/-- `CloseBlobStream`: nothing may be open. -/
def onClose (st : State) : Decoded State := do
  raiseIf (st.current ≠ none ∨ st.contexts ≠ [] ∨ st.openCalls ≠ [] ∨ st.snapshots ≠ [])
    "CloseBlobStream appears inside a semantic transaction"
  return { st with messages := st.messages ++ [.closeBlobStream] }

/-- The loop over the messages.  Every round takes a byte at least, so the length of the stream is
fuel enough. -/
def messageLoop (stream : Bytes) : ℕ → ℕ → State → Decoded (State × ℕ)
  | 0, _, _ => throw "CloseBlobStream is missing"
  | fuel + 1, position, st =>
    match stream[position]? with
    | none => throw "CloseBlobStream is missing"
    | some messageType => do
      let position := position + 1
      if messageType = 1 then return (← onClose st, position)
      else if messageType = 0 then throw "CloseBlobStream is missing before zero padding"
      else if messageType = 2 then throw "native profile contains an extra ChainOperation"
      else do
        let (st, position) ← onMessage messageType.toNat stream position st
        messageLoop stream fuel position st

/-- What `decode_native_blobs` returns, less its three constants. -/
structure NativeBlobs where
  blobCount : ℕ
  physicalBytes : ℕ
  logicalCapacityBytes : ℕ
  usedStreamBytes : ℕ
  paddingBytes : ℕ
  messages : List MessageType
  semanticMessages : List SemanticMessage
  semanticTransactions : List FinishedTransaction
  chainId : ℕ
  operations : Operations
  deriving DecidableEq, Repr

def decodeNativeBlobs (blobs : List Bytes) (expectedChainId : ℤ) : Decoded NativeBlobs := do
  let stream ← unpackBlobs blobs
  raiseIf (stream.head? ≠ some 0)
    ("unsupported blob protocol version " ++
      (stream.head?.map fun version ↦ toString version.toNat).getD "None")
  raiseIf (stream[1]? ≠ some 2) "native stream must start with ChainOperation"
  let (rawChainId, position) ← fixed stream 2 8 "ChainOperation chain id"
  let chainId := ofLittle rawChainId
  raiseIf ((chainId : ℤ) ≠ expectedChainId)
    s!"ChainOperation chain id {chainId} does not match rollup {expectedChainId}"
  let (operations, position) ← messageBytes stream position "ChainOperation payload"
  let (st, position) ← messageLoop stream stream.length position { messages := [.chainOperation] }
  raiseIf ((stream.drop position).any fun byte ↦ byte ≠ 0)
    "blob stream contains non-zero bytes after CloseBlobStream"
  let operations ← decodeOperations operations
  return {
    blobCount := blobs.length
    physicalBytes := blobs.length * blobBytes
    logicalCapacityBytes := stream.length
    usedStreamBytes := position
    paddingBytes := stream.length - position
    messages := st.messages
    semanticMessages := st.semanticMessages
    semanticTransactions := st.semanticTransactions
    chainId := chainId
    operations := operations }

end BlobDecoder
