import Mathlib.Data.List.Infix
import Mathlib.Data.List.Nodup
import Mathlib.Tactic.Common

/-!
# Physical frames

The trace decoder is handed transactions with their call traces and flattens every trace into frames:
`walk`, which also keeps track of the execution table that is loaded while a frame runs.  A frame is
named by its chain, its transaction and the path that leads to it, so that the name of a frame's parent
is known from its own.

Hexadecimal text is compared without regard to letter case, so it is modelled by the bytes it spells.
-/

set_option autoImplicit false

namespace TraceDecoder

/-- Addresses, hashes and calldata. -/
abbrev Hex := List UInt8

inductive Chain
  | l1
  | l2
  deriving DecidableEq, Repr

/-- `same` -/
def same (a b : Option Hex) : Bool := a.isSome && a == b

@[simp] theorem same_some (a b : Hex) : same (some a) (some b) = true ↔ a = b := by
  simp [same]

/-! ## Traces -/

inductive CallType
  | call
  | staticCall
  | delegateCall
  | callCode
  | create
  deriving DecidableEq, Repr

/-- `['DELEGATECALL', 'CALLCODE'].includes(type)` -/
def CallType.delegate : CallType → Bool
  | .delegateCall | .callCode => true
  | .call | .staticCall | .create => false

/-- One call of a trace, as the node reports it. -/
inductive RawCall
  | mk (type : CallType) (sender target : Option Hex) (input output : Hex) (value : ℕ)
      (error : Option String) (calls : List RawCall)

/-- A transaction with its receipt's status and its trace, when there is one. -/
structure Transaction where
  chain : Chain
  hash : Hex
  blockNumber : ℕ
  transactionIndex : ℕ
  target : Option Hex
  input : Hex
  /-- the receipt's status, when there is a receipt -/
  status : Option ℕ
  trace : Option RawCall

/-! ## Frames -/

/-- The name of a frame: the path is written with the innermost index first. -/
structure FrameId where
  chain : Chain
  hash : Hex
  path : List ℕ
  deriving DecidableEq, Repr

/-- The table a frame runs under: loaded by a frame, or read off a transaction's calldata. -/
inductive TableId
  | frame (id : FrameId)
  | calldata (chain : Chain) (hash : Hex)
  deriving DecidableEq, Repr

/-- `table.transactionHash` -/
def TableId.transactionHash : TableId → Hex
  | .frame id => id.hash
  | .calldata _ hash => hash

/-- A frame. -/
structure Frame where
  id : FrameId
  blockNumber : ℕ
  transactionIndex : ℕ
  children : List FrameId
  type : CallType
  sender : Option Hex
  target : Option Hex
  contextAddress : Option Hex
  input : Hex
  output : Hex
  value : ℕ
  error : Option String
  isStatic : Bool
  /-- `role === 'manager'` -/
  isManager : Bool
  generationId : Option TableId
  deriving DecidableEq, Repr

/-- `!!frame.error` -/
def Frame.failed (f : Frame) : Bool := f.error.any (· ≠ "")

/-- The methods of a manager the decoder knows. -/
inductive ManagerMethod
  | executeCrossChainCall
  | staticCrossChainCall
  | postAndVerifyBatch
  | loadExecutionTable
  | executeIncomingCrossChainCall
  | other
  deriving DecidableEq, Repr

/-- `outgoingNames` -/
def ManagerMethod.outgoing : ManagerMethod → Bool
  | .executeCrossChainCall | .staticCrossChainCall => true
  | _ => false

/-- `loadNames` -/
def ManagerMethod.loads : ManagerMethod → Bool
  | .postAndVerifyBatch | .loadExecutionTable | .executeIncomingCrossChainCall => true
  | _ => false

/-- A call of a manager: the method, and its first two arguments where it is a request. -/
structure ManagerCall where
  method : ManagerMethod
  sourceAddress : Hex
  data : Hex
  deriving DecidableEq, Repr

/-- What the walk needs to know of a chain: its manager, and how the manager's calldata is parsed. -/
structure Protocol where
  managers : Chain → Option Hex
  parseManager : Chain → Hex → Option ManagerCall

section Walk

variable (protocol : Protocol)

/-- `parse.get(frame.id)`: only calls of the manager are parsed. -/
def Protocol.parse (f : Frame) : Option ManagerCall :=
  if f.isManager then protocol.parseManager f.id.chain f.input else none

/-- A raw call as a frame, entered while the table `state` is loaded. -/
def frameOf (tx : Transaction) (parent : Option Frame) (path : List ℕ)
    (staticContext : Bool) (state : Option TableId) (raw : RawCall) : Frame :=
  match raw with
  | .mk type sender target input output value error calls =>
    let contextAddress := if type.delegate then parent.bind Frame.contextAddress else target
    { id := ⟨tx.chain, tx.hash, path⟩
      blockNumber := tx.blockNumber
      transactionIndex := tx.transactionIndex
      children := (List.range calls.length).map fun i ↦ ⟨tx.chain, tx.hash, i :: path⟩
      type := type
      sender := sender
      target := target
      contextAddress := contextAddress
      input := input
      output := output
      value := value
      error := error
      isStatic := staticContext || type == .staticCall
      isManager := same contextAddress (protocol.managers tx.chain)
      generationId := state }

/-- Whether a frame loads a table.  A delegatecall uses the caller's storage, so one that repeats its
parent's call is not a second load. -/
def loadsTable (parent : Option Frame) (f : Frame) : Bool :=
  ((protocol.parse f).any fun c ↦ c.method.loads) &&
    !(f.type.delegate && parent.any fun p ↦ p.isManager && p.input == f.input)

/-- The frame a raw call becomes: it runs under the table it loads. -/
def enter (tx : Transaction) (parent : Option Frame) (path : List ℕ) (staticContext : Bool)
    (state : Option TableId) (raw : RawCall) : Frame :=
  let f := frameOf protocol tx parent path staticContext state raw
  if loadsTable protocol parent f then { f with generationId := some (.frame f.id) } else f

mutual

/-- The frames of a call and of everything below it, and the table loaded afterwards. -/
def walk (tx : Transaction) (parent : Option Frame) (path : List ℕ) (staticContext : Bool)
    (state : Option TableId) : RawCall → List Frame × Option TableId
  | .mk type sender target input output value error calls =>
    let f := enter protocol tx parent path staticContext state
      (.mk type sender target input output value error calls)
    let r := walkAll tx f 0 f.generationId calls
    (f :: r.1, if error.any (· ≠ "") then state else r.2)

/-- The calls of a frame, from the `i`-th on. -/
def walkAll (tx : Transaction) (parent : Frame) (i : ℕ) (state : Option TableId) :
    List RawCall → List Frame × Option TableId
  | [] => ([], state)
  | raw :: calls =>
    let r := walk tx (some parent) (i :: parent.id.path) parent.isStatic state raw
    let r' := walkAll tx parent (i + 1) r.2 calls
    (r.1 ++ r'.1, r'.2)

end

/-- The frames of a transaction.  A transaction without a trace has none, but its calldata can still
load a table. -/
def framesOf (state : Option TableId) (tx : Transaction) : List Frame × Option TableId :=
  match tx.trace with
  | some raw => walk protocol tx none [0] false state raw
  | none =>
    if same tx.target (protocol.managers tx.chain) &&
        ((protocol.parseManager tx.chain tx.input).any fun c ↦ c.method.loads) &&
        tx.status == some 1 then ([], some (.calldata tx.chain tx.hash))
    else ([], state)

/-- The frames of all transactions; tables carry over within a block. -/
def allFrames (blockState : Chain × ℕ → Option TableId) : List Transaction → List Frame
  | [] => []
  | tx :: txs =>
    let r := framesOf protocol (blockState (tx.chain, tx.blockNumber)) tx
    r.1 ++ allFrames (Function.update blockState (tx.chain, tx.blockNumber) r.2) txs

end Walk

end TraceDecoder
