import Mathlib
import EezDashboard.Flow.Frames

/-!
# Linking requests to dispatches

The part of `buildExecutionFlow` that decides which recorded dispatch on the other chain belongs to an
outgoing request.  Every request starts with the dispatches that match its arguments; what is unique is
linked, and the links narrow down what the others may be, until nothing changes.
-/

set_option autoImplicit false

namespace Flow

open Js

/-- What `buildExecutionFlow` is given, and what it computes first. -/
structure Input where
  viem : Viem
  config : Config
  timeline : Timeline
  evidence : List Evidence
  traces : String → Option CallTrace

/-- A dispatch on the receiving chain, with its recorded result. -/
structure Incoming where
  step : TimelineStep
  frame : Frame
  plan : Option EntryPlan
  call : Option Record
  target : String
  data : String

/-- One frame makes one record, so that the frame says which record it is. -/
def Incoming.key (record : Incoming) : FrameId := record.frame.id

inductive ResultEvidence
  | callerTrace
  | destinationReceipt
  deriving DecidableEq, Repr

structure CallResult where
  success : Bool
  data : String
  evidence : ResultEvidence
  deriving DecidableEq, Repr

structure Candidate where
  source : TimelineStep
  hashMatches : List Incoming
  matching : List Incoming
  result : Option CallResult

def TimelineStep.arg (step : TimelineStep) (name : String) : Option Value := step.event.args name

/-- `step.event.args.success === true` -/
def TimelineStep.succeeded (step : TimelineStep) : Bool := step.arg "success" = some (.bool true)

/-- `step.event.args.returnData ?? '0x'` -/
def TimelineStep.returnData (step : TimelineStep) : Value := (step.arg "returnData").getD (.text "0x")

/-- `Number(value)`, as an index -/
def index (a : Option Value) : Option ℕ :=
  match a with
  | some (.int n) => if 0 ≤ n then some n.toNat else none
  | some (.text s) => (bigInt s).bind fun n ↦ if 0 ≤ n then some n.toNat else none
  | some (.bool b) => some b.toNat
  | none => none

namespace Input

variable (c : Input)

/-- `scope`: the one plan whose rolling hash the next completion of the transaction has. -/
def scope (step : TimelineStep) : Option EntryPlan :=
  (c.timeline.steps.find? fun node ↦ node.tx.key = step.tx.key && decide (node.eventIndex ≥ step.eventIndex) &&
    node.event.name = "EntryExecuted").bind fun completion ↦
  match c.evidence.filter fun item ↦ item.plan.kind = .execution &&
    same item.plan.entry.rollingHash (completion.arg "rollingHash") &&
    (item.plan.tx.key = step.tx.key || item.observations.any fun tx ↦ tx.key = step.tx.key) with
  | [item] => some item.plan
  | _ => none

/-- `managers.has(address.toLowerCase())` -/
def manages (group : Group) (address : String) : Bool :=
  address.toLower = (c.config.managerAddress group.tx.chain).toLower ||
    group.steps.any fun step ↦ address.toLower = step.event.address.toLower

/-- The frames of a transaction before and after their calls, when it was traced. -/
def frames (group : Group) : List Frame × List Frame :=
  ((c.traces group.tx.key).map (traceFrames c.viem group.tx.key)).getD ([], [])

/-! ### Source frames -/

def outgoingOf (group : Group) : List TimelineStep :=
  group.steps.filter fun step ↦ step.event.name = "CrossChainCallExecuted"

/-- The frames that may have made a request. -/
def requestFrames (group : Group) : List Frame :=
  (c.frames group).1.filter fun frame ↦ frame.trace.type = "CALL" && !frame.static && !frame.rolledBack &&
    !frame.trace.failed && frame.method = "executeCrossChainCall" && c.manages group (frame.trace.to_.getD "")

/-- `matches` -/
def matchesFrame (frame : Frame) (step : TimelineStep) : Bool :=
  same (some (.text frame.trace.sender)) (step.arg "proxy") && same frame.args[0]? (step.arg "sourceAddress") &&
    same frame.args[1]? (step.arg "callData") && amount frame.trace.value = amount (step.arg "value")

/-- Two requests that the trace cannot tell apart. -/
def repeats (other step : TimelineStep) : Bool :=
  same (other.arg "proxy") (step.arg "proxy") && same (other.arg "sourceAddress") (step.arg "sourceAddress") &&
    same (other.arg "callData") (step.arg "callData") && amount (other.arg "value") = amount (step.arg "value")

/-- Repeated requests are told apart by their order, when as many frames match. -/
def locate (group : Group) (step : TimelineStep) : Option Frame :=
  let logs := (outgoingOf group).filter fun other ↦ repeats other step
  let matching := (c.requestFrames group).filter fun frame ↦ matchesFrame frame step
  if logs.length = matching.length then matching[logs.findIdx fun other ↦ other.id = step.id]? else none

/-- The requests of traced transactions with their frames. -/
def located : List (TimelineStep × Frame) :=
  c.timeline.groups.flatMap fun group ↦
    (outgoingOf group).filterMap fun step ↦ (c.locate group step).map fun frame ↦ (step, frame)

/-- `sourceFrames.get(id)` -/
def sourceFrame (id : Id) : Option Frame := (c.located.reverse.find? fun p ↦ p.1.id = id).map Prod.snd

/-- `frameSources.get(frame)` -/
def frameSource (frame : FrameId) : Option Id :=
  (c.located.reverse.find? fun p ↦ p.2.id = frame).map fun p ↦ p.1.id

/-! ### Dispatches -/

/-- The frames that dispatched an incoming call, in the order in which they returned. -/
def dispatches (group : Group) : List Frame :=
  (c.frames group).2.filter fun frame ↦ ["CALL", "STATICCALL"].contains frame.trace.type &&
    !frame.parentStatic && !frame.rolledBack && frame.method = "executeOnBehalf" &&
    c.manages group frame.trace.sender

def resultsOf (group : Group) : List TimelineStep :=
  group.steps.filter fun step ↦ step.event.name = "CallResult"

/-- The recorded results are those of the dispatches, one by one. -/
def consistent (group : Group) : Bool :=
  (resultsOf group).length = (c.dispatches group).length &&
    ((c.dispatches group).zip (resultsOf group)).all fun (frame, result) ↦
      same (some (.text (frame.trace.output.getD "0x"))) (some result.returnData) &&
        (!frame.trace.failed) == result.succeeded

/-- The planned calls that a dispatch may be. -/
def plannedCalls (group : Group) (frame : Frame) (step : TimelineStep) (plan : Option EntryPlan) : List Record :=
  let lists := (plan.map fun plan ↦ plan.entry.calls :: plan.entry.nested).getD []
  let ordinal := index ((step.arg "callNumber").or (step.arg "l2ToL1CallNumber"))
  let calls := lists.filterMap fun calls ↦ ordinal.bind fun n ↦ calls[n]?
  calls.filter fun call ↦ call "isStatic" ≠ some (.bool true) && same (call "targetAddress") frame.args[0]? &&
    same (call "data") frame.args[2]? && amount (call "gas") = amount frame.args[1]? &&
    amount (call "value") = amount frame.trace.value &&
    (call "sourceRollupId").all fun rollup ↦
      rollup.toText = if group.tx.chain = .l2 then "0" else c.config.rollupId.toText

def incomingOf (group : Group) : List Incoming :=
  if c.consistent group then
    ((c.dispatches group).zip (resultsOf group)).map fun (frame, step) ↦
      let plan := c.scope step
      { step := step
        frame := frame
        plan := plan
        call := match c.plannedCalls group frame step plan with
          | [call] => some call
          | _ => none
        target := textOr "undefined" frame.args[0]?
        data := textOr "undefined" frame.args[2]? }
  else []

def incoming : List Incoming :=
  c.timeline.groups.flatMap fun group ↦ if (c.traces group.tx.key).isSome then c.incomingOf group else []

/-- `incomingByFrame.get(frame)` -/
def incomingByFrame (frame : FrameId) : Option Incoming :=
  c.incoming.reverse.find? fun record ↦ record.key = frame

/-! ### Candidates -/

def outgoing : List TimelineStep :=
  c.timeline.steps.filter fun step ↦ step.event.name = "CrossChainCallExecuted"

/-- The hash the call of a record would have if the source had requested it. -/
def identity (source : TimelineStep) (record : Incoming) : Option String :=
  record.call.bind fun call ↦
    c.viem.callHash (textOr "undefined" (call "sourceAddress")) (amount (call "sourceRollupId")) record.target
      (if record.step.tx.chain = .l1 then 0 else amount (some c.config.rollupId)) (amount (call "value"))
      (amount (source.arg "callGas")) record.data

/-- What the caller's trace says the request returned. -/
def callerResult (source : TimelineStep) : Option CallResult :=
  (c.sourceFrame source.id).bind fun frame ↦
    (frame.trace.output.filter (· ≠ "")).bind fun output ↦
      (c.viem.decodeBytes output).map fun data ↦ ⟨!frame.trace.failed, data, .callerTrace⟩

/-- The dispatches a request may have led to. -/
def candidate (source : TimelineStep) : Candidate :=
  let records := c.incoming.filter fun record ↦
    record.step.tx.chain ≠ source.tx.chain && record.call.any fun call ↦
      same (call "sourceAddress") (source.arg "sourceAddress") &&
        same (some (.text record.data)) (source.arg "callData") &&
        amount (call "value") = amount (source.arg "value")
  let hashMatches := records.filter fun record ↦
    same (source.arg "crossChainCallHash") ((c.identity source record).map .text)
  { source := source
    hashMatches := hashMatches
    matching := if (records.any fun record ↦ (c.identity source record).isSome) ∧
        source.event.hash.any (· ≠ "") then hashMatches else records
    result := c.callerResult source }

/-! ### Narrowing -/

/-- A record has the result that the caller's trace shows. -/
def agrees (result : CallResult) (record : Incoming) : Bool :=
  result.success == record.step.succeeded && same (some (.text result.data)) (some record.step.returnData)

/-- In how many lists of candidates a record is. -/
def owners (candidates : List Candidate) (record : Incoming) : ℕ :=
  (candidates.flatMap fun candidate ↦ candidate.matching.map Incoming.key).count record.key

/-- Return bytes distinguish repeated invocations, but do not take away a unique match. -/
def disambiguate (candidates : List Candidate) : List Candidate :=
  candidates.map fun candidate ↦
    match candidate.result with
    | none => candidate
    | some result =>
      if candidate.matching.length > 1 ∨ candidate.matching.any fun record ↦ owners candidates record > 1 then
        { candidate with matching := candidate.matching.filter (agrees result) }
      else candidate

/-- `uniqueMatches`: a request with one candidate, which no other request has. -/
def uniqueMatches (candidates : List Candidate) : List (Id × Incoming) :=
  candidates.flatMap fun candidate ↦
    match candidate.matching with
    | [record] => if owners candidates record = 1 then [(candidate.source.id, record)] else []
    | _ => []

/-- `linked.get(id)` -/
def linkedRecord (linked : List (Id × Incoming)) (id : Id) : Option Incoming :=
  (linked.find? fun p ↦ p.1 = id).map Prod.snd

/-- `reverse.get(record)` -/
def linkedSource (linked : List (Id × Incoming)) (record : Incoming) : Option Id :=
  (linked.find? fun p ↦ p.2.key = record.key).map Prod.fst

/-- The dispatch a request was made in. -/
def sourceParent (id : Id) : Option Incoming :=
  frameAncestor ((c.sourceFrame id).map Frame.id) c.incomingByFrame

/-- The request a dispatch was made in. -/
def targetParent (record : Incoming) : Option Id := frameAncestor (some record.key) c.frameSource

/-- `parentAnchors.get(id)`: the dispatches that must be the request's own, as something linked was requested
in them and dispatched in it. -/
def anchors (linked : List (Id × Incoming)) (id : Id) : List Incoming :=
  linked.filterMap fun (source, record) ↦
    (c.sourceParent source).bind fun remoteParent ↦
      (c.targetParent record).bind fun localParent ↦ if localParent = id then some remoteParent else none

/-- Whether a record stays among the candidates of a request. -/
def keep (linked : List (Id × Incoming)) (id : Id) (record : Incoming) : Bool :=
  let sourceParent := c.sourceParent id
  let boundParent := sourceParent.bind (linkedSource linked)
  let anchors := (c.anchors linked id).map Incoming.key
  let targetParent := c.targetParent record
  let boundDispatch := targetParent.bind (linkedRecord linked)
  if anchors ≠ [] ∧ (anchors.dedup.length ≠ 1 ∨ record.key ∉ anchors) then false
  else if boundParent.isSome ∧ targetParent.isSome ∧ boundParent ≠ targetParent then false
  else sourceParent.isNone || boundDispatch.isNone ||
    boundDispatch.map Incoming.key = sourceParent.map Incoming.key

/-- One round of the loop: all candidates are filtered by what is linked at its start. -/
def round (candidates : List Candidate) : List Candidate :=
  candidates.map fun candidate ↦
    { candidate with
      matching := candidate.matching.filter (c.keep (uniqueMatches candidates) candidate.source.id) }

/-- How much a loop can still take away. -/
def total (candidates : List Candidate) : ℕ :=
  (candidates.map fun candidate ↦ candidate.matching.length).sum

/-- `while (changed)`; every round that changes anything takes something away. -/
def narrow (candidates : List Candidate) : List Candidate := c.round^[total candidates] candidates

def initial : List Candidate := disambiguate (c.outgoing.map c.candidate)

def candidates : List Candidate := c.narrow c.initial

/-- The links that are reported. -/
def linked : List (Id × Incoming) := uniqueMatches c.candidates

end Input

end Flow
