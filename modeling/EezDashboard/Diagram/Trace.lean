import EezDashboard.Trace.Frames

/-!
# What a diagram is made of

The frames and the requests of a decoder result, as the diagram reads them.  The name of a frame is given by its
parts, chain, transaction and path.
-/

set_option autoImplicit false

namespace Diagram

open TraceDecoder (Chain CallType)

structure FrameId where
  chain : Chain
  hash : String
  path : List ℕ
  deriving DecidableEq, Repr

structure Frame where
  id : FrameId
  parentId : Option FrameId
  type : CallType
  input : String
  transactionHash : String
  /-- What `BigInt` makes of it. -/
  gasUsed : Option ℤ
  deriving DecidableEq, Repr

/-- `new Map(trace.frames.map(f => [f.id, f]))` -/
def getFrame (frames : List Frame) (id : FrameId) : Option Frame := frames.reverse.find? fun f ↦ f.id = id

inductive RequestStatus
  | matched
  | ambiguous
  | unresolved
  | preparedResult
  deriving DecidableEq, Repr

/-- A request for a call on the other chain. -/
structure Outgoing where
  frameId : FrameId
  chain : Chain
  status : RequestStatus
  remoteFrameId : Option FrameId
  managerFrameId : Option FrameId
  isStatic : Bool
  reverted : Bool
  /-- `resultKind === 'precomputed-result-only'` -/
  precomputedResultOnly : Bool
  candidates : List FrameId
  rejectedCandidates : List FrameId
  /-- Whether the prepared entries succeeded. -/
  entryCandidates : List (Option Bool)
  deriving DecidableEq, Repr

def isPreparedLookup (out : Outgoing) : Bool :=
  out.chain = .l1 && out.remoteFrameId.isNone && out.candidates.isEmpty && out.rejectedCandidates.isEmpty &&
    !out.entryCandidates.isEmpty &&
      (out.isStatic || out.reverted || out.entryCandidates.all fun success ↦ success = some false)

def isPreparedResult (out : Outgoing) : Bool :=
  out.status = .preparedResult || out.precomputedResultOnly && isPreparedLookup out

variable {frames : List Frame} {id : FrameId} {f : Frame}

theorem getFrame_eq_some (h : getFrame frames id = some f) : f ∈ frames ∧ f.id = id := by
  rw [getFrame] at h
  exact ⟨List.mem_reverse.1 (List.mem_of_find?_eq_some h), by simpa using List.find?_some h⟩

end Diagram
