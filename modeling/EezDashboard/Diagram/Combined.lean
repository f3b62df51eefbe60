import EezDashboard.Diagram.Trace
import EezDashboard.Finite.Forest

/-!
# The combined diagram

`buildFlowModel` visits the logical nodes of a decoder result from its roots, and adds a call node for each.  A
delegate with the calldata of the frame is folded into it, its children in its place, and a request that shows
no remote execution becomes a ghost in front of the call of the manager, which hangs under it.
-/

set_option autoImplicit false

namespace Diagram

/-! ## Decoder results -/

structure LogicalNode where
  id : FrameId
  children : List FrameId
  deriving DecidableEq, Repr

structure LogicalTrace where
  frames : List Frame
  logicalNodes : List LogicalNode
  logicalRoots : List FrameId
  outgoing : List Outgoing

namespace LogicalTrace

variable (trace : LogicalTrace)

/-- `frames.get(id)` -/
def frame (id : FrameId) : Option Frame := getFrame trace.frames id

/-- `logical.get(id)` -/
def logical (id : FrameId) : Option LogicalNode := trace.logicalNodes.reverse.find? fun node ↦ node.id = id

/-- `logical.get(id)?.children || []` -/
def children (id : FrameId) : List FrameId := (trace.logical id).elim [] LogicalNode.children

def outgoingByFrame (id : FrameId) : Option Outgoing := trace.outgoing.reverse.find? fun out ↦ out.frameId = id

/-- `prepared.has(id)` -/
def prepared (id : FrameId) : Bool := trace.outgoing.any fun out ↦ isPreparedResult out && out.frameId = id

/-- A proxy forwarding the same calldata by delegatecall is one logical call. -/
def delegates (frame : Frame) (id : FrameId) : Bool :=
  (trace.frame id).any fun child ↦ child.type = .delegateCall && child.input = frame.input

end LogicalTrace

/-! ## Nodes -/

structure FlowNode where
  /-- None of a ghost. -/
  frameId : Option FrameId := none
  /-- The frames folded into the node, of which `impl` is the last. -/
  folded : List FrameId := []
  outgoing : Option Outgoing := none
  preparedResult : Bool := false
  remoteChild : Option FrameId := none
  crossing : Option Outgoing := none
  children : List ℕ := []
  deriving DecidableEq, Repr

/-- What is shared by all visits. -/
structure Drawing where
  nodes : List FlowNode
  seen : List FrameId

/-- `nodes[i].children = children` -/
def Drawing.setChildren (d : Drawing) (i : ℕ) (children : List ℕ) : Drawing :=
  { d with nodes := d.nodes.modify i fun node ↦ { node with children } }

/-- `nodes[i].crossing = out` -/
def Drawing.setCrossing (d : Drawing) (i : ℕ) (out : Outgoing) : Drawing :=
  { d with nodes := d.nodes.modify i fun node ↦ { node with crossing := some out } }

/-! ## Visits -/

/-- The children of a frame, with the delegates folded. -/
structure Fold where
  kept : List FrameId
  folded : List FrameId
  seen : List FrameId

/-- How many frames have not been seen. -/
def LogicalTrace.unseen (trace : LogicalTrace) (seen : List FrameId) : ℕ :=
  ((trace.frames.map Frame.id).filter (· ∉ seen)).length

theorem LogicalTrace.unseen_lt {trace : LogicalTrace} {frame : Frame} {seen : List FrameId} {c : FrameId}
    (h : trace.delegates frame c) (hnew : c ∉ seen) : trace.unseen (c :: seen) < trace.unseen seen := by
  obtain ⟨child, hchild, -⟩ := (Option.any_eq_true _ _).1 h
  have hmem : c ∈ (trace.frames.map Frame.id).filter (· ∉ seen) := by
    obtain ⟨hframe, rfl⟩ := getFrame_eq_some hchild
    exact List.mem_filter.2 ⟨List.mem_map_of_mem hframe, decide_eq_true hnew⟩
  have heq : (trace.frames.map Frame.id).filter (· ∉ c :: seen) =
      ((trace.frames.map Frame.id).filter (· ∉ seen)).filter (· ≠ c) := by
    rw [List.filter_filter]
    refine List.filter_congr fun id _ ↦ ?_
    simp [not_or]
  rw [unseen, unseen, heq]
  exact List.length_filter_lt_length_iff_exists.2 ⟨c, hmem, by simp⟩

/-- The loop that folds: a delegate that has not been seen is replaced by its children. -/
def LogicalTrace.foldDelegates (trace : LogicalTrace) (frame : Frame) (seen : List FrameId) :
    List FrameId → Fold
  | [] => ⟨[], [], seen⟩
  | c :: cs =>
    if h : trace.delegates frame c ∧ c ∉ seen then
      let fold := trace.foldDelegates frame (c :: seen) (trace.children c ++ cs)
      { fold with folded := c :: fold.folded }
    else
      let fold := trace.foldDelegates frame seen cs
      { fold with kept := c :: fold.kept }
termination_by cs => (trace.unseen seen, cs.length)
decreasing_by
  · exact Prod.Lex.left _ _ (unseen_lt h.1 h.2)
  · exact Prod.Lex.right _ (Nat.lt_succ_self _)

/-- Visits one after the other, and the nodes of those that have one. -/
def visitAll (visit : Drawing → FrameId → Option ℕ × Drawing) : Drawing → List FrameId → List ℕ × Drawing
  | d, [] => ([], d)
  | d, c :: cs =>
    let (v, d) := visit d c
    let (vs, d) := visitAll visit d cs
    (v.toList ++ vs, d)

/-- A visit, and the crossing of the request `out` if it is of the frame that it was matched with. -/
def visitCrossing (visit : Drawing → FrameId → Option ℕ × Drawing) (out : Option Outgoing) (d : Drawing)
    (c : FrameId) : Option ℕ × Drawing :=
  match visit d c, out with
  | (some v, d), some out =>
    if out.status = .matched ∧ out.remoteFrameId = some c then (some v, d.setCrossing v out) else (some v, d)
  | result, _ => result

/-- The frame that `out` was matched with is among the children. -/
def showsRemote (out : Outgoing) (children : List FrameId) : Bool :=
  out.status = .matched && out.remoteFrameId.any (· ∈ children)

/-- The children before the place of the call of the manager, that call if it is there, and the children after. -/
structure Split where
  before : List FrameId
  manager : List FrameId
  after : List FrameId

def splitAtManager (out : Outgoing) (children : List FrameId) : Split :=
  let isManager (c : FrameId) : Bool := out.managerFrameId = some c
  let place := (children.findIdx? isManager).getD 0
  let others := children.filter fun c ↦ !isManager c
  ⟨others.take place, if children.any isManager then out.managerFrameId.toList else [], others.drop place⟩

/-- `visit(id)`, which is nested at most `levels` deep. -/
def LogicalTrace.visit (trace : LogicalTrace) : (levels : ℕ) → Drawing → FrameId → Option ℕ × Drawing
  | 0, d, _ => (none, d)
  | levels + 1, d, id =>
    if id ∈ d.seen then (none, d) else
    match trace.frame id, trace.logical id with
    | some frame, some ln =>
      let fold := trace.foldDelegates frame (id :: d.seen) ln.children
      let children := fold.kept
      let index := d.nodes.length
      let out := trace.outgoingByFrame id
      let node : FlowNode := { frameId := some id, folded := fold.folded, outgoing := out }
      match out with
      | some out =>
        if trace.prepared id then
          let node := { node with preparedResult := true }
          let (vs, d) := visitAll (visitCrossing (trace.visit levels) out) ⟨d.nodes ++ [node], fold.seen⟩ children
          (some index, d.setChildren index vs)
        else if showsRemote out children then
          let node := { node with remoteChild := out.remoteFrameId }
          let (vs, d) := visitAll (visitCrossing (trace.visit levels) out) ⟨d.nodes ++ [node], fold.seen⟩ children
          (some index, d.setChildren index vs)
        else
          -- no observed remote execution
          let ghost : FlowNode := { crossing := some out }
          let split := splitAtManager out children
          let (before, d) := visitAll (trace.visit levels) ⟨d.nodes ++ [node, ghost], fold.seen⟩ split.before
          let (inside, d) := visitAll (trace.visit levels) d split.manager
          let (after, d) := visitAll (trace.visit levels) d split.after
          (some index, (d.setChildren index (before ++ (index + 1) :: after)).setChildren (index + 1) inside)
      | none =>
        let (vs, d) := visitAll (visitCrossing (trace.visit levels) none) ⟨d.nodes ++ [node], fold.seen⟩ children
        (some index, d.setChildren index vs)
    | _, _ => (none, d)

structure FlowModel where
  nodes : List FlowNode
  roots : List ℕ

/-- The roots are visited in the order `before`, in which triggers come first. -/
def LogicalTrace.buildFlowModel (trace : LogicalTrace) (before : FrameId → FrameId → Bool) (levels : ℕ) : FlowModel :=
  let (roots, d) := visitAll (trace.visit levels) ⟨[], []⟩ (trace.logicalRoots.mergeSort before)
  ⟨d.nodes, roots⟩

end Diagram
