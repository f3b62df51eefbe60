import Mathlib
import EezDashboard.Diagram.Visits

/-!
# The combined diagram shows the logical forest

The whole of `buildFlowModel`: which frames are represented, that the nodes are a forest in the logical order, and
in which one way each request is shown.
-/

set_option autoImplicit false

namespace Diagram

open Forest (Lists Parent walk)
open LogicalTrace (FoldedInto HangsBelow LogicalForest Opens ids)

variable {trace : LogicalTrace} {cross : FrameId → Option Outgoing} {nodes : List FlowNode} {out : Outgoing}
  {id : FrameId} {cs l : List FrameId} {i j p : ℕ} {is js : List ℕ}

/-- The frame is reached from the logical roots. -/
def LogicalTrace.Reached (trace : LogicalTrace) (id : FrameId) : Prop :=
  ∃ r ∈ trace.logicalRoots, Relation.ReflTransGen (Parent trace.children) r id

/-- A frame makes one request at most, and a delegate none. -/
structure LogicalTrace.SingleRequests (trace : LogicalTrace) : Prop where
  once : (trace.outgoing.map Outgoing.frameId).Nodup
  notDelegate : ∀ out ∈ trace.outgoing, ∀ frame, trace.frame out.frameId = some frame → frame.type ≠ .delegateCall

/-- A request is shown in one way: as prepared, as a crossing to the child that it was matched with, or by a ghost
that holds the call of the manager. -/
inductive ShownOnce (trace : LogicalTrace) (nodes : List FlowNode) (out : Outgoing) : Prop
  | prepared (i : ℕ) (proxy : frameAt nodes i = some out.frameId) (mark : (nodeAt nodes i).preparedResult = true)
      (crossed : ∀ j, crossingAt nodes j ≠ some out)
  | crossing (i v : ℕ) (proxy : frameAt nodes i = some out.frameId)
      (mark : (nodeAt nodes i).preparedResult = false) (child : v ∈ childrenAt nodes i)
      (matched : out.status = .matched) (remote : ∃ r, out.remoteFrameId = some r ∧ frameAt nodes v = some r)
      (crossed : ∀ j, crossingAt nodes j = some out ↔ j = v)
  | ghost (i g : ℕ) (proxy : frameAt nodes i = some out.frameId)
      (mark : (nodeAt nodes i).preparedResult = false) (child : g ∈ childrenAt nodes i)
      (none : frameAt nodes g = none) (crossed : ∀ j, crossingAt nodes j = some out ↔ j = g)
      (holds : ∀ frame, trace.frame out.frameId = some frame → HoldsManager trace nodes frame out g)

/-- What a diagram shows of a decoder result. -/
structure Represents (trace : LogicalTrace) (model : FlowModel) : Prop where
  /-- No frame is represented twice. -/
  once : (model.nodes.flatMap FlowNode.represents).Nodup
  reached : ∀ id, id ∈ model.nodes.flatMap FlowNode.represents ↔ trace.Reached id
  /-- A call node is not folded, and folds what is reached from it through delegates with its calldata. -/
  folded : ∀ node ∈ model.nodes, ∀ id, node.frameId = some id → trace.isFolded id = false ∧
    ∃ frame, trace.frame id = some frame ∧ ∀ c, c ∈ node.folded ↔ trace.FoldedInto frame c
  ghost : ∀ node ∈ model.nodes, node.frameId = none → node.folded = []
  /-- Each node is a root or a child, once. -/
  place : (model.roots ++ model.nodes.flatMap FlowNode.children).Perm (List.range model.nodes.length)
  acyclic : ∀ i, ¬Relation.TransGen (Parent (childrenAt model.nodes)) i i
  roots : (model.roots.map (frameAt model.nodes)).Perm (trace.logicalRoots.map some)
  /-- Ghosts erased, the calls below a call are in the logical order, without what is folded. -/
  preorder : ∀ i id, frameAt model.nodes i = some id → ∀ n m, model.nodes.length ≤ n → trace.ids.length ≤ m →
    (walk (childrenAt model.nodes) n [i]).filterMap (frameAt model.nodes) =
      (walk trace.children m [id]).filter fun c ↦ !trace.isFolded c
  requests : ∀ out ∈ trace.outgoing, trace.Reached out.frameId → ShownOnce trace model.nodes out

/-! ## The logical order -/

/-- **The calls that are listed, ghosts erased, are the frames that are listed, without those folded.** -/
theorem filterMap_frameAt (hforest : trace.LogicalForest) (h : Lists (childrenAt nodes) is js)
    (hgood : ∀ i ∈ js, Good trace nodes (nodeAt nodes i))
    (hunfolded : ∀ c ∈ is.flatMap (callsAt nodes), trace.isFolded c = false)
    (hl : Lists trace.children (is.flatMap (callsAt nodes)) l) :
    js.filterMap (frameAt nodes) = l.filter fun c ↦ !trace.isFolded c := by
  induction h generalizing l with
  | nil =>
    obtain rfl := hl.nil_inv
    rfl
  | @cons i is below rest _ _ ih ih' =>
    rw [List.flatMap_cons] at hl hunfolded
    obtain ⟨m, n, rfl, hm, hn⟩ := hl.split
    obtain ⟨hi, hgood⟩ := List.forall_mem_cons.1 hgood
    obtain ⟨hgoodBelow, hgoodRest⟩ := List.forall_mem_append.1 hgood
    obtain ⟨hunfolded, hunfoldedRest⟩ := List.forall_mem_append.1 hunfolded
    rw [List.filter_append, ← ih' hgoodRest hunfoldedRest hn]
    cases hi with
    | call frame hframe hid hopens _ =>
      have hcalls : callsAt nodes i = [frame.id] := by rw [callsAt, frameAt, hid]
      rw [hcalls] at hm hunfolded
      obtain ⟨below', rfl, hbelow'⟩ := hm.singleton_inv
      obtain ⟨m', hm', -, hfilter⟩ := hopens.lists hbelow'
      have hkept : ∀ c ∈ (childrenAt nodes i).flatMap (callsAt nodes), trace.isFolded c = false :=
        fun c hc ↦ (hopens.mem_iff.2.1 hc).not_isFolded hforest hframe
      have hfolded : ∀ c ∈ (nodeAt nodes i).folded, (!trace.isFolded c) = false := fun c hc ↦ by
        rw [(hopens.mem_iff.1.1 hc).isFolded hframe]
        rfl
      rw [List.filter_cons_of_pos (by simp [hunfolded frame.id (List.mem_singleton_self _)]),
        ← hfilter (fun c ↦ !trace.isFolded c) hfolded, ← ih hgoodBelow hkept hm',
        List.filterMap_cons_some (f := frameAt nodes) hid, List.filterMap_append, List.cons_append]
    | ghost hnone _ hchildren =>
      have hcalls : callsAt nodes i = (childrenAt nodes i).flatMap (callsAt nodes) := by
        have hone : ∀ j ∈ childrenAt nodes i, callsAt nodes j = (frameAt nodes j).toList := by
          intro j hj
          obtain ⟨id, hid⟩ := Option.isSome_iff_exists.1 (hchildren j hj).1
          rw [callsAt, hid]
          rfl
        rw [callsAt, frameAt, hnone, List.flatMap_congr hone, List.filterMap_eq_flatMap_toList]
      rw [hcalls] at hm hunfolded
      rw [← ih hgoodBelow hunfolded hm, List.filterMap_cons_none (f := frameAt nodes) hnone, List.filterMap_append]

/-! ## Requests -/

/-- Two nodes are not the call of one frame. -/
theorem Drawn.eq_of_frameAt (h : Drawn trace cross nodes cs l is js) (hl : l.Nodup) (hi : i ∈ js) (hp : p ∈ js)
    (hid : frameAt nodes i = some id) (hid' : frameAt nodes p = some id) : i = p := by
  by_contra hne
  have hpairwise := (List.nodup_flatMap.1 (h.represents.nodup_iff.2 hl)).2
  have : Std.Symm (Function.onFun List.Disjoint fun i ↦ (nodeAt nodes i).represents) := ⟨fun _ _ hdis ↦ hdis.symm⟩
  have hmem {k : ℕ} (hk : frameAt nodes k = some id) : id ∈ (nodeAt nodes k).represents :=
    List.mem_append_left _ (Option.mem_toList.2 hk)
  exact hpairwise.forall hi hp hne (hmem hid) (hmem hid')

/-- A request crosses to what is below the node that makes it. -/
theorem Good.frameAt_of_crossing (h : Good trace nodes (nodeAt nodes p)) (hj : j ∈ childrenAt nodes p)
    (hcross : crossingAt nodes j = some out) : frameAt nodes p = some out.frameId := by
  have hno {α : Prop} (hnone : crossingAt nodes j = none) : α := by
    rw [hnone] at hcross
    cases hcross
  have hone {out' : Outgoing} {v : ℕ} (hif : crossingAt nodes j = if j = v then some out' else none) :
      out' = out := by
    rw [hcross] at hif
    split at hif
    · exact (Option.some.inj hif).symm
    · cases hif
  cases h with
  | ghost _ _ hcalls => exact hno (hcalls j hj).2
  | call frame _ hid _ hrequest =>
    cases hrequest with
    | nothing _ _ hcrossed => exact hno (hcrossed j hj)
    | prepared _ _ _ hcrossed => exact hno (hcrossed j hj)
    | crossing out' v hout _ _ _ _ hcrossed =>
      obtain rfl := hone (hcrossed j hj)
      exact hid.trans (congrArg some (outgoingByFrame_eq_some hout).2.symm)
    | ghost out' g hout _ _ _ hcrossed _ =>
      obtain rfl := hone (hcrossed j hj)
      exact hid.trans (congrArg some (outgoingByFrame_eq_some hout).2.symm)

theorem outgoingByFrame_of_mem (hone : (trace.outgoing.map Outgoing.frameId).Nodup) (h : out ∈ trace.outgoing) :
    trace.outgoingByFrame out.frameId = some out := by
  cases hfind : trace.outgoingByFrame out.frameId with
  | none =>
    have := List.find?_eq_none.1 hfind out (List.mem_reverse.2 h)
    simp at this
  | some found =>
    obtain ⟨hmem, hid⟩ := outgoingByFrame_eq_some hfind
    rw [List.inj_on_of_nodup_map hone hmem h hid]

/-- **Each request of a call is shown in one way.** -/
theorem Drawn.shownOnce (h : Drawn trace (fun _ ↦ none) nodes cs l is js) (hl : l.Nodup)
    (hall : ∀ i, i ∈ js ↔ i < nodes.length) (hsingle : trace.SingleRequests) (hout : out ∈ trace.outgoing)
    (hi : i ∈ js) (hproxy : frameAt nodes i = some out.frameId) : ShownOnce trace nodes out := by
  -- what a request crosses to is below the node `i`
  have hbelow {j : ℕ} (hcross : crossingAt nodes j = some out) : j ∈ childrenAt nodes i := by
    have hj : j ∈ js := by
      refine (hall j).2 (not_le.1 fun hle ↦ ?_)
      rw [crossingAt, nodeAt_of_le hle] at hcross
      cases hcross
    obtain hroot | hchild := List.mem_append.1 (h.lists.perm.mem_iff.1 hj)
    · obtain ⟨_, -, -, hnone⟩ := h.root hroot
      rw [hnone] at hcross
      cases hcross
    · obtain ⟨p, hp, hj⟩ := List.mem_flatMap.1 hchild
      rw [h.eq_of_frameAt hl hi hp hproxy ((h.good p hp).frameAt_of_crossing hj hcross)]
      exact hj
  have hcrossed {v : ℕ} (hv : v ∈ childrenAt nodes i)
      (hif : ∀ j ∈ childrenAt nodes i, crossingAt nodes j = if j = v then some out else none) (j : ℕ) :
      crossingAt nodes j = some out ↔ j = v := by
    constructor
    · intro hcross
      by_contra hne
      rw [hif j (hbelow hcross), if_neg hne] at hcross
      cases hcross
    · rintro rfl
      rw [hif j hv, if_pos rfl]
  have huncrossed (hnone : ∀ j ∈ childrenAt nodes i, crossingAt nodes j = none) (j : ℕ) :
      crossingAt nodes j ≠ some out := by
    intro hcross
    rw [hnone j (hbelow hcross)] at hcross
    cases hcross
  cases h.good i hi with
  | ghost hnone _ _ => cases hnone.symm.trans hproxy
  | call frame hframe hid _ hrequest =>
    have hself : frame.id = out.frameId := Option.some.inj (hid.symm.trans hproxy)
    have hsome := outgoingByFrame_of_mem hsingle.once hout
    rw [← hself] at hsome
    have hsame {out' : Outgoing} (hout' : trace.outgoingByFrame frame.id = some out') : out = out' :=
      Option.some.inj (hsome.symm.trans hout')
    cases hrequest with
    | nothing hnone => cases hnone.symm.trans hsome
    | prepared _ _ hmark hnone => exact .prepared i hproxy hmark (huncrossed hnone)
    | crossing out' v hout' hmark hv hmatched hremote hif =>
      obtain rfl := hsame hout'
      exact .crossing i v hproxy hmark hv hmatched hremote (hcrossed hv hif)
    | ghost out' g hout' hmark hg hnone hif hholds =>
      obtain rfl := hsame hout'
      refine .ghost i g hproxy hmark hg hnone (hcrossed hg hif) fun frame' hframe' ↦ ?_
      rw [← hself, hframe] at hframe'
      exact Option.some.inj hframe' ▸ hholds

/-! ## The diagram -/

theorem map_nodeAt (nodes : List FlowNode) : (List.range nodes.length).map (nodeAt nodes) = nodes := by
  refine List.ext_getElem (by simp) fun i hi hi' ↦ ?_
  rw [List.getElem_map, List.getElem_range, nodeAt, List.getD_eq_getElem _ _ hi']

theorem flatMap_perm {α : Type} (hjs : js.Perm (List.range nodes.length)) (f : FlowNode → List α) :
    (js.flatMap fun i ↦ f (nodeAt nodes i)).Perm (nodes.flatMap f) := by
  refine (hjs.flatMap_right _).trans (List.Perm.of_eq ?_)
  rw [← List.flatMap_map (nodeAt nodes) f, map_nodeAt]

/-- A root is not folded. -/
theorem not_isFolded_of_root (hforest : trace.LogicalForest) (h : id ∈ trace.logicalRoots) :
    trace.isFolded id = false := by
  rw [LogicalTrace.isFolded, List.any_eq_false]
  intro p hp hfolded
  simp only [Bool.and_eq_true, decide_eq_true_iff] at hfolded
  exact List.disjoint_of_nodup_append hforest.once h (List.mem_flatMap.2 ⟨p, hp, hfolded.1⟩)

theorem Good.folded {node : FlowNode} (h : Good trace nodes node)
    (hid : node.frameId = some id) :
    ∃ frame, trace.frame id = some frame ∧ ∀ c, c ∈ node.folded ↔ trace.FoldedInto frame c := by
  cases h with
  | ghost hnone => cases hnone.symm.trans hid
  | call frame hframe hid' hopens _ =>
    obtain rfl := Option.some.inj (hid'.symm.trans hid)
    exact ⟨frame, hframe, fun c ↦ hopens.mem_iff.1⟩

/-- The nodes are what is drawn for a listing of the frames that are reached, and no others. -/
structure Whole (trace : LogicalTrace) (nodes : List FlowNode) (cs l : List FrameId) (is js : List ℕ) : Prop where
  drawn : Drawn trace (fun _ ↦ none) nodes cs l is js
  all : ∀ i, i ∈ js ↔ i < nodes.length
  roots : cs.Perm trace.logicalRoots
  lists : Lists trace.children cs l
  nodup : l.Nodup
  sub : l ⊆ trace.ids

/-- The diagram is drawn for the listing of the frames that are reached. -/
theorem exists_whole (hforest : trace.LogicalForest) (hsingle : trace.SingleRequests)
    (before : FrameId → FrameId → Bool) {levels : ℕ} (hlevels : trace.ids.length ≤ levels) :
    ∃ cs l is js d, trace.buildFlowModel before levels = ⟨d, is⟩ ∧ Whole trace d cs l is js := by
  have hsorted := List.mergeSort_perm trace.logicalRoots before
  obtain ⟨sorted, hsort⟩ : ∃ sorted, trace.logicalRoots.mergeSort before = sorted := ⟨_, rfl⟩
  rw [hsort] at hsorted
  have hplace : (sorted ++ trace.ids.flatMap trace.children).Nodup :=
    (hsorted.append_right _).nodup_iff.2 hforest.once
  obtain ⟨l, hl, hsub⟩ := Forest.exists_lists hforest.closed hforest.acyclic
    fun c hc ↦ hforest.roots (hsorted.mem_iff.1 hc)
  have hnodup := hl.nodup hsub hplace hforest.acyclic
  have hlength : l.length ≤ trace.ids.length := (hnodup.subperm hsub).length_le
  obtain ⟨is, js, d, hvisits, hgrown⟩ := (draws_visit hforest hsingle.once levels).all (d := ⟨[], []⟩) hl hnodup
    (fun _ _ ↦ List.not_mem_nil) hsub (hlength.trans hlevels)
  refine ⟨sorted, l, is, js, d.nodes, ?_, hgrown.drawn, by simpa using hgrown.new, hsorted, hl, hnodup, hsub⟩
  rw [LogicalTrace.buildFlowModel, hsort]
  simp only [hvisits]

namespace Whole

theorem range (h : Whole trace nodes cs l is js) : js.Perm (List.range nodes.length) :=
  (List.perm_ext_iff_of_nodup h.drawn.nodup List.nodup_range).2 fun i ↦ by rw [h.all, List.mem_range]

theorem represents (h : Whole trace nodes cs l is js) : (nodes.flatMap FlowNode.represents).Perm l :=
  (flatMap_perm h.range FlowNode.represents).symm.trans h.drawn.represents

theorem reached (h : Whole trace nodes cs l is js) (id : FrameId) : id ∈ l ↔ trace.Reached id := by
  simp only [h.lists.mem_iff, h.roots.mem_iff, LogicalTrace.Reached]

/-- A node that is the call of a frame is drawn. -/
theorem mem_of_frameAt (h : Whole trace nodes cs l is js) (hid : frameAt nodes i = some id) : i ∈ js := by
  refine (h.all i).2 (not_le.1 fun hle ↦ ?_)
  rw [frameAt, nodeAt_of_le hle] at hid
  cases hid

theorem exists_node (h : Whole trace nodes cs l is js) {node : FlowNode} (hnode : node ∈ nodes) :
    ∃ i ∈ js, nodeAt nodes i = node := by
  rw [← map_nodeAt nodes] at hnode
  obtain ⟨i, hi, rfl⟩ := List.mem_map.1 hnode
  exact ⟨i, (h.all i).2 (List.mem_range.1 hi), rfl⟩

/-- A call that is drawn has not been folded. -/
theorem unfolded (h : Whole trace nodes cs l is js) (hforest : trace.LogicalForest)
    (hid : frameAt nodes i = some id) : id ∈ l ∧ trace.isFolded id = false := by
  have horder : js.filterMap (frameAt nodes) = l.filter fun c ↦ !trace.isFolded c := by
    refine filterMap_frameAt hforest h.drawn.lists h.drawn.good ?_ ?_
    · rw [Drawn.flatMap_callsAt h.drawn.frames]
      exact fun c hc ↦ not_isFolded_of_root hforest (h.roots.mem_iff.1 hc)
    · rw [Drawn.flatMap_callsAt h.drawn.frames]
      exact h.lists
  have hmem : id ∈ js.filterMap (frameAt nodes) := List.mem_filterMap.2 ⟨i, h.mem_of_frameAt hid, hid⟩
  rw [horder, List.mem_filter, Bool.not_eq_true'] at hmem
  exact hmem

theorem acyclic (h : Whole trace nodes cs l is js) (i : ℕ) :
    ¬Relation.TransGen (Parent (childrenAt nodes)) i i := by
  intro hself
  have hi : i ∈ js := by
    obtain ⟨j, hj, -⟩ := Relation.TransGen.head'_iff.1 hself
    refine (h.all i).2 (not_le.1 fun hle ↦ ?_)
    rw [Parent, childrenAt, nodeAt_of_le hle] at hj
    cases hj
  exact h.drawn.lists.acyclic h.drawn.nodup i hi hself

/-- Below a call, too, the calls are in the logical order. -/
theorem preorder (h : Whole trace nodes cs l is js) (hforest : trace.LogicalForest)
    (hid : frameAt nodes i = some id) {n m : ℕ} (hn : nodes.length ≤ n) (hm : trace.ids.length ≤ m) :
    (walk (childrenAt nodes) n [i]).filterMap (frameAt nodes) =
      (walk trace.children m [id]).filter fun c ↦ !trace.isFolded c := by
  obtain ⟨hmem, hno⟩ := h.unfolded hforest hid
  obtain ⟨below, hbelow, hbelowSub⟩ := h.drawn.lists.of_mem (h.mem_of_frameAt hid)
  obtain ⟨below', hbelow', hbelowSub'⟩ := h.lists.of_mem hmem
  have hcalls : [i].flatMap (callsAt nodes) = [id] := by
    rw [List.flatMap_singleton, callsAt, hid]
  have hjs : js.length ≤ n := by
    rw [h.range.length_eq, List.length_range]
    exact hn
  have hl : l.length ≤ m := (h.nodup.subperm h.sub).length_le.trans hm
  rw [(Lists.singleton hbelow).walk_eq n (hbelowSub.length_le.trans hjs),
    (Lists.singleton hbelow').walk_eq m (hbelowSub'.length_le.trans hl)]
  refine filterMap_frameAt hforest (Lists.singleton hbelow) (fun j hj ↦ h.drawn.good j (hbelowSub.subset hj)) ?_ ?_
  · rw [hcalls]
    exact fun c hc ↦ List.mem_singleton.1 hc ▸ hno
  · rw [hcalls]
    exact Lists.singleton hbelow'

theorem requests (h : Whole trace nodes cs l is js) (hsingle : trace.SingleRequests) (hout : out ∈ trace.outgoing)
    (hreach : trace.Reached out.frameId) : ShownOnce trace nodes out := by
  obtain ⟨i, hi, hmem⟩ := List.mem_flatMap.1 (h.drawn.represents.mem_iff.2 ((h.reached _).2 hreach))
  obtain hproxy | hfolded := List.mem_append.1 hmem
  · exact h.drawn.shownOnce h.nodup h.all hsingle hout hi (Option.mem_toList.1 hproxy)
  · -- what is folded is a delegate, which makes no request
    cases h.drawn.good i hi with
    | ghost _ hnone _ =>
      rw [hnone] at hfolded
      cases hfolded
    | call frame _ _ hopens _ =>
      have hdelegates := (hopens.mem_iff.1.1 hfolded).delegates
      rw [LogicalTrace.delegates, Option.any_eq_true] at hdelegates
      obtain ⟨child, hchild, htype⟩ := hdelegates
      rw [Bool.and_eq_true, decide_eq_true_iff] at htype
      exact absurd htype.1 (hsingle.notDelegate out hout child hchild)

end Whole

/-- **The combined diagram shows the logical forest**: every frame that is reached is represented once, the nodes
are a forest in the logical order, and each request is shown in one way. -/
theorem LogicalTrace.buildFlowModel_represents (trace : LogicalTrace) (hforest : trace.LogicalForest)
    (hsingle : trace.SingleRequests) (before : FrameId → FrameId → Bool) (levels : ℕ)
    (hlevels : trace.ids.length ≤ levels) : Represents trace (trace.buildFlowModel before levels) := by
  obtain ⟨cs, l, is, js, nodes, hmodel, h⟩ := exists_whole hforest hsingle before hlevels
  rw [hmodel]
  constructor
  · exact h.represents.nodup_iff.2 h.nodup
  · exact fun id ↦ h.represents.mem_iff.trans (h.reached id)
  · intro node hmem id hid
    obtain ⟨i, hi, rfl⟩ := h.exists_node hmem
    exact ⟨(h.unfolded hforest hid).2, (h.drawn.good i hi).folded hid⟩
  · intro node hmem hnone
    obtain ⟨i, hi, rfl⟩ := h.exists_node hmem
    cases h.drawn.good i hi with
    | ghost _ hfolded _ => exact hfolded
    | call _ _ hid _ _ => cases hnone.symm.trans hid
  · exact ((flatMap_perm h.range FlowNode.children).symm.append_left is).trans
      (h.drawn.lists.perm.symm.trans h.range)
  · exact h.acyclic
  · rw [h.drawn.frames]
    exact h.roots.map some
  · exact fun i id hid n m hn hm ↦ h.preorder hforest hid hn hm
  · exact fun out hout hreach ↦ h.requests hsingle hout hreach

/-! ## A diagram -/

def frameId (path : List ℕ) : FrameId := ⟨.l1, "a", path⟩

def frameOf (path : List ℕ) (type : TraceDecoder.CallType) (input : String) : Frame :=
  ⟨frameId path, none, type, input, "a", none⟩

def requestOf (path : List ℕ) (status : RequestStatus) (remote manager : Option FrameId) : Outgoing :=
  ⟨frameId path, .l1, status, remote, manager, false, false, false, [], [], []⟩

/-- A call of a proxy that forwards by delegatecall and is answered on the other chain, of one that is not, and of
one whose result was prepared. -/
def threeProxies : LogicalTrace where
  frames := [frameOf [0] .call "0x", frameOf [0, 0] .call "0x01", frameOf [0, 0, 0] .delegateCall "0x01",
    frameOf [0, 0, 0, 0] .call "0x02", frameOf [9] .call "0x01", frameOf [0, 1] .call "0x03",
    frameOf [0, 1, 0] .call "0x04", frameOf [0, 1, 1] .call "0x05", frameOf [0, 2] .call "0x06"]
  logicalNodes := [⟨frameId [0], [frameId [0, 0], frameId [0, 1], frameId [0, 2]]⟩,
    ⟨frameId [0, 0], [frameId [0, 0, 0], frameId [9]]⟩, ⟨frameId [0, 0, 0], [frameId [0, 0, 0, 0]]⟩,
    ⟨frameId [0, 0, 0, 0], []⟩, ⟨frameId [9], []⟩, ⟨frameId [0, 1], [frameId [0, 1, 0], frameId [0, 1, 1]]⟩,
    ⟨frameId [0, 1, 0], []⟩, ⟨frameId [0, 1, 1], []⟩, ⟨frameId [0, 2], []⟩]
  logicalRoots := [frameId [0]]
  outgoing := [requestOf [0, 0] .matched (some (frameId [9])) none,
    requestOf [0, 1] .unresolved none (some (frameId [0, 1, 1])), requestOf [0, 2] .preparedResult none none]

theorem buildFlowModel_threeProxies : Represents threeProxies (threeProxies.buildFlowModel (fun _ _ ↦ true) 9) := by
  have hrank : ∀ p ∈ threeProxies.ids, ∀ c ∈ threeProxies.children p,
      threeProxies.ids.idxOf p < threeProxies.ids.idxOf c := by decide +kernel
  have habove {p c : FrameId} (h : Relation.TransGen (Parent threeProxies.children) p c) :
      threeProxies.ids.idxOf p < threeProxies.ids.idxOf c := by
    induction h with
    | single hc => exact hrank _ (LogicalTrace.mem_ids_of_mem_children hc) _ hc
    | tail _ hc ih => exact ih.trans (hrank _ (LogicalTrace.mem_ids_of_mem_children hc) _ hc)
  refine threeProxies.buildFlowModel_represents ⟨?_, ?_, ?_, ?_, fun _ _ h ↦ (habove h).false⟩ ⟨?_, ?_⟩ _ _ ?_
  · decide +kernel
  · decide +kernel
  · decide +kernel
  · decide +kernel
  · decide +kernel
  · intro out hout frame hframe
    have hall : ∀ out ∈ threeProxies.outgoing,
        ((threeProxies.frame out.frameId).all fun frame ↦ frame.type ≠ .delegateCall) = true := by decide +kernel
    have := hall out hout
    rw [hframe, Option.all_some] at this
    exact of_decide_eq_true this
  · decide +kernel

end Diagram
