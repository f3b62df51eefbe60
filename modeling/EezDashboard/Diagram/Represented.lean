import Mathlib.Data.List.GetD
import EezDashboard.Diagram.Delegates

/-!
# What the combined diagram represents

Each frame that is reached is one call node or folded into one, the nodes are a forest in the logical order, and
each request is shown in one way.  A visit draws the nodes of a listing behind those drawn before, which stay
as they are.
-/

set_option autoImplicit false

namespace Diagram

open Forest (Lists Parent walk)
open LogicalTrace (FoldedInto HangsBelow LogicalForest Opens)

/-! ## Nodes by number -/

def nodeAt (nodes : List FlowNode) (i : ℕ) : FlowNode := nodes.getD i {}

def childrenAt (nodes : List FlowNode) (i : ℕ) : List ℕ := (nodeAt nodes i).children

def frameAt (nodes : List FlowNode) (i : ℕ) : Option FrameId := (nodeAt nodes i).frameId

def crossingAt (nodes : List FlowNode) (i : ℕ) : Option Outgoing := (nodeAt nodes i).crossing

/-- The frames that a node stands for. -/
def FlowNode.represents (node : FlowNode) : List FrameId := node.frameId.toList ++ node.folded

/-- The frame of a call, or those that a ghost holds. -/
def callsAt (nodes : List FlowNode) (i : ℕ) : List FrameId :=
  match frameAt nodes i with
  | some id => [id]
  | none => (childrenAt nodes i).filterMap (frameAt nodes)

variable {trace : LogicalTrace} {nodes nodes' more : List FlowNode} {node : FlowNode} {i j k : ℕ} {frame : Frame}
  {out : Outgoing} {id : FrameId} {cs kept folded l m : List FrameId} {is js : List ℕ}

theorem nodeAt_append_left (h : i < nodes.length) : nodeAt (nodes ++ more) i = nodeAt nodes i := by
  rw [nodeAt, nodeAt, List.getD_append _ _ _ _ h]

theorem nodeAt_length (nodes more : List FlowNode) (node : FlowNode) :
    nodeAt (nodes ++ node :: more) nodes.length = node := by
  rw [nodeAt, List.getD_append_right _ _ _ _ (le_refl _), Nat.sub_self, List.getD_cons_zero]

theorem nodeAt_modify_of_ne (h : i ≠ k) (f : FlowNode → FlowNode) :
    nodeAt (nodes.modify k f) i = nodeAt nodes i := by
  rw [nodeAt, nodeAt, List.getD_eq_getElem?_getD, List.getD_eq_getElem?_getD, List.getElem?_modify_ne _ _ h.symm]

theorem nodeAt_modify (h : k < nodes.length) (f : FlowNode → FlowNode) :
    nodeAt (nodes.modify k f) k = f (nodeAt nodes k) := by
  simp [nodeAt, List.getD_eq_getElem?_getD, h]

theorem nodeAt_of_le (h : nodes.length ≤ i) : nodeAt nodes i = {} := List.getD_eq_default _ _ h

/-! ## What is right of a node -/

/-- A ghost holds the call of the manager and nothing else, if that hangs below the frame. -/
def HoldsManager (trace : LogicalTrace) (nodes : List FlowNode) (frame : Frame) (out : Outgoing) (g : ℕ) : Prop :=
  (∃ m j, out.managerFrameId = some m ∧ trace.HangsBelow frame m ∧ childrenAt nodes g = [j] ∧
    frameAt nodes j = some m) ∨
  (childrenAt nodes g = [] ∧ ∀ m, out.managerFrameId = some m → ¬trace.HangsBelow frame m)

/-- How the request of the frame is shown at its node, if there is one. -/
inductive Shows (trace : LogicalTrace) (nodes : List FlowNode) (frame : Frame) (node : FlowNode) : Prop
  | nothing (request : trace.outgoingByFrame frame.id = none) (mark : node.preparedResult = false)
      (crossed : ∀ j ∈ node.children, crossingAt nodes j = none)
  | prepared (out : Outgoing) (request : trace.outgoingByFrame frame.id = some out)
      (mark : node.preparedResult = true) (crossed : ∀ j ∈ node.children, crossingAt nodes j = none)
  | crossing (out : Outgoing) (v : ℕ) (request : trace.outgoingByFrame frame.id = some out)
      (mark : node.preparedResult = false) (child : v ∈ node.children) (matched : out.status = .matched)
      (remote : ∃ r, out.remoteFrameId = some r ∧ frameAt nodes v = some r)
      (crossed : ∀ j ∈ node.children, crossingAt nodes j = if j = v then some out else none)
  | ghost (out : Outgoing) (g : ℕ) (request : trace.outgoingByFrame frame.id = some out)
      (mark : node.preparedResult = false) (child : g ∈ node.children) (none : frameAt nodes g = none)
      (crossed : ∀ j ∈ node.children, crossingAt nodes j = if j = g then some out else .none)
      (holds : HoldsManager trace nodes frame out g)

/-- A node is as it should be: below a call, with ghosts erased, are the calls that its frame keeps; below a
ghost are calls that have not crossed. -/
inductive Good (trace : LogicalTrace) (nodes : List FlowNode) (node : FlowNode) : Prop
  | call (frame : Frame) (isFrame : trace.frame frame.id = some frame) (id : node.frameId = some frame.id)
      (opens : trace.Opens frame (trace.children frame.id) (node.children.flatMap (callsAt nodes)) node.folded)
      (request : Shows trace nodes frame node)
  | ghost (none : node.frameId = none) (folded : node.folded = [])
      (calls : ∀ j ∈ node.children, (frameAt nodes j).isSome ∧ crossingAt nodes j = .none)

theorem callsAt_congr (hi : nodeAt nodes' i = nodeAt nodes i)
    (hchildren : ∀ j ∈ childrenAt nodes i, nodeAt nodes' j = nodeAt nodes j) : callsAt nodes' i = callsAt nodes i := by
  rw [callsAt, callsAt, frameAt, frameAt, childrenAt, childrenAt, hi]
  have hfilter : (nodeAt nodes i).children.filterMap (frameAt nodes') =
      (nodeAt nodes i).children.filterMap (frameAt nodes) :=
    List.filterMap_congr fun j hj ↦ congrArg FlowNode.frameId (hchildren j hj)
  rw [hfilter]

/-- Whether a node is right depends on the nodes below it only. -/
theorem Good.congr (h : Good trace nodes node)
    (hchildren : ∀ j ∈ node.children, nodeAt nodes' j = nodeAt nodes j)
    (hbelow : ∀ j ∈ node.children, ∀ m ∈ childrenAt nodes j, nodeAt nodes' m = nodeAt nodes m) :
    Good trace nodes' node := by
  have hcrossing : ∀ j ∈ node.children, crossingAt nodes' j = crossingAt nodes j :=
    fun j hj ↦ congrArg FlowNode.crossing (hchildren j hj)
  have hframe : ∀ j ∈ node.children, frameAt nodes' j = frameAt nodes j :=
    fun j hj ↦ congrArg FlowNode.frameId (hchildren j hj)
  cases h with
  | ghost hnone hfolded hcalls =>
    exact .ghost hnone hfolded fun j hj ↦ by rw [hframe j hj, hcrossing j hj]; exact hcalls j hj
  | call frame hisframe hid hopens hrequest =>
    have hcalls : node.children.flatMap (callsAt nodes') = node.children.flatMap (callsAt nodes) :=
      List.flatMap_congr fun j hj ↦ callsAt_congr (hchildren j hj) (hbelow j hj)
    refine .call frame hisframe hid (hcalls ▸ hopens) ?_
    cases hrequest with
    | nothing hout hmark hcrossed =>
      exact .nothing hout hmark fun j hj ↦ (hcrossing j hj).trans (hcrossed j hj)
    | prepared out hout hmark hcrossed =>
      exact .prepared out hout hmark fun j hj ↦ (hcrossing j hj).trans (hcrossed j hj)
    | crossing out v hout hmark hv hmatched hremote hcrossed =>
      obtain ⟨r, hr, hv'⟩ := hremote
      exact .crossing out v hout hmark hv hmatched ⟨r, hr, (hframe v hv).trans hv'⟩
        fun j hj ↦ (hcrossing j hj).trans (hcrossed j hj)
    | ghost out g hout hmark hg hnone hcrossed hholds =>
      have hinside : childrenAt nodes' g = childrenAt nodes g := congrArg FlowNode.children (hchildren g hg)
      refine .ghost out g hout hmark hg ((hframe g hg).trans hnone)
        (fun j hj ↦ (hcrossing j hj).trans (hcrossed j hj)) ?_
      obtain ⟨m, j, hm, hhangs, hj, hframe⟩ | ⟨hempty, hno⟩ := hholds
      · refine .inl ⟨m, j, hm, hhangs, hinside.trans hj, ?_⟩
        have hj' : j ∈ childrenAt nodes g := hj ▸ List.mem_singleton_self j
        exact (congrArg FlowNode.frameId (hbelow g hg j hj')).trans hframe
      · exact .inr ⟨hinside.trans hempty, hno⟩

/-- The crossing of a node itself does not matter. -/
theorem Good.setCrossing (h : Good trace nodes node) (crossing : Option Outgoing) :
    Good trace nodes { node with crossing } := by
  cases h with
  | ghost hnone hfolded hcalls => exact .ghost hnone hfolded hcalls
  | call frame hisframe hid hopens hrequest =>
    refine .call frame hisframe hid hopens ?_
    cases hrequest with
    | nothing hout hmark hcrossed => exact .nothing hout hmark hcrossed
    | prepared out hout hmark hcrossed => exact .prepared out hout hmark hcrossed
    | crossing out v hout hmark hv hmatched hremote hcrossed =>
      exact .crossing out v hout hmark hv hmatched hremote hcrossed
    | ghost out g hout hmark hg hnone hcrossed hholds =>
      exact .ghost out g hout hmark hg hnone hcrossed hholds

/-! ## What is drawn for a list of frames -/

/-- The nodes `is` are drawn for the frames `cs`, which list `l`: with what is below them they are the nodes
`js`, and `cross` says which requests have crossed to them. -/
structure Drawn (trace : LogicalTrace) (cross : FrameId → Option Outgoing) (nodes : List FlowNode)
    (cs l : List FrameId) (is js : List ℕ) : Prop where
  lists : Lists (childrenAt nodes) is js
  nodup : js.Nodup
  frames : is.map (frameAt nodes) = cs.map some
  crossings : is.map (crossingAt nodes) = cs.map cross
  represents : (js.flatMap fun i ↦ (nodeAt nodes i).represents).Perm l
  good : ∀ i ∈ js, Good trace nodes (nodeAt nodes i)

variable {cross cross' : FrameId → Option Outgoing} {is' js' : List ℕ} {cs' l' : List FrameId}

theorem Drawn.congr (h : Drawn trace cross nodes cs l is js) (heq : ∀ i ∈ js, nodeAt nodes' i = nodeAt nodes i) :
    Drawn trace cross nodes' cs l is js := by
  have hroot : ∀ i ∈ is, nodeAt nodes' i = nodeAt nodes i := fun i hi ↦ heq i (h.lists.subset hi)
  have hchild {i j : ℕ} (hi : i ∈ js) (hj : j ∈ childrenAt nodes i) : j ∈ js := h.lists.mem_children hi hj
  constructor
  · exact h.lists.congr fun i hi ↦ congrArg FlowNode.children (heq i hi)
  · exact h.nodup
  · rw [← h.frames]
    exact List.map_congr_left fun i hi ↦ congrArg FlowNode.frameId (hroot i hi)
  · rw [← h.crossings]
    exact List.map_congr_left fun i hi ↦ congrArg FlowNode.crossing (hroot i hi)
  · have hrepresents : (js.flatMap fun i ↦ (nodeAt nodes' i).represents) =
        js.flatMap fun i ↦ (nodeAt nodes i).represents :=
      List.flatMap_congr fun i hi ↦ congrArg FlowNode.represents (heq i hi)
    exact hrepresents ▸ h.represents
  · intro i hi
    rw [heq i hi]
    exact (h.good i hi).congr (fun j hj ↦ heq j (hchild hi hj))
      fun j hj m hm ↦ heq m (hchild (hchild hi hj) hm)

theorem Drawn.nil : Drawn trace cross nodes [] [] [] [] :=
  ⟨.nil, List.nodup_nil, rfl, rfl, List.Perm.refl _, nofun⟩

theorem Drawn.append (h : Drawn trace cross nodes cs l is js) (h' : Drawn trace cross nodes cs' l' is' js')
    (hdisjoint : js.Disjoint js') : Drawn trace cross nodes (cs ++ cs') (l ++ l') (is ++ is') (js ++ js') := by
  constructor
  · exact h.lists.append h'.lists
  · exact List.nodup_append'.2 ⟨h.nodup, h'.nodup, hdisjoint⟩
  · rw [List.map_append, List.map_append, h.frames, h'.frames]
  · rw [List.map_append, List.map_append, h.crossings, h'.crossings]
  · rw [List.flatMap_append]
    exact h.represents.append h'.represents
  · exact List.forall_mem_append.2 ⟨h.good, h'.good⟩

/-- Roots that are calls. -/
theorem Drawn.flatMap_callsAt (h : is.map (frameAt nodes) = cs.map some) : is.flatMap (callsAt nodes) = cs := by
  induction is generalizing cs with
  | nil =>
    obtain rfl := List.map_eq_nil_iff.1 h.symm
    rfl
  | cons i is ih =>
    cases cs with
    | nil => cases h
    | cons c cs =>
      obtain ⟨hi, his⟩ := List.cons.inj h
      rw [List.flatMap_cons, ih his, callsAt, hi]
      rfl

/-- A root of what is drawn, with its frame. -/
theorem Drawn.root (h : Drawn trace cross nodes cs l is js) (hi : i ∈ is) :
    ∃ c ∈ cs, frameAt nodes i = some c ∧ crossingAt nodes i = cross c := by
  have hpair {is : List ℕ} {cs : List FrameId} (hframes : is.map (frameAt nodes) = cs.map some)
      (hcrossings : is.map (crossingAt nodes) = cs.map cross) (hi : i ∈ is) :
      ∃ c ∈ cs, frameAt nodes i = some c ∧ crossingAt nodes i = cross c := by
    induction is generalizing cs with
    | nil => cases hi
    | cons k is ih =>
      cases cs with
      | nil => cases hframes
      | cons c cs =>
        obtain ⟨hk, hframes⟩ := List.cons.inj hframes
        obtain ⟨hk', hcrossings⟩ := List.cons.inj hcrossings
        obtain rfl | hi := List.mem_cons.1 hi
        · exact ⟨c, List.mem_cons_self, hk, hk'⟩
        · obtain ⟨c', hc', heq⟩ := ih hframes hcrossings hi
          exact ⟨c', List.mem_cons_of_mem _ hc', heq⟩
  exact hpair h.frames h.crossings hi

/-- **The node of a frame**, over what is drawn for the children that it keeps. -/
theorem Drawn.call (hframe : trace.frame frame.id = some frame)
    (h : Drawn trace cross nodes kept m is js) (hk : k ∉ js)
    (hopens : trace.Opens frame (trace.children frame.id) kept folded) (hperm : (folded ++ m).Perm l)
    (hid : frameAt nodes k = some frame.id) (hfolded : (nodeAt nodes k).folded = folded)
    (hchildren : childrenAt nodes k = is) (hcrossing : crossingAt nodes k = none)
    (hshows : Shows trace nodes frame (nodeAt nodes k)) :
    Drawn trace (fun _ ↦ none) nodes [frame.id] (frame.id :: l) [k] (k :: js) := by
  have hlists : Lists (childrenAt nodes) [k] (k :: js) := Lists.singleton (hchildren ▸ h.lists)
  constructor
  · exact hlists
  · exact List.nodup_cons.2 ⟨hk, h.nodup⟩
  · rw [List.map_singleton, List.map_singleton, hid]
  · rw [List.map_singleton, List.map_singleton, hcrossing]
  · have hrepresents : (nodeAt nodes k).represents = frame.id :: folded := by
      rw [FlowNode.represents, hfolded]
      exact congrArg (· ++ folded) (congrArg Option.toList hid)
    rw [List.flatMap_cons, hrepresents, List.cons_append]
    exact List.Perm.cons _ ((h.represents.append_left folded).trans hperm)
  · refine List.forall_mem_cons.2 ⟨.call frame hframe hid ?_ hshows, h.good⟩
    rw [hfolded, show (nodeAt nodes k).children = is from hchildren, Drawn.flatMap_callsAt h.frames]
    exact hopens

/-- **The node of a frame whose request is a ghost**, `g`, which holds what is drawn for `manager`. -/
theorem Drawn.ghost {before manager after mb mm ma : List FrameId} {rb rm ra jb jm ja : List ℕ} {g : ℕ}
    (hframe : trace.frame frame.id = some frame)
    (hb : Drawn trace (fun _ ↦ none) nodes before mb rb jb)
    (hm : Drawn trace (fun _ ↦ none) nodes manager mm rm jm)
    (ha : Drawn trace (fun _ ↦ none) nodes after ma ra ja)
    (hnodup : (k :: (jb ++ g :: (jm ++ ja))).Nodup)
    (hopens : trace.Opens frame (trace.children frame.id) (before ++ (manager ++ after)) folded)
    (hperm : (folded ++ (mb ++ (mm ++ ma))).Perm l)
    (hid : frameAt nodes k = some frame.id) (hfolded : (nodeAt nodes k).folded = folded)
    (hchildren : childrenAt nodes k = rb ++ g :: ra) (hcrossing : crossingAt nodes k = none)
    (hg : frameAt nodes g = none) (hgfolded : (nodeAt nodes g).folded = []) (hgchildren : childrenAt nodes g = rm)
    (hshows : Shows trace nodes frame (nodeAt nodes k)) :
    Drawn trace (fun _ ↦ none) nodes [frame.id] (frame.id :: l) [k] (k :: (jb ++ g :: (jm ++ ja))) := by
  have hlists : Lists (childrenAt nodes) (g :: ra) (g :: (jm ++ ja)) := .cons (hgchildren ▸ hm.lists) ha.lists
  have hcalls : (nodeAt nodes k).children.flatMap (callsAt nodes) = before ++ (manager ++ after) := by
    have hinside : callsAt nodes g = manager := by
      have hmap : (rm.map (frameAt nodes)).filterMap id = manager := by
        rw [hm.frames, List.filterMap_map, Function.id_comp, List.filterMap_some]
      rw [callsAt, hg, hgchildren, ← hmap, List.filterMap_map, Function.id_comp]
    rw [show (nodeAt nodes k).children = rb ++ g :: ra from hchildren, List.flatMap_append, List.flatMap_cons,
      hinside, Drawn.flatMap_callsAt hb.frames, Drawn.flatMap_callsAt ha.frames]
  have hghost : Good trace nodes (nodeAt nodes g) := by
    refine .ghost hg hgfolded fun j hj ↦ ?_
    obtain ⟨c, -, hc, hnone⟩ := hm.root (hgchildren ▸ hj : j ∈ rm)
    exact ⟨hc ▸ rfl, hnone⟩
  have hrepresents : (nodeAt nodes k).represents = frame.id :: folded := by
    rw [FlowNode.represents, hfolded]
    exact congrArg (· ++ folded) (congrArg Option.toList hid)
  have hgrepresents : (nodeAt nodes g).represents = [] := by
    rw [FlowNode.represents, hgfolded, List.append_nil]
    exact congrArg Option.toList hg
  constructor
  · exact Lists.singleton (hchildren ▸ hb.lists.append hlists)
  · exact hnodup
  · rw [List.map_singleton, List.map_singleton, hid]
  · rw [List.map_singleton, List.map_singleton, hcrossing]
  · rw [List.flatMap_cons, List.flatMap_append, List.flatMap_cons, List.flatMap_append, hrepresents, hgrepresents,
      List.nil_append, List.cons_append]
    refine List.Perm.cons _ (List.Perm.trans ?_ hperm)
    exact (hb.represents.append (hm.represents.append ha.represents)).append_left folded
  · refine List.forall_mem_cons.2 ⟨.call frame hframe hid ?_ hshows, List.forall_mem_append.2 ⟨hb.good, ?_⟩⟩
    · rw [hfolded, hcalls]
      exact hopens
    · exact List.forall_mem_cons.2 ⟨hghost, List.forall_mem_append.2 ⟨hm.good, ha.good⟩⟩

/-- A request that crosses to the root of what is drawn. -/
theorem Drawn.setCrossing {c : FrameId} (h : Drawn trace (fun _ ↦ none) nodes [c] l [i] js)
    (hne : ∀ j, j ≠ i → nodeAt nodes' j = nodeAt nodes j)
    (heq : nodeAt nodes' i = { nodeAt nodes i with crossing := some out }) (hcross : cross c = some out) :
    Drawn trace cross nodes' [c] l [i] js := by
  have hsame {α : Type} (f : FlowNode → α) (hf : ∀ node crossing, f { node with crossing } = f node) (j : ℕ) :
      f (nodeAt nodes' j) = f (nodeAt nodes j) := by
    by_cases hj : j = i
    · rw [hj, heq, hf]
    · rw [hne j hj]
  have hbelow {p j : ℕ} (hp : p ∈ js) (hj : j ∈ childrenAt nodes p) : j ≠ i := fun h' ↦
    h.lists.not_root h.nodup hp hj (h' ▸ List.mem_singleton_self j)
  constructor
  · exact h.lists.congr fun j _ ↦ hsame FlowNode.children (fun _ _ ↦ rfl) j
  · exact h.nodup
  · rw [← h.frames]
    exact List.map_congr_left fun j _ ↦ hsame FlowNode.frameId (fun _ _ ↦ rfl) j
  · rw [List.map_singleton, List.map_singleton, crossingAt, heq, hcross]
  · rw [List.flatMap_congr fun j _ ↦ hsame FlowNode.represents (fun _ _ ↦ rfl) j]
    exact h.represents
  · intro p hp
    have hgood := (h.good p hp).congr (fun j hj ↦ hne j (hbelow hp hj))
      fun j hj m hm ↦ hne m (hbelow (h.lists.mem_children hp hj) hm)
    by_cases hpi : p = i
    · rw [hpi, heq]
      exact (hpi ▸ hgood).setCrossing _
    · rw [hne p hpi]
      exact hgood

end Diagram
