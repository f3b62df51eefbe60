import Mathlib
import EezDashboard.Trace.Boundary
import EezDashboard.Trace.Tree

/-!
# Matching requests with deliveries

`matchLoop` pairs the requests of one chain with the deliveries of the other.  Two rules make pairs: a
request whose only available delivery is available to no other pending request, and a group of equal
requests which the consumed entries order, with as many deliveries in physical order.  What is available
depends on the pairs already made: a nested delivery is available only inside the delivery its enclosing
request was paired with.

The state of the loop is the list of the pairs made so far, the latest first; the maps the decoder keeps
are read off it.  Since a pair is never taken back, the moments of the loop are the suffixes of its
result.
-/

set_option autoImplicit false

namespace TraceDecoder

/-! ## The graph -/

/-- The frames with the boundaries read off them.  A frame is listed once and carries at most one request
and one delivery. -/
structure Graph where
  chains : Chains
  transactions : List Transaction
  frames : List Frame
  outgoing : List Outgoing
  incoming : List Incoming
  frames_nodup : (frames.map Frame.id).Nodup
  outgoing_nodup : (outgoing.map Outgoing.managerFrameId).Nodup
  incoming_nodup : (incoming.map Incoming.id).Nodup

/-- `byId.get(id)` -/
def byId (frames : List Frame) (id : FrameId) : Option Frame := frames.find? fun f ↦ f.id == id

theorem byId_eq_some {frames : List Frame} {id : FrameId} {f : Frame} (h : byId frames id = some f) :
    f.id = id ∧ f ∈ frames :=
  ⟨by simpa using List.find?_some h, List.mem_of_find?_eq_some h⟩

/-- The requests of a list of frames, in its order. -/
def outgoingList (ch : Chains) (frames : List Frame) : List Outgoing :=
  frames.filterMap (outgoingOf ch (byId frames))

/-- The deliveries of a list of frames, in its order. -/
def incomingList (ch : Chains) (frames : List Frame) : List Incoming :=
  frames.filterMap (incomingOf ch (byId frames))

theorem outgoingOf_eq_some {ch : Chains} {lookup : FrameId → Option Frame} {f : Frame} {o : Outgoing}
    (h : outgoingOf ch lookup f = some o) :
    o.managerFrameId = f.id ∧ ∃ parent, lookup ⟨f.id.chain, f.id.hash, f.id.path.tail⟩ = some parent ∧
      o.frameId = parent.id := by
  rw [outgoingOf] at h
  simp only [Option.bind_eq_bind, Option.bind_eq_some_iff, Option.ite_none_right_eq_some,
    Option.some.injEq] at h
  obtain ⟨parsed, -, -, parent, hparent, -, info, -, -, rfl⟩ := h
  exact ⟨rfl, parent, hparent, rfl⟩

theorem incomingOf_eq_some {ch : Chains} {lookup : FrameId → Option Frame} {f : Frame} {i : Incoming}
    (h : incomingOf ch lookup f = some i) :
    i.id = f.id ∧ ∃ target ∈ f.children.filterMap lookup, i.frameId = target.id := by
  rw [incomingOf] at h
  simp only [Option.bind_eq_bind, Option.bind_eq_some_iff, Option.ite_none_right_eq_some] at h
  obtain ⟨-, forwarded, -, info, -, h⟩ := h
  split at h
  · rename_i target htargets
    obtain rfl := Option.some.inj h
    exact ⟨rfl, target, List.mem_of_mem_filter (htargets ▸ List.mem_singleton_self target), rfl⟩
  · exact absurd h (by simp)

/-- What a list is read off keeps the names of its elements. -/
theorem filterMap_names {α β κ : Type} {f : α → Option β} {name : α → κ} {name' : β → κ}
    (h : ∀ a b, f a = some b → name' b = name a) (l : List α) :
    ((l.filterMap f).map name').Sublist (l.map name) := by
  induction l with
  | nil => exact List.Sublist.refl _
  | cons a l ih =>
    rw [List.filterMap_cons, List.map_cons]
    cases hb : f a with
    | none => exact ih.cons _
    | some b =>
      rw [← h a b hb]
      exact ih.cons_cons _

/-- Transactions with their traces, each transaction once. -/
structure Traces where
  chains : Chains
  transactions : List Transaction
  distinct : (transactions.map Transaction.key).Nodup

/-- The frames of the traces. -/
def Traces.frames (t : Traces) : List Frame :=
  allFrames t.chains.toProtocol (fun _ ↦ none) t.transactions

/-- The graph of a set of traces. -/
def Traces.graph (t : Traces) : Graph where
  chains := t.chains
  transactions := t.transactions
  frames := t.frames
  outgoing := outgoingList t.chains t.frames
  incoming := incomingList t.chains t.frames
  frames_nodup := allFrames_nodup _ _ t.distinct
  outgoing_nodup := (allFrames_nodup _ _ t.distinct).sublist
    (filterMap_names (fun _ _ h ↦ (outgoingOf_eq_some h).1) _)
  incoming_nodup := (allFrames_nodup _ _ t.distinct).sublist
    (filterMap_names (fun _ _ h ↦ (incomingOf_eq_some h).1) _)

/-- A request and the delivery it was paired with. -/
abbrev Pair := Outgoing × Incoming

/-- `assigned.get(id)` -/
def assigned (st : List Pair) (id : FrameId) : Option FrameId :=
  (st.find? fun p ↦ p.1.id == id).map fun p ↦ p.2.id

/-- `used.has(inc.id)` -/
def used (st : List Pair) (i : Incoming) : Bool := st.any fun p ↦ p.2.id == i.id

namespace Graph

variable (g : Graph)

/-! ## Enclosure -/

/-- `incomingByFrame.get(id)`: of several deliveries to one frame the last one counts. -/
def incomingByFrame (id : FrameId) : Option Incoming :=
  g.incoming.reverse.find? fun i ↦ i.frameId == id

/-- `outgoingByFrame.get(id)`: of several requests of one frame the last one counts. -/
def outgoingByFrame (id : FrameId) : Option Outgoing :=
  g.outgoing.reverse.find? fun o ↦ o.frameId == id

/-- The frames above a path, the nearest first. -/
def ancestorsOf (chain : Chain) (hash : Hex) : List ℕ → List Frame
  | [] => []
  | _ :: path =>
    match byId g.frames ⟨chain, hash, path⟩ with
    | some parent => parent :: ancestorsOf chain hash path
    | none => []

/-- `ancestors(frame)`; the frame itself is not among them. -/
def ancestors (id : FrameId) : List Frame := g.ancestorsOf id.chain id.hash id.path

/-- `nearestIncoming(out)` -/
def nearestIncoming (o : Outgoing) : Option Incoming :=
  (g.ancestors o.frameId).findSome? fun f ↦ g.incomingByFrame f.id

/-- `nearestOutgoing(inc)` -/
def nearestOutgoing (i : Incoming) : Option Outgoing :=
  (g.ancestors i.frameId).findSome? fun f ↦ g.outgoingByFrame f.id

/-! ## Availability -/

/-- `compatibleScope` -/
def compatibleScope (o : Outgoing) (i : Incoming) : Bool :=
  !g.chains.matchingDisabled &&
    (g.chains.transactionLinks.all fun link ↦ link.l1Execution.all fun host ↦
      (if o.frameId.chain = .l1 then o.frameId else i.frameId).within host) &&
    if !g.chains.transactionLinks.isEmpty || !g.chains.settlements.isEmpty then
      o.settlementIds.any fun s ↦ i.settlementIds.contains s
    else
      !i.tableRows.isEmpty &&
        (((i.generationId.bind g.chains.tables).elim [] Table.rows).any fun r ↦
          i.tableRows.contains r.id) &&
        !o.entryCandidates.isEmpty

/-- Equal error flags and equal outputs. -/
def sameResult (o : Outgoing) (i : Incoming) : Bool :=
  match byId g.frames o.frameId, byId g.frames i.frameId with
  | some source, some target =>
    source.failed == target.failed && same (some source.output) (some target.output)
  | _, _ => false

/-- What a request and a delivery show of each other, whatever has been paired. -/
def agrees (o : Outgoing) (i : Incoming) : Bool :=
  o.frameId.chain != i.frameId.chain && sameIdentity o.call i.call && g.compatibleScope o i &&
    g.sameResult o i

/-- Whether the enclosing calls leave a delivery to a request. -/
def released (st : List Pair) (o : Outgoing) (i : Incoming) : Bool :=
  let localParent := g.nearestIncoming o
  let remoteParent := g.nearestOutgoing i
  let remoteAssigned := remoteParent.bind fun r ↦ assigned st r.id
  if localParent.isSome && remoteAssigned.isSome then remoteAssigned == localParent.map Incoming.id
  else
    let matchedParent := localParent.bind fun l ↦
      g.outgoing.find? fun o' ↦ assigned st o'.id == some l.id
    if matchedParent.isSome then remoteParent.map Outgoing.id == matchedParent.map Outgoing.id
    else if remoteAssigned.isSome then localParent.map Incoming.id == remoteAssigned
    else localParent.isNone && remoteParent.isNone

/-- `available(out)` -/
def available (st : List Pair) (o : Outgoing) : List Incoming :=
  g.incoming.filter fun i ↦ !used st i && g.agrees o i && g.released st o i

/-! ## The loop -/

/-- The requests without a delivery. -/
def pending (st : List Pair) : List Outgoing :=
  g.outgoing.filter fun o ↦ (assigned st o.id).isNone

/-- The pending requests a delivery is available to. -/
def contenders (pending : List Outgoing) (st : List Pair) (i : Incoming) : List Outgoing :=
  pending.filter fun o ↦ (assigned st o.id).isNone && (g.available st o).any fun j ↦ j.id == i.id

/-- One request of the first rule. -/
def visit (pending : List Outgoing) (st : List Pair) (o : Outgoing) : List Pair :=
  match g.available st o with
  | [i] => if (g.contenders pending st i).length = 1 then (o, i) :: st else st
  | _ => st

/-- The first rule, for all pending requests. -/
def uniquePass (st : List Pair) : List Pair := (g.pending st).foldl (g.visit (g.pending st)) st

/-- The place of a delivery in physical order. -/
def position (i : Incoming) : ℕ ×ₗ ℕ ×ₗ ℕ :=
  let target := byId g.frames i.frameId
  toLex (target.elim 0 Frame.blockNumber,
    toLex (target.elim 0 Frame.transactionIndex, (g.frames.map Frame.id).idxOf i.frameId))

/-- Entry indices that are safe integers, each larger than the one before. -/
def increasing (indices : List (Option ℕ)) : Bool :=
  indices.all Option.isSome && decide (indices.reduceOption.Pairwise (· < ·))

/-- The requests the second rule considers together. -/
def group (pending : List Outgoing) (st : List Pair) (first : Outgoing) : List Outgoing :=
  pending.filter fun o ↦ (assigned st o.id).isNone && o.generationId == first.generationId &&
    sameIdentity first.call o.call

/-- Whether a transaction in the scope of a request has no trace. -/
def untraced (first : Outgoing) : Bool :=
  g.transactions.any fun tx ↦ tx.trace.isNone &&
    (g.chains.scopes tx.chain tx.hash tx.blockNumber
      (first.generationId.filter fun id ↦ (g.chains.tables id).isSome)).any fun s ↦
        first.settlementIds.contains s

/-- The second rule: the pairs of the group of a request, when everything about it is in order. -/
def orderedGroup (pending : List Outgoing) (st : List Pair) (first : Outgoing) :
    Option (List Pair) := do
  let group := group pending st first
  guard (2 ≤ group.length ∧ first.settlementIds.length = 1)
  guard (group.all fun o ↦ o.consumed.length == 1 && (g.nearestIncoming o).isNone)
  guard (!g.untraced first)
  guard ((first.entryCandidates.filter fun e ↦ e.pool == .entries).length = group.length)
  guard (increasing (group.flatMap Outgoing.consumed))
  let candidates := g.available st first
  guard (candidates.length = group.length ∧ candidates.all fun i ↦
    i.settlementIds.length == 1 && (g.nearestOutgoing i).isNone && !i.tableRows.isEmpty)
  guard (pending.all fun o ↦ group.contains o ||
    !(g.available st o).any fun i ↦ candidates.contains i)
  let sorted := candidates.insertionSort fun i j ↦ g.position i ≤ g.position j
  guard (first.frameId.chain = .l1 → (sorted.map Incoming.generationId).Nodup)
  guard (first.frameId.chain = .l2 → (sorted.map Incoming.generationId).dedup.length = 1)
  guard ((group.zip sorted).all fun p ↦ (g.available st p.1).contains p.2)
  some (group.zip sorted)

/-- The second rule for the group of one request. -/
def visitGroup (pending : List Outgoing) (st : List Pair) (first : Outgoing) : List Pair :=
  match g.orderedGroup pending st first with
  | some pairs => pairs.reverse ++ st
  | none => st

/-- The second rule, for the groups of all requests still pending. -/
def orderedPass (pending : List Outgoing) (st : List Pair) : List Pair :=
  (pending.filter fun o ↦ (assigned st o.id).isNone).foldl (g.visitGroup pending) st

/-- One round: the second rule is tried when the first makes no progress. -/
def round (st : List Pair) : List Pair :=
  if (g.uniquePass st).length = st.length then g.orderedPass (g.pending st) st else g.uniquePass st

/-- The pairs made when no round makes progress any more. -/
def matchLoop : List Pair := g.round^[g.incoming.length] []

/-- The delivery a request was matched with: its status is `matched` when there is one, and
`remoteFrameId` is the frame of the delivery. -/
def remote (o : Outgoing) : Option Incoming := (g.matchLoop.find? fun p ↦ p.1 == o).map Prod.snd

end Graph

end TraceDecoder
