import EezDashboard.Trace.Completeness
import EezDashboard.Finite.Forest
import Mathlib.Data.Fintype.Order

/-!
# Moving delivered executions under their requests

After the matching, `buildGraph` takes the target frame of every matched delivery from its physical parent
and puts it under the proxy frame of its request.  The frames are then to be walked from the roots.

Each frame still has one place.  But it can lie below itself: the target `x` of one delivery is the proxy
of a request that was matched with a delivery whose target `y` is the proxy of the request `x` was
delivered for.  Enclosure is judged strictly above a frame, so the law of the pairs does not exclude such a
ring, and neither `x` nor `y` nor anything below them is reached from a root.
-/

set_option autoImplicit false

namespace TraceDecoder

namespace Graph

variable (g : Graph)

/-! ## The logical graph -/

/-- `relocated.has(child)` -/
def relocated (c : FrameId) : Bool :=
  g.outgoing.any fun o ↦ (g.remote o).any fun i ↦ i.frameId == c

/-- The children of a frame that stay, with the delivery its request was matched with in front of the call
of the manager. -/
def logicalChildren (f : Frame) : List FrameId :=
  let kept := f.children.filter fun c ↦ !g.relocated c
  match g.outgoingByFrame f.id with
  | none => kept
  | some o =>
    match g.remote o with
    | none => kept
    | some i =>
      kept.insertIdx (if kept.contains o.managerFrameId then kept.idxOf o.managerFrameId else 0)
        i.frameId

/-- `logicalNodes`, by name. -/
def nodeChildren (id : FrameId) : List FrameId := (byId g.frames id).elim [] g.logicalChildren

/-- Walking from the logical roots, which are the physical ones, reaches every frame exactly once. -/
def LogicalForest : Prop :=
  ∀ n, g.frames.length ≤ n →
    (Forest.walk g.nodeChildren n (physicalRoots g.transactions)).Perm (g.frames.map Frame.id)

/-! ## Rings -/

/-- What makes the frames a tree, and where deliveries lie in it. -/
structure Physical : Prop where
  child : ∀ f ∈ g.frames, ∀ c ∈ f.children, c.parent = f.id ∧ c ∈ g.frames.map Frame.id
  parent : ∀ f ∈ g.frames, f.id ∈ physicalRoots g.transactions ∨ ∃ p ∈ g.frames, f.id ∈ p.children
  nodup : ∀ f ∈ g.frames, f.children.Nodup
  path : ∀ f ∈ g.frames, f.id.path ≠ []
  root : ∀ id ∈ physicalRoots g.transactions, id ∈ g.frames.map Frame.id
  roots_nodup : (physicalRoots g.transactions).Nodup
  request : ∀ o ∈ g.outgoing, o.frameId ∈ g.frames.map Frame.id
  delivery : ∀ i ∈ g.incoming, ∃ f ∈ g.frames, f.id = i.proxyFrameId ∧ i.frameId ∈ f.children

end Graph

/-- What a frame lies in, other than itself, its parent lies in. -/
theorem FrameId.parent_within {c d : FrameId} (h : c.within d = true) (hne : c ≠ d) :
    c.parent.within d = true := by
  rw [FrameId.within_iff] at h ⊢
  obtain ⟨hc, hh, hs⟩ := h
  refine ⟨hc, hh, ?_⟩
  cases hpath : c.path with
  | nil =>
    rw [hpath, List.suffix_nil] at hs
    exact absurd (by cases c; cases d; simp_all) hne
  | cons k path =>
    rw [hpath, List.suffix_cons_iff] at hs
    rcases hs with hs | hs
    · exact absurd (by cases c; cases d; simp_all) hne
    · rwa [FrameId.parent, hpath]

namespace Graph

variable {g : Graph}

theorem byId_of_mem {f : Frame} (hf : f ∈ g.frames) : byId g.frames f.id = some f := by
  have hsome : (byId g.frames f.id).isSome = true := by
    rw [byId, List.find?_isSome]
    exact ⟨f, hf, by simp⟩
  obtain ⟨f', hf'⟩ := Option.isSome_iff_exists.1 hsome
  obtain ⟨hid, hmem⟩ := byId_eq_some hf'
  rw [hf', List.inj_on_of_nodup_map g.frames_nodup hmem hf hid]

namespace Physical

/-- Two deliveries do not have one target frame. -/
theorem delivery_inj (hp : g.Physical) {i j : Incoming} (hi : i ∈ g.incoming) (hj : j ∈ g.incoming)
    (h : i.frameId = j.frameId) : i = j := by
  obtain ⟨f, hf, hfid, hchild⟩ := hp.delivery i hi
  obtain ⟨f', hf', hfid', hchild'⟩ := hp.delivery j hj
  refine incoming_inj hi hj ?_
  rw [Incoming.id, Incoming.id, ← hfid, ← hfid', ← (hp.child f hf _ hchild).1,
    ← (hp.child f' hf' _ hchild').1, h]

/-- A child is not a root. -/
theorem not_root (hp : g.Physical) {f : Frame} (hf : f ∈ g.frames) {c : FrameId} (hc : c ∈ f.children) :
    c ∉ physicalRoots g.transactions := by
  intro hroot
  obtain ⟨tx, -, rfl⟩ := List.mem_map.1 hroot
  have hparent := (hp.child f hf _ hc).1
  exact hp.path f hf (by rw [← hparent]; rfl)

/-- Each frame is a root or the child of one frame. -/
theorem place (hp : g.Physical) :
    (physicalRoots g.transactions ++ g.frames.flatMap Frame.children).Perm (g.frames.map Frame.id) := by
  refine (List.perm_ext_iff_of_nodup ?_ g.frames_nodup).2 ?_
  · refine hp.roots_nodup.append ?_ ?_
    · refine List.nodup_flatMap.2 ⟨hp.nodup, ?_⟩
      have hids : g.frames.Pairwise fun f f' ↦ f.id ≠ f'.id := List.pairwise_map.1 g.frames_nodup
      refine hids.imp_of_mem ?_
      intro f f' hf hf' hne c hc hc'
      exact hne ((hp.child f hf c hc).1.symm.trans (hp.child f' hf' c hc').1)
    · intro c hroot hc
      obtain ⟨f, hf, hc⟩ := List.mem_flatMap.1 hc
      exact hp.not_root hf hc hroot
  · intro id
    rw [List.mem_append, List.mem_flatMap]
    constructor
    · rintro (hroot | ⟨f, hf, hc⟩)
      · exact hp.root id hroot
      · exact (hp.child f hf id hc).2
    · intro hid
      obtain ⟨f, hf, rfl⟩ := List.mem_map.1 hid
      exact hp.parent f hf

end Physical

/-! ## Each frame keeps one place -/

/-- The delivery put under a frame. -/
def grafted (g : Graph) (f : Frame) : List FrameId :=
  (((g.outgoingByFrame f.id).bind g.remote).map Incoming.frameId).toList

theorem logicalChildren_perm (f : Frame) :
    (g.logicalChildren f).Perm ((f.children.filter fun c ↦ !g.relocated c) ++ g.grafted f) := by
  rw [logicalChildren, grafted]
  cases ho : g.outgoingByFrame f.id with
  | none => simp
  | some o =>
    cases hi : g.remote o with
    | none => simp [hi]
    | some i =>
      simp only [Option.bind_some, hi, Option.map_some, Option.toList_some]
      refine (List.perm_insertIdx _ _ ?_).trans (List.perm_append_singleton _ _).symm
      split
      · exact List.idxOf_le_length
      · exact Nat.zero_le _

theorem relocated_iff (hg : g.Contiguous) {c : FrameId} :
    g.relocated c = true ↔ ∃ p ∈ g.matchLoop, p.2.frameId = c := by
  have hlaw := (matchLoop_alwaysLawful hg).now
  simp only [relocated, List.any_eq_true, Option.any_eq_true, beq_iff_eq, remote_eq_some hg]
  constructor
  · rintro ⟨o, -, i, hmem, rfl⟩
    exact ⟨(o, i), hmem, rfl⟩
  · rintro ⟨p, hp, rfl⟩
    exact ⟨p.1, hlaw.outgoing p hp, p.2, hp, rfl⟩

theorem outgoingByFrame_of_mem (hone : (g.outgoing.map Outgoing.id).Nodup) {o : Outgoing}
    (ho : o ∈ g.outgoing) : g.outgoingByFrame o.frameId = some o := by
  have hsome : (g.outgoingByFrame o.frameId).isSome = true := by
    rw [outgoingByFrame, List.find?_isSome]
    exact ⟨o, List.mem_reverse.2 ho, by simp⟩
  obtain ⟨o', ho'⟩ := Option.isSome_iff_exists.1 hsome
  obtain ⟨hmem, hid⟩ := outgoingByFrame_eq_some ho'
  rw [ho', request_inj hone hmem ho hid]

theorem mem_grafted (hg : g.Contiguous) {f : Frame} {c : FrameId} (h : c ∈ g.grafted f) :
    ∃ p ∈ g.matchLoop, p.1.frameId = f.id ∧ p.2.frameId = c := by
  rw [grafted, Option.mem_toList, Option.map_eq_some_iff] at h
  obtain ⟨i, hi, rfl⟩ := h
  obtain ⟨o, ho, hoi⟩ := Option.bind_eq_some_iff.1 hi
  exact ⟨(o, i), (remote_eq_some hg).1 hoi, (outgoingByFrame_eq_some ho).2, rfl⟩

section Place

variable (hg : g.Contiguous) (hp : g.Physical) (hone : (g.outgoing.map Outgoing.id).Nodup)

/-- No two pairs deliver to one frame. -/
theorem pair_inj (hg : g.Contiguous) (hp : g.Physical) {p q : Pair} (hp' : p ∈ g.matchLoop)
    (hq : q ∈ g.matchLoop) (h : p.2.frameId = q.2.frameId) : p = q := by
  have hlaw := (matchLoop_alwaysLawful hg).now
  have heq := hp.delivery_inj (hlaw.incoming p hp') (hlaw.incoming q hq) h
  exact List.inj_on_of_nodup_map hlaw.deliveries hp' hq (congrArg Incoming.id heq)

end Place

/-! ## Climbing comes to an end -/

/-- The logical parent of a frame: its physical one, or the request it was delivered for. -/
theorem parent_cases (hg : g.Contiguous) (hp : g.Physical) {p c : FrameId}
    (h : Forest.Parent g.nodeChildren p c) :
    (g.relocated c = false ∧ c.parent = p ∧ c ≠ p ∧ ∃ f ∈ g.frames, c ∈ f.children) ∨
      ∃ q ∈ g.matchLoop, q.1.frameId = p ∧ q.2.frameId = c := by
  rw [Forest.Parent, nodeChildren] at h
  cases hf : byId g.frames p with
  | none => simp [hf] at h
  | some f =>
    rw [hf, Option.elim_some, (logicalChildren_perm f).mem_iff, List.mem_append] at h
    obtain ⟨hid, hmem⟩ := byId_eq_some hf
    rcases h with h | h
    · obtain ⟨hc, hrel⟩ := List.mem_filter.1 h
      have hparent := (hp.child f hmem c hc).1
      refine Or.inl ⟨by simpa using hrel, hparent.trans hid, ?_, f, hmem, hc⟩
      rintro rfl
      have hpath := hp.path f hmem
      rw [hid] at hpath hparent
      have hlen := congrArg (fun id ↦ id.path.length) hparent
      have hpos := List.length_pos_iff.2 hpath
      rw [FrameId.parent, List.length_tail] at hlen
      omega
    · obtain ⟨q, hq, hqf, hqc⟩ := mem_grafted hg h
      exact Or.inr ⟨q, hq, hqf.trans hid, hqc⟩

/-- A frame has one logical parent. -/
theorem parent_unique (hg : g.Contiguous) (hp : g.Physical) (p q c : FrameId)
    (h : Forest.Parent g.nodeChildren p c) (h' : Forest.Parent g.nodeChildren q c) : p = q := by
  rcases parent_cases hg hp h with ⟨hrel, rfl, -⟩ | ⟨x, hx, rfl, hxc⟩ <;>
    rcases parent_cases hg hp h' with ⟨hrel', rfl, -⟩ | ⟨y, hy, rfl, hyc⟩
  · rfl
  · exact absurd ((relocated_iff hg).2 ⟨y, hy, hyc⟩) (by simp [hrel])
  · exact absurd ((relocated_iff hg).2 ⟨x, hx, hxc⟩) (by simp [hrel'])
  · rw [pair_inj hg hp hx hy (hxc.trans hyc.symm)]

/-- A frame inside another that is not its own parent is not a root. -/
theorem Physical.mem_children (hp : g.Physical) {c d : FrameId} (hc : c ∈ g.frames.map Frame.id)
    (hd : d ∈ g.frames.map Frame.id) (hw : c.within d = true) (hne : c ≠ d) :
    ∃ f ∈ g.frames, c ∈ f.children := by
  obtain ⟨f, hf, rfl⟩ := List.mem_map.1 hc
  rcases hp.parent f hf with hroot | ⟨p, hpm, hchild⟩
  · obtain ⟨tx, -, hid⟩ := List.mem_map.1 hroot
    obtain ⟨f', hf', rfl⟩ := List.mem_map.1 hd
    have hw' := FrameId.within_iff.1 (FrameId.parent_within hw hne)
    rw [← hid] at hw'
    exact absurd (List.suffix_nil.1 hw'.2.2) (hp.path f' hf')
  · exact ⟨p, hpm, hchild⟩

theorem Physical.parent_mem (hp : g.Physical) {c d : FrameId} (hc : c ∈ g.frames.map Frame.id)
    (hd : d ∈ g.frames.map Frame.id) (hw : c.within d = true) (hne : c ≠ d) :
    ∃ f, byId g.frames c.parent = some f ∧ f.id = c.parent := by
  obtain ⟨f, hf, hchild⟩ := hp.mem_children hc hd hw hne
  have hparent := (hp.child f hf c hchild).1
  exact ⟨f, by rw [hparent]; exact byId_of_mem hf, hparent.symm⟩

end Graph

end TraceDecoder
