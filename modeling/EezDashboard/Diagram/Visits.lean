import EezDashboard.Diagram.Represented

/-!
# Visits of a forest

What a visit adds to the drawing, from one visit to the whole diagram.
-/

set_option autoImplicit false

namespace Diagram

open Forest (Lists Parent walk)
open LogicalTrace (FoldedInto HangsBelow LogicalForest Opens children ids)

variable {trace : LogicalTrace} {cross : FrameId → Option Outgoing} {d d' d'' : Drawing} {node : FlowNode}
  {cs cs' kept folded l l' m seen : List FrameId} {is is' js js' : List ℕ} {levels k : ℕ} {frame : Frame}
  {visit : Drawing → FrameId → Option ℕ × Drawing}

/-! ## Growth -/

/-- From `d` to `d'` the nodes `js` have been drawn behind the others. -/
structure Grown (trace : LogicalTrace) (cross : FrameId → Option Outgoing) (d : Drawing) (cs l : List FrameId)
    (is js : List ℕ) (d' : Drawing) : Prop where
  le : d.nodes.length ≤ d'.nodes.length
  old : ∀ i < d.nodes.length, nodeAt d'.nodes i = nodeAt d.nodes i
  seen : ∀ id, id ∈ d'.seen ↔ id ∈ d.seen ∨ id ∈ l
  new : ∀ i, i ∈ js ↔ d.nodes.length ≤ i ∧ i < d'.nodes.length
  drawn : Drawn trace cross d'.nodes cs l is js

theorem Grown.nil : Grown trace cross d [] [] [] [] d :=
  ⟨le_refl _, fun _ _ ↦ rfl, fun _ ↦ by simp, fun i ↦ ⟨nofun, fun h ↦ by omega⟩, .nil⟩

theorem Grown.append (h : Grown trace cross d cs l is js d') (h' : Grown trace cross d' cs' l' is' js' d'') :
    Grown trace cross d (cs ++ cs') (l ++ l') (is ++ is') (js ++ js') d'' := by
  have hle := h.le
  have hle' := h'.le
  constructor
  · exact hle.trans hle'
  · exact fun i hi ↦ (h'.old i (by omega)).trans (h.old i hi)
  · intro id
    rw [h'.seen, h.seen, List.mem_append, or_assoc]
  · intro i
    rw [List.mem_append, h.new, h'.new]
    omega
  · refine (h.drawn.congr fun i hi ↦ h'.old i ((h.new i).1 hi).2).append h'.drawn fun i hi hi' ↦ ?_
    have hlt := ((h.new i).1 hi).2
    have hge := ((h'.new i).1 hi').1
    omega

/-- A visit draws what it visits, of what is new and lists no more frames than it has levels. -/
def Draws (trace : LogicalTrace) (levels : ℕ) (cross : FrameId → Option Outgoing)
    (visit : Drawing → FrameId → Option ℕ × Drawing) : Prop :=
  ∀ d c l, Lists trace.children [c] l → l.Nodup → (∀ id ∈ l, id ∉ d.seen) → l ⊆ trace.ids → l.length ≤ levels →
    ∃ i js d', visit d c = (some i, d') ∧ Grown trace cross d [c] l [i] js d'

theorem Draws.all (h : Draws trace levels cross visit) (hl : Lists trace.children cs l) (hnodup : l.Nodup)
    (hnew : ∀ id ∈ l, id ∉ d.seen) (hsub : l ⊆ trace.ids) (hlevels : l.length ≤ levels) :
    ∃ is js d', visitAll visit d cs = (is, d') ∧ Grown trace cross d cs l is js d' := by
  induction cs generalizing d l with
  | nil =>
    obtain rfl := hl.nil_inv
    exact ⟨[], [], d, rfl, .nil⟩
  | cons c cs ih =>
    have hboth : Lists trace.children ([c] ++ cs) l := hl
    obtain ⟨m, n, rfl, hm, hn⟩ := hboth.split
    obtain ⟨hm', hn', hdisjoint⟩ := List.nodup_append'.1 hnodup
    obtain ⟨hnewm, hnewn⟩ := List.forall_mem_append.1 hnew
    obtain ⟨hsubm, hsubn⟩ := List.append_subset.1 hsub
    rw [List.length_append] at hlevels
    obtain ⟨i, js, d', hvisit, hgrown⟩ := h d c m hm hm' hnewm hsubm (by omega)
    have hnewn' : ∀ id ∈ n, id ∉ d'.seen := fun id hid hseen ↦
      ((hgrown.seen id).1 hseen).elim (hnewn id hid) fun hid' ↦ hdisjoint hid' hid
    obtain ⟨is', js', d'', hvisits, hgrown'⟩ := ih hn hn' hnewn' hsubn (by omega)
    refine ⟨i :: is', js ++ js', d'', ?_, hgrown.append hgrown'⟩
    rw [visitAll, hvisit]
    simp only [hvisits, Option.toList_some, List.singleton_append]

/-- What is visited next is new when it was not listed before. -/
theorem Draws.next (h : Draws trace levels cross visit) (hgrown : Grown trace cross d cs l is js d')
    (hl' : Lists trace.children cs' l') (hnodup : (l ++ l').Nodup) (hnew : ∀ id ∈ l', id ∉ d.seen)
    (hsub : l' ⊆ trace.ids) (hlevels : l'.length ≤ levels) :
    ∃ is' js' d'', visitAll visit d' cs' = (is', d'') ∧ Grown trace cross d' cs' l' is' js' d'' := by
  obtain ⟨-, hl'nodup, hdisjoint⟩ := List.nodup_append'.1 hnodup
  refine h.all hl' hl'nodup (fun id hid hseen ↦ ?_) hsub hlevels
  exact ((hgrown.seen id).1 hseen).elim (hnew id hid) fun hid' ↦ hdisjoint hid' hid

/-- The request that crosses to a frame. -/
def crossingOf (out : Option Outgoing) (c : FrameId) : Option Outgoing :=
  out.filter fun out ↦ out.status = .matched && out.remoteFrameId = some c

theorem Draws.crossing (h : Draws trace levels (fun _ ↦ none) visit) (out : Option Outgoing) :
    Draws trace levels (crossingOf out) (visitCrossing visit out) := by
  intro d c l hl hnodup hnew hsub hlevels
  obtain ⟨i, js, d', hvisit, hgrown⟩ := h d c l hl hnodup hnew hsub hlevels
  have hkeep (hnone : crossingOf out c = none) : Grown trace (crossingOf out) d [c] l [i] js d' := by
    have hdrawn := hgrown.drawn
    refine ⟨hgrown.le, hgrown.old, hgrown.seen, hgrown.new, hdrawn.lists, hdrawn.nodup, hdrawn.frames, ?_,
      hdrawn.represents, hdrawn.good⟩
    rw [hdrawn.crossings, List.map_singleton, List.map_singleton, hnone]
  cases out with
  | none => exact ⟨i, js, d', by simp only [visitCrossing, hvisit], hkeep rfl⟩
  | some out =>
    by_cases hcross : out.status = .matched ∧ out.remoteFrameId = some c
    · have hi : d.nodes.length ≤ i ∧ i < d'.nodes.length :=
        (hgrown.new i).1 (hgrown.drawn.lists.subset (List.mem_singleton_self i))
      have hne (j : ℕ) (hj : j ≠ i) : nodeAt (d'.setCrossing i out).nodes j = nodeAt d'.nodes j :=
        nodeAt_modify_of_ne hj _
      have hlength : (d'.setCrossing i out).nodes.length = d'.nodes.length := List.length_modify _ _ _
      refine ⟨i, js, d'.setCrossing i out, by simp only [visitCrossing, hvisit, if_pos hcross], ?_⟩
      refine ⟨by rw [hlength]; exact hgrown.le, fun j hj ↦ ?_, hgrown.seen, by rw [hlength]; exact hgrown.new, ?_⟩
      · exact (hne j (by omega)).trans (hgrown.old j hj)
      · exact hgrown.drawn.setCrossing hne (nodeAt_modify hi.2 _) (by simp [crossingOf, Option.filter, hcross])
    · refine ⟨i, js, d', by simp only [visitCrossing, hvisit, if_neg hcross], hkeep ?_⟩
      simpa [crossingOf, Option.filter] using hcross

/-! ## One visit -/

/-- The node of a frame, drawn before what is drawn for the children that it keeps. -/
theorem Grown.call (hframe : trace.frame frame.id = some frame) (hid : node.frameId = some frame.id)
    (hcrossing : node.crossing = none) (hopens : trace.Opens frame (trace.children frame.id) kept node.folded)
    (hperm : (node.folded ++ m).Perm l)
    (hseen : ∀ id, id ∈ seen ↔ id ∈ frame.id :: d.seen ∨ id ∈ node.folded)
    (h : Grown trace cross ⟨d.nodes ++ [node], seen⟩ kept m is js d')
    (hshows : ∀ nodes, Drawn trace cross nodes kept m is js → Shows trace nodes frame { node with children := is }) :
    Grown trace (fun _ ↦ none) d [frame.id] (frame.id :: l) [d.nodes.length] (d.nodes.length :: js)
      (d'.setChildren d.nodes.length is) := by
  have hle := h.le
  have hlength : (d'.setChildren d.nodes.length is).nodes.length = d'.nodes.length := List.length_modify _ _ _
  simp only [List.length_append, List.length_singleton] at hle
  have hne (i : ℕ) (hi : i ≠ d.nodes.length) :
      nodeAt (d'.setChildren d.nodes.length is).nodes i = nodeAt d'.nodes i := nodeAt_modify_of_ne hi _
  have hself : nodeAt (d'.setChildren d.nodes.length is).nodes d.nodes.length = { node with children := is } := by
    have hnode : nodeAt d'.nodes d.nodes.length = node :=
      (h.old d.nodes.length (by simp)).trans (nodeAt_length d.nodes [] node)
    refine (nodeAt_modify (by omega) _).trans ?_
    rw [hnode]
  have hnew (i : ℕ) : i ∈ js ↔ d.nodes.length + 1 ≤ i ∧ i < d'.nodes.length := by simpa using h.new i
  have hdrawn := h.drawn.congr fun i hi ↦ hne i (by have := (hnew i).1 hi; omega)
  constructor
  · omega
  · intro i hi
    refine (hne i (by omega)).trans ((h.old i (by simp; omega)).trans ?_)
    exact nodeAt_append_left hi
  · intro id
    have hl : id ∈ l ↔ id ∈ node.folded ∨ id ∈ m := by rw [← hperm.mem_iff, List.mem_append]
    have hsetSeen : (d'.setChildren d.nodes.length is).seen = d'.seen := rfl
    rw [hsetSeen, h.seen, List.mem_cons, hl]
    simp only [hseen, List.mem_cons]
    tauto
  · intro i
    rw [List.mem_cons, hnew, hlength]
    omega
  · refine Drawn.call hframe hdrawn (fun hk ↦ ?_) hopens hperm ?_ ?_ ?_ ?_ (hself ▸ hshows _ hdrawn)
    · have := (hnew _).1 hk
      omega
    · rw [frameAt, hself, hid]
    · rw [hself]
    · rw [childrenAt, hself]
    · rw [crossingAt, hself, hcrossing]

section Ghost

variable {da : Drawing} {rs gs : List ℕ} {out : Outgoing}

/-- The drawing in which a node and its ghost, the next one, have been given their children. -/
def linked (da : Drawing) (k : ℕ) (rs gs : List ℕ) : Drawing := (da.setChildren k rs).setChildren (k + 1) gs

theorem length_linked : (linked da k rs gs).nodes.length = da.nodes.length := by
  simp [linked, Drawing.setChildren]

theorem nodeAt_linked {i : ℕ} (hi : i ≠ k) (hi' : i ≠ k + 1) :
    nodeAt (linked da k rs gs).nodes i = nodeAt da.nodes i :=
  (nodeAt_modify_of_ne hi' _).trans (nodeAt_modify_of_ne hi _)

theorem nodeAt_linked_self (hk : k < da.nodes.length) :
    nodeAt (linked da k rs gs).nodes k = { nodeAt da.nodes k with children := rs } :=
  (nodeAt_modify_of_ne (Nat.succ_ne_self k).symm _).trans (nodeAt_modify hk _)

theorem nodeAt_linked_ghost (hk : k + 1 < da.nodes.length) :
    nodeAt (linked da k rs gs).nodes (k + 1) = { nodeAt da.nodes (k + 1) with children := gs } := by
  refine (nodeAt_modify (by simpa [Drawing.setChildren] using hk) _).trans ?_
  rw [Drawing.setChildren, nodeAt_modify_of_ne (Nat.succ_ne_self k)]

/-- The nodes of a frame and its ghost stand behind those that were there. -/
theorem nodeAt_pair (hk : k = d.nodes.length) (node : FlowNode) (out : Outgoing) :
    nodeAt (d.nodes ++ [node, { crossing := some out }]) k = node ∧
      nodeAt (d.nodes ++ [node, { crossing := some out }]) (k + 1) = { crossing := some out } := by
  subst hk
  refine ⟨nodeAt_length d.nodes _ node, ?_⟩
  have hsplit : d.nodes ++ [node, { crossing := some out }] = (d.nodes ++ [node]) ++ [{ crossing := some out }] := by
    simp
  have hat : d.nodes.length + 1 = (d.nodes ++ [node]).length := by simp
  rw [hsplit, hat, nodeAt_length]

variable {before manager after mb mm ma : List FrameId} {rb rm ra jb jm ja : List ℕ} {db dm : Drawing}

/-- What three visits have drawn stays drawn while their nodes stay. -/
theorem Grown.drawn_of_late {nodes : List FlowNode} (hb : Grown trace cross d before mb rb jb db)
    (hm : Grown trace cross db manager mm rm jm dm) (ha : Grown trace cross dm after ma ra ja da)
    (hlate : ∀ i ∈ jb ++ (jm ++ ja), nodeAt nodes i = nodeAt da.nodes i) :
    Drawn trace cross nodes before mb rb jb ∧ Drawn trace cross nodes manager mm rm jm ∧
      Drawn trace cross nodes after ma ra ja := by
  refine ⟨hb.drawn.congr fun i hi ↦ ?_, hm.drawn.congr fun i hi ↦ ?_, ha.drawn.congr fun i hi ↦ ?_⟩
  · exact (hlate i (List.mem_append_left _ hi)).trans ((hm.append ha).old i ((hb.new i).1 hi).2)
  · exact (hlate i (List.mem_append_right _ (List.mem_append_left _ hi))).trans (ha.old i ((hm.new i).1 hi).2)
  · exact hlate i (List.mem_append_right _ (List.mem_append_right _ hi))

/-- The node of a frame and its ghost, drawn before what is drawn for the children that it keeps. -/
theorem Grown.ghost (hframe : trace.frame frame.id = some frame) (hid : node.frameId = some frame.id)
    (hcrossing : node.crossing = none)
    (hopens : trace.Opens frame (trace.children frame.id) (before ++ (manager ++ after)) node.folded)
    (hperm : (node.folded ++ (mb ++ (mm ++ ma))).Perm l)
    (hseen : ∀ id, id ∈ seen ↔ id ∈ frame.id :: d.seen ∨ id ∈ node.folded)
    (hb : Grown trace (fun _ ↦ none) ⟨d.nodes ++ [node, { crossing := some out }], seen⟩ before mb rb jb db)
    (hm : Grown trace (fun _ ↦ none) db manager mm rm jm dm) (ha : Grown trace (fun _ ↦ none) dm after ma ra ja da)
    (hk : k = d.nodes.length)
    (hshows : ∀ nodes,
      (∀ j ∈ rb ++ (k + 1) :: ra, crossingAt nodes j = if j = k + 1 then some out else none) →
      rm.map (frameAt nodes) = manager.map some → childrenAt nodes (k + 1) = rm → frameAt nodes (k + 1) = none →
        Shows trace nodes frame { node with children := rb ++ (k + 1) :: ra }) :
    Grown trace (fun _ ↦ none) d [frame.id] (frame.id :: l) [k] (k :: (jb ++ (k + 1) :: (jm ++ ja)))
      (linked da k (rb ++ (k + 1) :: ra) rm) := by
  have hall := hb.append (hm.append ha)
  have hle := hall.le
  have hlength : (linked da k (rb ++ (k + 1) :: ra) rm).nodes.length = da.nodes.length := length_linked
  simp only [List.length_append, List.length_cons, List.length_nil, ← hk] at hle
  obtain ⟨hpair, hpair'⟩ := nodeAt_pair hk node out
  have hself : nodeAt (linked da k (rb ++ (k + 1) :: ra) rm).nodes k = { node with children := rb ++ (k + 1) :: ra } := by
    rw [nodeAt_linked_self (by omega), (hall.old k (by simp [hk])).trans hpair]
  have hghost : nodeAt (linked da k (rb ++ (k + 1) :: ra) rm).nodes (k + 1) =
      { crossing := some out, children := rm } := by
    rw [nodeAt_linked_ghost (by omega), (hall.old (k + 1) (by simp [hk])).trans hpair']
  have hnew (i : ℕ) : i ∈ jb ++ (jm ++ ja) ↔ k + 2 ≤ i ∧ i < da.nodes.length := by simpa [hk] using hall.new i
  have hlate (i : ℕ) (hi : i ∈ jb ++ (jm ++ ja)) :
      nodeAt (linked da k (rb ++ (k + 1) :: ra) rm).nodes i = nodeAt da.nodes i := by
    have := (hnew i).1 hi
    exact nodeAt_linked (by omega) (by omega)
  obtain ⟨hdb, hdm, hda⟩ := hb.drawn_of_late hm ha hlate
  have hnodup : (k :: (jb ++ (k + 1) :: (jm ++ ja))).Nodup := by
    refine List.nodup_cons.2 ⟨?_, List.nodup_middle.2 (List.nodup_cons.2 ⟨?_, hall.drawn.nodup⟩)⟩
    · rw [List.perm_middle.mem_iff, List.mem_cons, hnew]
      omega
    · rw [hnew]
      omega
  constructor
  · omega
  · intro i hi
    refine (nodeAt_linked (by omega) (by omega)).trans ((hall.old i (by simp; omega)).trans ?_)
    exact nodeAt_append_left hi
  · intro id
    have hl : id ∈ l ↔ id ∈ node.folded ∨ id ∈ mb ++ (mm ++ ma) := by rw [← hperm.mem_iff, List.mem_append]
    have hsetSeen : (linked da k (rb ++ (k + 1) :: ra) rm).seen = da.seen := rfl
    rw [hsetSeen, hall.seen, List.mem_cons, hl]
    simp only [hseen, List.mem_cons]
    tauto
  · intro i
    rw [List.mem_cons, List.perm_middle.mem_iff, List.mem_cons, hnew, hlength]
    omega
  · refine Drawn.ghost hframe hdb hdm hda hnodup hopens hperm ?_ ?_ ?_ ?_ ?_ ?_ ?_ (hself ▸ hshows _ ?_ ?_ ?_ ?_)
    · rw [frameAt, hself, hid]
    · rw [hself]
    · rw [childrenAt, hself]
    · rw [crossingAt, hself, hcrossing]
    · rw [frameAt, hghost]
    · rw [hghost]
    · rw [childrenAt, hghost]
    · intro j hj
      split
      next heq => rw [heq, crossingAt, hghost]
      next hne =>
        obtain hj | hj := List.mem_append.1 hj
        · exact (hdb.root hj).elim fun _ h ↦ h.2.2
        · exact (hda.root ((List.mem_cons.1 hj).resolve_left hne)).elim fun _ h ↦ h.2.2
    · exact hdm.frames
    · rw [childrenAt, hghost]
    · rw [frameAt, hghost]

end Ghost

/-! ## Requests -/

variable {out : Outgoing} {id : FrameId}

theorem outgoingByFrame_eq_some (h : trace.outgoingByFrame id = some out) : out ∈ trace.outgoing ∧ out.frameId = id :=
  ⟨List.mem_reverse.1 (List.mem_of_find?_eq_some h), by simpa using List.find?_some h⟩

/-- With one request for a frame, the frame is prepared when the request is. -/
theorem prepared_eq (hone : (trace.outgoing.map Outgoing.frameId).Nodup)
    (h : trace.outgoingByFrame id = some out) : trace.prepared id = isPreparedResult out := by
  obtain ⟨hmem, rfl⟩ := outgoingByFrame_eq_some h
  rw [LogicalTrace.prepared, Bool.eq_iff_iff, List.any_eq_true]
  constructor
  · rintro ⟨out', hout', hprepared⟩
    rw [Bool.and_eq_true, decide_eq_true_iff] at hprepared
    rw [← List.inj_on_of_nodup_map hone hout' hmem hprepared.2]
    exact hprepared.1
  · exact fun hprepared ↦ ⟨out, hmem, by simp [hprepared]⟩

/-- A prepared request crosses to no frame. -/
theorem crossingOf_of_prepared (h : isPreparedResult out) (c : FrameId) : crossingOf (some out) c = none := by
  have hno : ¬(out.status = .matched ∧ out.remoteFrameId = some c) := by
    rintro ⟨hstatus, hremote⟩
    simp [isPreparedResult, isPreparedLookup, hstatus, hremote] at h
  simpa [crossingOf, Option.filter] using hno

theorem splitAtManager_append (hnodup : kept.Nodup) : (splitAtManager out kept).before ++
    ((splitAtManager out kept).manager ++ (splitAtManager out kept).after) = kept := by
  unfold splitAtManager
  by_cases hany : kept.any fun c ↦ out.managerFrameId = some c
  · obtain ⟨m, hm, hmanager⟩ := List.any_eq_true.1 hany
    rw [decide_eq_true_iff] at hmanager
    obtain ⟨pre, post, rfl⟩ := List.append_of_mem hm
    have hnot {c : FrameId} (hc : c ∈ pre ++ post) : c ≠ m := by
      rintro rfl
      exact (List.nodup_cons.1 (List.nodup_middle.1 hnodup)).1 hc
    have hothers (cs : List FrameId) (hcs : cs ⊆ pre ++ post) : cs.filter (fun c ↦ !decide (some m = some c)) = cs :=
      List.filter_eq_self.2 fun c hc ↦ by simpa using (hnot (hcs hc)).symm
    have hplace : pre.findIdx? (fun c ↦ decide (some m = some c)) = none := by
      rw [List.findIdx?_eq_none_iff]
      exact fun c hc ↦ by simpa using (hnot (List.mem_append_left _ hc)).symm
    simp only [hmanager] at hany ⊢
    rw [if_pos hany, List.filter_append, List.filter_cons_of_neg (by simp), hothers _ (by simp), hothers _ (by simp),
      List.findIdx?_append, hplace, List.findIdx?_cons]
    simp
  · have hnone : ∀ c ∈ kept, ¬out.managerFrameId = some c := by simpa using hany
    have hothers : kept.filter (fun c ↦ !decide (out.managerFrameId = some c)) = kept :=
      List.filter_eq_self.2 fun c hc ↦ by simpa using hnone c hc
    have hplace : kept.findIdx? (fun c ↦ decide (out.managerFrameId = some c)) = none := by
      rw [List.findIdx?_eq_none_iff]
      exact fun c hc ↦ by simpa using hnone c hc
    simp only [hothers, hplace, hany]
    simp

theorem splitAtManager_manager (h : out.managerFrameId = some id) :
    (splitAtManager out kept).manager = if id ∈ kept then [id] else [] := by
  by_cases hmem : id ∈ kept <;> simp [splitAtManager, h, hmem]

theorem logical_of_mem_ids (h : id ∈ trace.ids) :
    ∃ node, trace.logical id = some node ∧ trace.children id = node.children := by
  obtain ⟨node, hnode, rfl⟩ := List.mem_map.1 h
  cases hfind : trace.logical node.id with
  | none =>
    have := List.find?_eq_none.1 hfind node (List.mem_reverse.2 hnode)
    simp at this
  | some found => exact ⟨found, rfl, by rw [LogicalTrace.children, hfind, Option.elim_some]⟩

variable {nodes : List FlowNode} {g : ℕ}

/-- What is drawn for the children crosses where the request was matched. -/
theorem Drawn.shows_crossing (h : Drawn trace (crossingOf (some out)) nodes kept m is js) (hkept : kept.Nodup)
    (hout : trace.outgoingByFrame frame.id = some out) (hremote : showsRemote out kept)
    (hmark : node.preparedResult = false) : Shows trace nodes frame { node with children := is } := by
  rw [showsRemote, Bool.and_eq_true, decide_eq_true_iff, Option.any_eq_true] at hremote
  obtain ⟨hmatched, r, hr, hmem⟩ := hremote
  obtain ⟨v, hv, hframe⟩ := List.mem_map.1 (h.frames ▸ List.mem_map_of_mem (of_decide_eq_true hmem) : some r ∈ _)
  have hinj := List.inj_on_of_nodup_map (h.frames ▸ hkept.map (Option.some_injective _) : (is.map _).Nodup)
  refine .crossing out v hout hmark hv hmatched ⟨r, hr, hframe⟩ fun j hj ↦ ?_
  obtain ⟨c, -, hc, hcross⟩ := h.root hj
  rw [hcross]
  have hiff : j = v ↔ c = r := by
    constructor
    · rintro rfl
      exact Option.some.inj (hc.symm.trans hframe)
    · rintro rfl
      exact hinj hj hv (hc.trans hframe.symm)
  by_cases hcr : c = r
  · rw [if_pos (hiff.2 hcr)]
    simp [crossingOf, Option.filter, hmatched, hr, hcr]
  · rw [if_neg fun hj ↦ hcr (hiff.1 hj)]
    simp [crossingOf, Option.filter, hmatched, hr, Ne.symm hcr]

/-- A ghost holds the call of the manager when that is kept. -/
theorem shows_ghost (hopens : trace.Opens frame (trace.children frame.id) kept folded)
    (hout : trace.outgoingByFrame frame.id = some out) (hmark : node.preparedResult = false) (hg : g ∈ is)
    (hcrossed : ∀ j ∈ is, crossingAt nodes j = if j = g then some out else none)
    (hinside : (childrenAt nodes g).map (frameAt nodes) = (splitAtManager out kept).manager.map some)
    (hnone : frameAt nodes g = none) : Shows trace nodes frame { node with children := is } := by
  refine .ghost out g hout hmark hg hnone hcrossed ?_
  cases hmanager : out.managerFrameId with
  | none =>
    have hempty : (splitAtManager out kept).manager = [] := by simp [splitAtManager, hmanager]
    rw [hempty, List.map_nil, List.map_eq_nil_iff] at hinside
    exact .inr ⟨hinside, by simp [hmanager]⟩
  | some manager =>
    rw [splitAtManager_manager hmanager] at hinside
    by_cases hmem : manager ∈ kept
    · rw [if_pos hmem, List.map_singleton, List.map_eq_singleton_iff] at hinside
      obtain ⟨j, hj, hframe⟩ := hinside
      exact .inl ⟨manager, j, hmanager, hopens.mem_iff.2.1 hmem, hj, hframe⟩
    · rw [if_neg hmem, List.map_nil, List.map_eq_nil_iff] at hinside
      refine .inr ⟨hinside, fun m hm ↦ ?_⟩
      rw [hmanager] at hm
      exact fun hhangs ↦ hmem (hopens.mem_iff.2.2 (Option.some.inj hm ▸ hhangs))

/-- What is left of the children of a frame when the delegates among them are folded: the children that are kept list
`m`, which is new and together with what is folded all that is below the frame. -/
structure Unfolded (trace : LogicalTrace) (d : Drawing) (frame : Frame) (below m : List FrameId) (fold : Fold) :
    Prop where
  opens : trace.Opens frame (trace.children frame.id) fold.kept fold.folded
  lists : Lists trace.children fold.kept m
  perm : (fold.folded ++ m).Perm below
  nodup : m.Nodup
  kept : fold.kept.Nodup
  seen : ∀ id, id ∈ fold.seen ↔ id ∈ frame.id :: d.seen ∨ id ∈ fold.folded
  new : ∀ id ∈ m, id ∉ fold.seen

theorem Unfolded.subset {below : List FrameId} {fold : Fold} (h : Unfolded trace d frame below m fold) : m ⊆ below :=
  fun _ hx ↦ h.perm.mem_iff.1 (List.mem_append_right _ hx)

theorem exists_unfolded {below : List FrameId} (hbelow : Lists trace.children (trace.children frame.id) below)
    (hnodup : (frame.id :: below).Nodup) (hnew : ∀ x ∈ below, x ∉ d.seen) :
    ∃ m, Unfolded trace d frame below m (trace.foldDelegates frame (frame.id :: d.seen) (trace.children frame.id)) := by
  obtain ⟨hid, hbelowNodup⟩ := List.nodup_cons.1 hnodup
  have hbelowNew : ∀ x ∈ below, x ∉ frame.id :: d.seen := fun x hx ↦
    List.not_mem_cons_of_ne_of_not_mem (fun heq ↦ hid (heq ▸ hx)) (hnew x hx)
  obtain ⟨hopens, hseen⟩ := @LogicalTrace.opens_foldDelegates trace frame _ _ _ hbelow hbelowNodup hbelowNew
  obtain ⟨m, hm, hperm, -⟩ := hopens.lists hbelow
  obtain ⟨-, hmNodup, hdisjoint⟩ := List.nodup_append'.1 (hperm.nodup_iff.2 hbelowNodup)
  refine ⟨m, hopens, hm, hperm, hmNodup, (List.nodup_append'.1 (hm.perm.nodup_iff.1 hmNodup)).1, hseen,
    fun x hx hxseen ↦ ?_⟩
  have hxbelow : x ∈ below := hperm.mem_iff.1 (List.mem_append_right _ hx)
  obtain hxseen | hxfolded := (hseen x).1 hxseen
  · obtain rfl | hxseen := List.mem_cons.1 hxseen
    · exact hid hxbelow
    · exact hnew x hxbelow hxseen
  · exact hdisjoint hxfolded hx

/-- A visit that finds no remote execution draws the frame and a ghost. -/
theorem Draws.ghost {below : List FrameId} {fold : Fold} (ih : Draws trace levels (fun _ ↦ none) visit)
    (hframe : trace.frame frame.id = some frame) (hout : trace.outgoingByFrame frame.id = some out)
    (hfold : Unfolded trace d frame below m fold) (hsub : m ⊆ trace.ids) (hlevels : m.length ≤ levels) :
    ∃ rb rm ra db dm da js,
      visitAll visit ⟨d.nodes ++ [⟨some frame.id, fold.folded, some out, false, none, none, []⟩,
        ⟨none, [], none, false, none, some out, []⟩], fold.seen⟩ (splitAtManager out fold.kept).before = (rb, db) ∧
      visitAll visit db (splitAtManager out fold.kept).manager = (rm, dm) ∧
      visitAll visit dm (splitAtManager out fold.kept).after = (ra, da) ∧
      Grown trace (fun _ ↦ none) d [frame.id] (frame.id :: below) [d.nodes.length] js
        (linked da d.nodes.length (rb ++ (d.nodes.length + 1) :: ra) rm) := by
  have hsplit : (splitAtManager out fold.kept).before ++ ((splitAtManager out fold.kept).manager ++
      (splitAtManager out fold.kept).after) = fold.kept := splitAtManager_append hfold.kept
  have hm := hfold.lists
  have hnodup := hfold.nodup
  have hnew := hfold.new
  have hperm := hfold.perm
  rw [← hsplit] at hm
  obtain ⟨mb, mr, rfl, hmb, hmr⟩ := hm.split
  obtain ⟨mm, ma, rfl, hmm, hma⟩ := hmr.split
  obtain ⟨hnewb, hnewr⟩ := List.forall_mem_append.1 hnew
  obtain ⟨hnewm, hnewa⟩ := List.forall_mem_append.1 hnewr
  obtain ⟨hsubb, hsubr⟩ := List.append_subset.1 hsub
  obtain ⟨hsubm, hsuba⟩ := List.append_subset.1 hsubr
  have hnodupbm : (mb ++ mm).Nodup := by
    rw [← List.append_assoc] at hnodup
    exact (List.nodup_append'.1 hnodup).1
  simp only [List.length_append] at hlevels
  obtain ⟨rb, jb, db, hvisitb, hgrownb⟩ := ih.all
    (d := ⟨d.nodes ++ [⟨some frame.id, fold.folded, some out, false, none, none, []⟩,
      ⟨none, [], none, false, none, some out, []⟩], fold.seen⟩) hmb (List.nodup_append'.1 hnodup).1 hnewb hsubb
      (by omega)
  obtain ⟨rm, jm, dm, hvisitm, hgrownm⟩ := ih.next hgrownb hmm hnodupbm hnewm hsubm (by omega)
  obtain ⟨ra, ja, da, hvisita, hgrowna⟩ := ih.next (hgrownb.append hgrownm) hma
    (by rwa [List.append_assoc]) hnewa hsuba (by omega)
  refine ⟨rb, rm, ra, db, dm, da, _, hvisitb, hvisitm, hvisita, Grown.ghost hframe rfl rfl
    (by rw [hsplit]; exact hfold.opens) hperm hfold.seen hgrownb hgrownm hgrowna rfl
    fun nodes hcrossed hinside hchildren hnone ↦ ?_⟩
  exact shows_ghost hfold.opens hout rfl (List.mem_append_right _ List.mem_cons_self) hcrossed
    (hchildren ▸ hinside) hnone

/-- **A visit draws what it visits**: the frame, and what is below the children that it keeps. -/
theorem draws_visit (hforest : trace.LogicalForest) (hone : (trace.outgoing.map Outgoing.frameId).Nodup) :
    ∀ levels, Draws trace levels (fun _ ↦ none) (trace.visit levels) := by
  intro levels
  induction levels with
  | zero =>
    intro d id l hl _ _ _ hlevels
    obtain ⟨below, rfl, -⟩ := hl.singleton_inv
    exact absurd hlevels (Nat.not_succ_le_zero _)
  | succ levels ih =>
    intro d id l hl hnodup hnew hsub hlevels
    obtain ⟨below, rfl, hbelow⟩ := hl.singleton_inv
    obtain ⟨hidNew, hbelowNew⟩ := List.forall_mem_cons.1 hnew
    obtain ⟨hmem, hbelowSub⟩ := List.cons_subset.1 hsub
    obtain ⟨frame, hframe⟩ := Option.isSome_iff_exists.1 (hforest.framed id hmem)
    obtain ⟨ln, hln, hchildren⟩ := logical_of_mem_ids hmem
    obtain rfl : frame.id = id := (getFrame_eq_some hframe).2
    obtain ⟨m, hkept⟩ := exists_unfolded hbelow hnodup hbelowNew
    rw [hchildren] at hkept
    obtain ⟨fold, hfold⟩ : ∃ fold, trace.foldDelegates frame (frame.id :: d.seen) ln.children = fold := ⟨_, rfl⟩
    rw [hfold] at hkept
    -- what is kept fits into the levels that are left
    have hmSub : m ⊆ trace.ids := List.Subset.trans hkept.subset hbelowSub
    have hmLevels : m.length ≤ levels := by
      have := hkept.perm.length_eq
      rw [List.length_append] at this
      rw [List.length_cons] at hlevels
      omega
    have hall (out : Option Outgoing) (nodes : List FlowNode) :=
      (ih.crossing out).all (d := ⟨nodes, fold.seen⟩) hkept.lists hkept.nodup hkept.new hmSub hmLevels
    rw [LogicalTrace.visit, if_neg hidNew]
    simp only [hframe, hln, hfold]
    cases hout : trace.outgoingByFrame frame.id with
    | none =>
      obtain ⟨vs, js, d', hvisits, hgrown⟩ := hall none
        (d.nodes ++ [⟨some frame.id, fold.folded, none, false, none, none, []⟩])
      simp only [hvisits]
      refine ⟨_, _, _, rfl, Grown.call hframe rfl rfl hkept.opens hkept.perm hkept.seen hgrown fun nodes hdrawn ↦ ?_⟩
      exact .nothing hout rfl fun j hj ↦ (hdrawn.root hj).elim fun _ h ↦ h.2.2
    | some out =>
      dsimp only
      rw [prepared_eq hone hout]
      split
      next hprepared =>
        obtain ⟨vs, js, d', hvisits, hgrown⟩ := hall (some out)
          (d.nodes ++ [⟨some frame.id, fold.folded, some out, true, none, none, []⟩])
        simp only [hvisits]
        refine ⟨_, _, _, rfl, Grown.call hframe rfl rfl hkept.opens hkept.perm hkept.seen hgrown fun nodes hdrawn ↦ ?_⟩
        refine .prepared out hout rfl fun j hj ↦ ?_
        obtain ⟨c, -, -, hcross⟩ := hdrawn.root hj
        rw [hcross, crossingOf_of_prepared hprepared]
      next =>
        split
        next hremote =>
          obtain ⟨vs, js, d', hvisits, hgrown⟩ := hall (some out)
            (d.nodes ++ [⟨some frame.id, fold.folded, some out, false, out.remoteFrameId, none, []⟩])
          simp only [hvisits]
          refine ⟨_, _, _, rfl, Grown.call hframe rfl rfl hkept.opens hkept.perm hkept.seen hgrown
            fun nodes hdrawn ↦ hdrawn.shows_crossing hkept.kept hout hremote rfl⟩
        next =>
          obtain ⟨rb, rm, ra, db, dm, da, js, hvisitb, hvisitm, hvisita, hgrown⟩ :=
            ih.ghost hframe hout hkept hmSub hmLevels
          simp only [hvisitb, hvisitm, hvisita]
          exact ⟨_, _, _, rfl, hgrown⟩

end Diagram
