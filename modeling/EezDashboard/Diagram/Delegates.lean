import EezDashboard.Diagram.Combined
import EezDashboard.Finite.Listing

/-!
# Delegates that are folded

What the loop of a visit folds into a node and what it keeps, for a decoder result whose logical nodes form a
forest: it folds what is reached through delegates with the calldata of the frame, and keeps the rest in order.
-/

set_option autoImplicit false

namespace Diagram

open Forest (Lists Parent)

namespace LogicalTrace

variable (trace : LogicalTrace)

def ids : List FrameId := trace.logicalNodes.map LogicalNode.id

/-- The logical nodes are a forest over the frames, and the roots are roots of it. -/
structure LogicalForest : Prop where
  framed : ∀ id ∈ trace.ids, (trace.frame id).isSome
  closed : ∀ id ∈ trace.ids, trace.children id ⊆ trace.ids
  roots : trace.logicalRoots ⊆ trace.ids
  once : (trace.logicalRoots ++ trace.ids.flatMap trace.children).Nodup
  acyclic : ∀ id ∈ trace.ids, ¬Relation.TransGen (Parent trace.children) id id

/-- Reached from the frame through delegates with its calldata. -/
inductive FoldedInto (frame : Frame) : FrameId → Prop
  | child {c : FrameId} : c ∈ trace.children frame.id → trace.delegates frame c → FoldedInto frame c
  | deeper {p c : FrameId} : FoldedInto frame p → c ∈ trace.children p → trace.delegates frame c →
      FoldedInto frame c

/-- A child of the frame, or of what is folded into it, that is not folded itself. -/
def HangsBelow (frame : Frame) (c : FrameId) : Prop :=
  ∃ p, (p = frame.id ∨ trace.FoldedInto frame p) ∧ c ∈ trace.children p ∧ ¬trace.delegates frame c

/-- A delegate with the calldata of its parent. -/
def isFolded (c : FrameId) : Bool :=
  trace.ids.any fun p ↦ c ∈ trace.children p && (trace.frame p).any fun frame ↦ trace.delegates frame c

variable {trace} {frame frame' : Frame} {c p : FrameId} {cs kept folded l seen : List FrameId}

theorem mem_ids_of_mem_children (h : c ∈ trace.children p) : p ∈ trace.ids := by
  rw [children] at h
  cases hnode : trace.logical p with
  | none =>
    rw [hnode] at h
    cases h
  | some node =>
    have hid : node.id = p := by simpa using List.find?_some hnode
    exact List.mem_map.2 ⟨node, List.mem_reverse.1 (List.mem_of_find?_eq_some hnode), hid⟩

/-- A node has one parent. -/
theorem LogicalForest.parent_unique (hforest : trace.LogicalForest) {q : FrameId} (h : c ∈ trace.children p)
    (h' : c ∈ trace.children q) : p = q := by
  by_contra hne
  have hpairwise := (List.nodup_flatMap.1 (List.nodup_append.1 hforest.once).2.1).2
  have : Std.Symm (Function.onFun List.Disjoint trace.children) := ⟨fun _ _ hdis ↦ hdis.symm⟩
  exact hpairwise.forall (mem_ids_of_mem_children h) (mem_ids_of_mem_children h') hne h h'

/-- Delegates of one calldata are those of the other. -/
theorem delegates_congr (h : frame.input = frame'.input) : trace.delegates frame c = trace.delegates frame' c := by
  rw [delegates, delegates, h]

theorem input_of_delegates (h : trace.delegates frame c) (hframe : trace.frame c = some frame') :
    frame'.input = frame.input := by
  rw [delegates, hframe, Option.any_some, Bool.and_eq_true, decide_eq_true_iff, decide_eq_true_iff] at h
  exact h.2

theorem FoldedInto.delegates (h : trace.FoldedInto frame c) : trace.delegates frame c := by
  cases h <;> assumption

theorem FoldedInto.isFolded (hframe : trace.frame frame.id = some frame) (h : trace.FoldedInto frame c) :
    trace.isFolded c := by
  have hof {p : FrameId} {parent : Frame} (hparent : trace.frame p = some parent) (hinput : parent.input = frame.input)
      (hc : c ∈ trace.children p) (hd : trace.delegates frame c) : trace.isFolded c := by
    refine List.any_eq_true.2 ⟨p, mem_ids_of_mem_children hc, ?_⟩
    simp [hc, hparent, delegates_congr hinput, hd]
  cases h with
  | child hc hd => exact hof hframe rfl hc hd
  | deeper hp hc hd =>
    obtain ⟨parent, hparent, -⟩ := (Option.any_eq_true _ _).1 hp.delegates
    exact hof hparent (input_of_delegates hp.delegates hparent) hc hd

/-- What hangs below a frame is not folded. -/
theorem HangsBelow.not_isFolded (hforest : trace.LogicalForest) (hframe : trace.frame frame.id = some frame)
    (h : trace.HangsBelow frame c) : trace.isFolded c = false := by
  obtain ⟨p, hp, hc, hno⟩ := h
  rw [isFolded, List.any_eq_false]
  intro q _ hq
  simp only [Bool.and_eq_true, decide_eq_true_iff, Option.any_eq_true] at hq
  obtain ⟨hcq, parent, hparent, hd⟩ := hq
  obtain rfl := hforest.parent_unique hc hcq
  obtain rfl | hp := hp
  · rw [hframe] at hparent
    exact hno (Option.some.inj hparent ▸ hd)
  · rw [delegates_congr (input_of_delegates hp.delegates hparent)] at hd
    exact hno hd

/-! ## The loop -/

/-- The loop where nothing has been seen: from the children to what is kept and what is folded. -/
inductive Opens (trace : LogicalTrace) (frame : Frame) : List FrameId → List FrameId → List FrameId → Prop
  | nil : Opens trace frame [] [] []
  | keep {c : FrameId} {cs kept folded : List FrameId} : ¬trace.delegates frame c →
      Opens trace frame cs kept folded → Opens trace frame (c :: cs) (c :: kept) folded
  | fold {c : FrameId} {cs kept folded : List FrameId} : trace.delegates frame c →
      Opens trace frame (trace.children c ++ cs) kept folded → Opens trace frame (c :: cs) kept (c :: folded)

/-- The loop sees nothing twice in a forest. -/
theorem opens_foldDelegates (h : Lists trace.children cs l) (hl : l.Nodup) (hnew : ∀ id ∈ l, id ∉ seen) :
    Opens trace frame cs (trace.foldDelegates frame seen cs).kept (trace.foldDelegates frame seen cs).folded ∧
      ∀ id, id ∈ (trace.foldDelegates frame seen cs).seen ↔
        id ∈ seen ∨ id ∈ (trace.foldDelegates frame seen cs).folded := by
  fun_induction foldDelegates trace frame seen cs generalizing l with
  | case1 seen => exact ⟨.nil, fun id ↦ by simp⟩
  | case2 seen c cs hfold fold =>
    rename_i ih
    obtain ⟨below, rest, rfl, hbelow, hrest⟩ := h.cons_inv
    obtain ⟨hc, hl⟩ := List.nodup_cons.1 hl
    obtain ⟨hopens, hseen⟩ := ih (hbelow.append hrest) hl fun id hid ↦ List.not_mem_cons_of_ne_of_not_mem
      (fun heq ↦ hc (heq ▸ hid)) (hnew id (List.mem_cons_of_mem _ hid))
    refine ⟨.fold hfold.1 hopens, fun id ↦ ?_⟩
    rw [hseen, List.mem_cons, List.mem_cons]
    tauto
  | case3 seen c cs hkeep fold =>
    rename_i ih
    obtain ⟨below, rest, rfl, hbelow, hrest⟩ := h.cons_inv
    have hno : ¬trace.delegates frame c := fun hd ↦ hkeep ⟨hd, hnew c List.mem_cons_self⟩
    have hl := (List.nodup_append.1 (List.nodup_cons.1 hl).2).2.1
    obtain ⟨hopens, hseen⟩ := ih hrest hl fun id hid ↦
      hnew id (List.mem_cons_of_mem _ (List.mem_append_right _ hid))
    exact ⟨.keep hno hopens, hseen⟩

/-- **What is kept is listed as it was**, without what is folded. -/
theorem Opens.lists (h : Opens trace frame cs kept folded) (hl : Lists trace.children cs l) :
    ∃ m, Lists trace.children kept m ∧ (folded ++ m).Perm l ∧
      ∀ p : FrameId → Bool, (∀ c ∈ folded, p c = false) → m.filter p = l.filter p := by
  induction h generalizing l with
  | nil =>
    obtain rfl := hl.nil_inv
    exact ⟨[], .nil, List.Perm.refl _, fun _ _ ↦ rfl⟩
  | @keep c cs kept folded _ _ ih =>
    obtain ⟨below, rest, rfl, hbelow, hrest⟩ := hl.cons_inv
    obtain ⟨m, hm, hperm, hfilter⟩ := ih hrest
    refine ⟨c :: (below ++ m), .cons hbelow hm, ?_, fun p hp ↦ ?_⟩
    · refine List.perm_middle.trans (List.Perm.cons c ?_)
      exact (List.perm_append_comm_assoc _ _ _).trans (hperm.append_left below)
    · simp only [List.filter_cons, List.filter_append, hfilter p hp]
  | @fold c cs kept folded _ _ ih =>
    obtain ⟨below, rest, rfl, hbelow, hrest⟩ := hl.cons_inv
    obtain ⟨m, hm, hperm, hfilter⟩ := ih (hbelow.append hrest)
    refine ⟨m, hm, List.Perm.cons c hperm, fun p hp ↦ ?_⟩
    obtain ⟨hc, hp⟩ := List.forall_mem_cons.1 hp
    rw [hfilter p hp, List.filter_cons_of_neg (by simp [hc])]

/-- Each child is folded or kept, and so is each child of what is folded. -/
theorem Opens.cover (h : Opens trace frame cs kept folded) :
    (∀ c ∈ cs, if trace.delegates frame c then c ∈ folded else c ∈ kept) ∧
      ∀ p ∈ folded, ∀ c ∈ trace.children p, if trace.delegates frame c then c ∈ folded else c ∈ kept := by
  induction h with
  | nil => exact ⟨nofun, nofun⟩
  | @keep c cs kept folded hno _ ih =>
    have hmono (x : FrameId) (hx : if trace.delegates frame x then x ∈ folded else x ∈ kept) :
        if trace.delegates frame x then x ∈ folded else x ∈ c :: kept := by
      split at hx
      · rwa [if_pos ‹_›]
      · rw [if_neg ‹_›]
        exact List.mem_cons_of_mem _ hx
    refine ⟨List.forall_mem_cons.2 ⟨?_, fun x hx ↦ hmono x (ih.1 x hx)⟩, fun p hp x hx ↦ hmono x (ih.2 p hp x hx)⟩
    rw [if_neg hno]
    exact List.mem_cons_self
  | @fold c cs kept folded hd _ ih =>
    have hmono (x : FrameId) (hx : if trace.delegates frame x then x ∈ folded else x ∈ kept) :
        if trace.delegates frame x then x ∈ c :: folded else x ∈ kept := by
      split at hx
      · rw [if_pos ‹_›]
        exact List.mem_cons_of_mem _ hx
      · rwa [if_neg ‹_›]
    refine ⟨List.forall_mem_cons.2 ⟨?_, fun x hx ↦ hmono x (ih.1 x (List.mem_append_right _ hx))⟩,
      List.forall_mem_cons.2 ⟨fun x hx ↦ hmono x (ih.1 x (List.mem_append_left _ hx)),
        fun p hp x hx ↦ hmono x (ih.2 p hp x hx)⟩⟩
    rw [if_pos hd]
    exact List.mem_cons_self

theorem Opens.sound (h : Opens trace frame cs kept folded)
    (hcs : ∀ c ∈ cs, ∃ p, (p = frame.id ∨ trace.FoldedInto frame p) ∧ c ∈ trace.children p) :
    (∀ c ∈ folded, trace.FoldedInto frame c) ∧ ∀ c ∈ kept, trace.HangsBelow frame c := by
  induction h with
  | nil => exact ⟨nofun, nofun⟩
  | keep hno _ ih =>
    obtain ⟨⟨p, hp, hc⟩, hcs⟩ := List.forall_mem_cons.1 hcs
    exact ⟨(ih hcs).1, List.forall_mem_cons.2 ⟨⟨p, hp, hc, hno⟩, (ih hcs).2⟩⟩
  | @fold c cs kept folded hd _ ih =>
    obtain ⟨⟨p, hp, hc⟩, hcs⟩ := List.forall_mem_cons.1 hcs
    have hfolded : trace.FoldedInto frame c := by
      obtain rfl | hp := hp
      · exact .child hc hd
      · exact .deeper hp hc hd
    obtain ⟨hall, hkept⟩ := ih (List.forall_mem_append.2 ⟨fun _ hx ↦ ⟨_, .inr hfolded, hx⟩, hcs⟩)
    exact ⟨List.forall_mem_cons.2 ⟨hfolded, hall⟩, hkept⟩

/-- **What is folded** is reached through delegates, **and what is kept** hangs below. -/
theorem Opens.mem_iff (h : Opens trace frame (trace.children frame.id) kept folded) :
    (c ∈ folded ↔ trace.FoldedInto frame c) ∧ (c ∈ kept ↔ trace.HangsBelow frame c) := by
  obtain ⟨hchildren, hdeeper⟩ := h.cover
  obtain ⟨hfolded, hkept⟩ := h.sound fun c hc ↦ ⟨frame.id, .inl rfl, hc⟩
  have hcomplete {c : FrameId} (hc : trace.FoldedInto frame c) : c ∈ folded := by
    induction hc with
    | child hc hd => simpa [hd] using hchildren _ hc
    | deeper _ hc hd ih => simpa [hd] using hdeeper _ ih _ hc
  refine ⟨⟨hfolded c, hcomplete⟩, hkept c, ?_⟩
  rintro ⟨p, rfl | hp, hc, hno⟩
  · simpa [hno] using hchildren _ hc
  · simpa [hno] using hdeeper _ (hcomplete hp) _ hc

end LogicalTrace

end Diagram
