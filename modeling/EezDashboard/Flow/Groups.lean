import EezDashboard.Flow.Entries

/-!
# What an execution flow is

Two calls are in one entry exactly when shared plans and parents connect them, so that a call and its parent
always are.  With the calls of an entry closed under parents and no call above itself, each entry is a forest
of nested brackets, and numbering the requests numbers the calls.
-/

set_option autoImplicit false

namespace Flow

/-! ## Roots -/

section Roots

variable {plans : List EntryPlan} {calls : List FlowCall}

/-- All pairs that are joined. -/
def joined (calls : List FlowCall) : List (Id × Id) := calls.flatMap planLinks ++ calls.flatMap parentLinks

theorem mem_planLinks {call : FlowCall} {p : Id × Id} : p ∈ planLinks call ↔
    ∃ plan ∈ call.plan.toList ++ call.targetPlan.toList, p = (call.id, plan.id) := by
  rw [planLinks, List.mem_map]
  refine exists_congr fun plan ↦ and_congr_right fun _ ↦ eq_comm

theorem mem_parentLinks {call : FlowCall} {p : Id × Id} :
    p ∈ parentLinks call ↔ call.parent = some p.2 ∧ p.1 = call.id := by
  rw [parentLinks, List.mem_map]
  constructor
  · rintro ⟨parent, hparent, rfl⟩
    exact ⟨Option.mem_toList.1 hparent, rfl⟩
  · rintro ⟨hparent, hid⟩
    exact ⟨p.2, Option.mem_toList.2 hparent, by rw [← hid]⟩

theorem foldl_set_single (plans : List EntryPlan) :
    plans.foldl (fun links plan ↦ links.set plan.id) (Links.single : Links Id) = Links.single := by
  induction plans with
  | nil => rfl
  | cons plan plans ih => rw [List.foldl_cons, (Links.alone_single _).set_eq, ih]

/-- A call that nothing was joined to yet is set to what it is. -/
theorem foldl_joinAll_planLinks (calls : List FlowCall) : ∀ links : Links Id,
    (calls.map FlowCall.id).Nodup → (∀ call ∈ calls, links.Alone call.id) →
      calls.foldl (fun links call ↦ (links.set call.id).joinAll (planLinks call)) links =
        links.joinAll (calls.flatMap planLinks) := by
  induction calls with
  | nil => exact fun _ _ _ ↦ rfl
  | cons call calls ih =>
    intro links hnodup halone
    rw [List.map_cons, List.nodup_cons] at hnodup
    rw [List.forall_mem_cons] at halone
    rw [List.foldl_cons, halone.1.set_eq, List.flatMap_cons, Links.joinAll_append]
    refine ih _ hnodup.2 fun other hother ↦ (halone.2 other hother).joinAll _ fun p hp ↦ ?_
    obtain ⟨plan, -, rfl⟩ := mem_planLinks.1 hp
    refine ⟨fun heq ↦ hnodup.1 ?_, fun heq ↦ Id.noConfusion heq⟩
    rw [show call.id = other.id from heq]
    exact List.mem_map_of_mem hother

theorem roots_eq (hnodup : (calls.map FlowCall.id).Nodup) :
    roots plans calls = Links.single.joinAll (joined calls) := by
  have hparents : ∀ links : Links Id, calls.foldl (fun links call ↦ links.joinAll (parentLinks call)) links =
      links.joinAll (calls.flatMap parentLinks) := fun links ↦ List.foldl_flatMap.symm
  rw [roots, foldl_set_single, foldl_joinAll_planLinks _ _ hnodup fun _ _ ↦ Links.alone_single _, hparents,
    joined, Links.joinAll_append]

end Roots

/-! ## What connects calls -/

section Connected

variable {calls : List FlowCall}

/-- Two calls have a plan in common, as that of their source or of their target. -/
def SharePlan (a b : FlowCall) : Prop :=
  ∃ p ∈ a.plan.toList ++ a.targetPlan.toList, ∃ q ∈ b.plan.toList ++ b.targetPlan.toList, p.id = q.id

/-- What links two calls directly. -/
def Linked (calls : List FlowCall) (x y : Id) : Prop :=
  ∃ a ∈ calls, ∃ b ∈ calls, a.id = x ∧ b.id = y ∧ (SharePlan a b ∨ a.parent = some b.id)

/-- What a call is joined to for itself and its plans. -/
def Touches (call : FlowCall) (x : Id) : Prop :=
  x = call.id ∨ ∃ plan ∈ call.plan.toList ++ call.targetPlan.toList, x = plan.id

theorem Touches.connected {a b : FlowCall} {x : Id} (ha : a ∈ calls) (hb : b ∈ calls) (h : Touches a x)
    (h' : Touches b x) : Relation.EqvGen (Linked calls) a.id b.id := by
  rcases h with rfl | ⟨p, hp, rfl⟩
  · rcases h' with heq | ⟨q, -, heq⟩
    · rw [heq]
      exact .refl _
    · exact Id.noConfusion heq
  · rcases h' with heq | ⟨q, hq, heq⟩
    · exact Id.noConfusion heq
    · exact .rel _ _ ⟨a, ha, b, hb, rfl, rfl, .inl ⟨p, hp, q, hq, heq⟩⟩

theorem mem_joined {x y : Id} (h : (x, y) ∈ joined calls) : ∃ call ∈ calls, x = call.id ∧
    (Touches call y ∨ call.parent = some y) := by
  rw [joined, List.mem_append, List.mem_flatMap, List.mem_flatMap] at h
  rcases h with ⟨call, hcall, h⟩ | ⟨call, hcall, h⟩
  · obtain ⟨plan, hplan, heq⟩ := mem_planLinks.1 h
    obtain ⟨rfl, rfl⟩ := Prod.mk.inj heq
    exact ⟨call, hcall, rfl, .inl (.inr ⟨plan, hplan, rfl⟩)⟩
  · obtain ⟨hparent, hid⟩ := mem_parentLinks.1 h
    exact ⟨call, hcall, hid, .inr hparent⟩

/-- Joined identifiers belong to connected calls. -/
theorem connected_of_joined
    (hclosed : ∀ call ∈ calls, ∀ id, call.parent = some id → ∃ parent ∈ calls, parent.id = id) {x y : Id}
    (h : Relation.EqvGen (fun a b ↦ (a, b) ∈ joined calls) x y) :
    x = y ∨ ∃ a ∈ calls, ∃ b ∈ calls, Touches a x ∧ Touches b y ∧
      Relation.EqvGen (Linked calls) a.id b.id := by
  induction h with
  | rel x y hxy =>
    obtain ⟨call, hcall, rfl, htouch | hparent⟩ := mem_joined hxy
    · exact .inr ⟨call, hcall, call, hcall, .inl rfl, htouch, .refl _⟩
    · obtain ⟨parent, hmem, rfl⟩ := hclosed call hcall y hparent
      refine .inr ⟨call, hcall, parent, hmem, .inl rfl, .inl rfl, .rel _ _ ?_⟩
      exact ⟨call, hcall, parent, hmem, rfl, rfl, .inr hparent⟩
  | refl x => exact .inl rfl
  | symm x y _ ih =>
    rcases ih with rfl | ⟨a, ha, b, hb, hx, hy, hab⟩
    · exact .inl rfl
    · exact .inr ⟨b, hb, a, ha, hy, hx, hab.symm⟩
  | trans x y z _ _ ih ih' =>
    rcases ih with rfl | ⟨a, ha, b, hb, hx, hy, hab⟩
    · exact ih'
    · rcases ih' with rfl | ⟨a', ha', b', hb', hy', hz, hab'⟩
      · exact .inr ⟨a, ha, b, hb, hx, hy, hab⟩
      · refine .inr ⟨a, ha, b', hb', hx, hz, ?_⟩
        exact (hab.trans _ _ _ (hy.connected hb ha' hy')).trans _ _ _ hab'

/-- Calls that are linked are joined, directly or through a plan. -/
theorem joined_of_linked {x y : Id} (h : Linked calls x y) :
    Relation.EqvGen (fun a b ↦ (a, b) ∈ joined calls) x y := by
  have hplan : ∀ call ∈ calls, ∀ plan ∈ call.plan.toList ++ call.targetPlan.toList,
      (call.id, plan.id) ∈ joined calls := fun call hcall plan hmem ↦
    List.mem_append_left _ (List.mem_flatMap.2 ⟨call, hcall, mem_planLinks.2 ⟨plan, hmem, rfl⟩⟩)
  obtain ⟨a, ha, b, hb, rfl, rfl, ⟨p, hp, q, hq, heq⟩ | hparent⟩ := h
  · have hpair := hplan a ha p hp
    rw [heq] at hpair
    exact (Relation.EqvGen.rel _ _ hpair).trans _ _ _ (.symm _ _ (.rel _ _ (hplan b hb q hq)))
  · refine .rel _ _ (List.mem_append_right _ (List.mem_flatMap.2 ⟨a, ha, mem_parentLinks.2 ⟨hparent, rfl⟩⟩))

theorem joined_of_connected {x y : Id} (h : Relation.EqvGen (Linked calls) x y) :
    Relation.EqvGen (fun a b ↦ (a, b) ∈ joined calls) x y := by
  induction h with
  | rel x y hxy => exact joined_of_linked hxy
  | refl x => exact .refl x
  | symm x y _ ih => exact ih.symm
  | trans x y z _ _ ih ih' => exact ih.trans _ _ _ ih'

/-- **Same root.**  Two calls have one root exactly when shared plans and parents connect them. -/
theorem root_eq_iff (plans : List EntryPlan) (hnodup : (calls.map FlowCall.id).Nodup)
    (hclosed : ∀ call ∈ calls, ∀ id, call.parent = some id → ∃ parent ∈ calls, parent.id = id)
    {a b : FlowCall} (ha : a ∈ calls) (hb : b ∈ calls) :
    (roots plans calls).root a.id = (roots plans calls).root b.id ↔
      Relation.EqvGen (Linked calls) a.id b.id := by
  rw [roots_eq hnodup, Links.root_joinAll_eq_iff]
  refine ⟨fun h ↦ ?_, joined_of_connected⟩
  rcases connected_of_joined hclosed h with heq | ⟨a', ha', b', hb', hx, hy, hab⟩
  · rw [heq]
    exact .refl _
  · have hstart := Touches.connected ha ha' (.inl rfl) hx
    exact (hstart.trans _ _ _ hab).trans _ _ _ (hy.connected hb' hb (.inl rfl))

end Connected

/-! ## Entries -/

section Entries

variable {plans : List EntryPlan} {calls : List FlowCall}

theorem nodup_eraseDups {α : Type} [DecidableEq α] (n : ℕ) :
    ∀ l : List α, l.length ≤ n → l.eraseDups.Nodup := by
  induction n with
  | zero =>
    intro l hl
    rw [List.length_eq_zero_iff.1 (Nat.le_zero.1 hl)]
    exact List.nodup_nil
  | succ n ih =>
    intro l hl
    cases l with
    | nil => exact List.nodup_nil
    | cons a l =>
      rw [List.eraseDups_cons, List.nodup_cons, List.mem_eraseDups, List.mem_filter]
      refine ⟨fun h ↦ by simp at h, ih _ ((List.length_filter_le _ l).trans (Nat.le_of_succ_le_succ hl))⟩

/-- An entry has the calls of one root, and the walk of these. -/
theorem mem_entriesOf {entry : FlowEntry} (h : entry ∈ entriesOf plans calls) :
    entry.calls = calls.filter (fun call ↦ (roots plans calls).root call.id = entry.id) ∧
      entry.actions = actionsOf entry.calls := by
  obtain ⟨key, -, rfl⟩ := List.mem_map.1 h
  exact ⟨rfl, rfl⟩

theorem exists_entry {call : FlowCall} (h : call ∈ calls) :
    ∃ entry ∈ entriesOf plans calls, entry.id = (roots plans calls).root call.id := by
  refine ⟨_, List.mem_map_of_mem (List.mem_eraseDups.2 (List.mem_append_right _ ?_)), rfl⟩
  exact List.mem_map_of_mem (f := fun call ↦ (roots plans calls).root call.id) h

theorem same_entry_iff {a b : FlowCall} (ha : a ∈ calls) (hb : b ∈ calls) :
    (∃ entry ∈ entriesOf plans calls, a ∈ entry.calls ∧ b ∈ entry.calls) ↔
      (roots plans calls).root a.id = (roots plans calls).root b.id := by
  constructor
  · rintro ⟨entry, hentry, hain, hbin⟩
    rw [(mem_entriesOf hentry).1] at hain hbin
    exact (of_decide_eq_true (List.mem_filter.1 hain).2).trans (of_decide_eq_true (List.mem_filter.1 hbin).2).symm
  · intro hroot
    obtain ⟨entry, hentry, hid⟩ : ∃ entry ∈ entriesOf plans calls, _ := exists_entry ha
    refine ⟨entry, hentry, ?_, ?_⟩
    · rw [(mem_entriesOf hentry).1]
      exact List.mem_filter.2 ⟨ha, decide_eq_true hid.symm⟩
    · rw [(mem_entriesOf hentry).1]
      exact List.mem_filter.2 ⟨hb, decide_eq_true (hroot.symm.trans hid.symm)⟩

/-- Every call is in one entry. -/
theorem calls_entriesOf (hcalls : calls.Nodup) :
    ((entriesOf plans calls).flatMap FlowEntry.calls).Perm calls := by
  have hids : ((entriesOf plans calls).map FlowEntry.id).Nodup := by
    rw [entriesOf, List.map_map]
    exact (nodup_eraseDups _ _ (Nat.le_refl _)).map Function.injective_id
  refine (List.perm_ext_iff_of_nodup (List.nodup_flatMap.2 ⟨fun entry hentry ↦ ?_, ?_⟩) hcalls).2 fun call ↦ ?_
  · rw [(mem_entriesOf hentry).1]
    exact hcalls.filter _
  · refine hids.of_map.pairwise_of_forall_ne fun e he e' he' hne call hcall hcall' ↦ hne ?_
    rw [(mem_entriesOf he).1] at hcall
    rw [(mem_entriesOf he').1] at hcall'
    refine List.inj_on_of_nodup_map hids he he' ?_
    exact (of_decide_eq_true (List.mem_filter.1 hcall).2).symm.trans
      (of_decide_eq_true (List.mem_filter.1 hcall').2)
  · rw [List.mem_flatMap]
    constructor
    · rintro ⟨entry, hentry, hcall⟩
      rw [(mem_entriesOf hentry).1] at hcall
      exact (List.mem_filter.1 hcall).1
    · intro hcall
      obtain ⟨entry, hentry, hmem, -⟩ := (same_entry_iff hcall hcall).2 rfl
      exact ⟨entry, hentry, hmem⟩

end Entries

/-! ## Numbers -/

section Numbers

/-- A change of numbers only. -/
def Renumbers (f : FlowCall → FlowCall) : Prop := ∀ call, ∃ n, f call = { call with number := n }

theorem renumbers_numbered (ids : List Id) : ∀ n, Renumbers (numbered n ids) := by
  induction ids with
  | nil => exact fun _ call ↦ ⟨call.number, rfl⟩
  | cons id ids ih =>
    intro n call
    obtain ⟨m, hm⟩ := ih (n + 1) (if call.id = id then { call with number := n + 1 } else call)
    refine ⟨m, ?_⟩
    rw [numbered, hm]
    split
    · rfl
    · rfl

theorem numbered_of_not_mem (ids : List Id) : ∀ (n : ℕ) (call : FlowCall), call.id ∉ ids →
    numbered n ids call = call := by
  induction ids with
  | nil => exact fun _ _ _ ↦ rfl
  | cons id ids ih =>
    intro n call h
    rw [List.mem_cons, not_or] at h
    rw [numbered, if_neg h.1]
    exact ih (n + 1) call h.2

/-- Calls that are numbered in order have the numbers from one on. -/
theorem map_number_numbered (calls : List FlowCall) : ∀ n, (calls.map FlowCall.id).Nodup →
    (calls.map fun call ↦ (numbered n (calls.map FlowCall.id) call).number) =
      List.range' (n + 1) calls.length := by
  induction calls with
  | nil => exact fun _ _ ↦ rfl
  | cons call calls ih =>
    intro n h
    rw [List.map_cons, List.nodup_cons] at h
    rw [List.map_cons, List.length_cons, List.range'_succ, ← ih (n + 1) h.2]
    refine congrArg₂ List.cons ?_ (List.map_congr_left fun other hother ↦ ?_)
    · rw [List.map_cons, numbered, if_pos rfl, numbered_of_not_mem]
      exact h.1
    · have hne : other.id ≠ call.id := fun heq ↦ h.1 (heq ▸ List.mem_map_of_mem hother)
      rw [List.map_cons, numbered, if_neg hne]

variable {f : FlowCall → FlowCall} {calls : List FlowCall}

theorem Renumbers.source (hf : Renumbers f) (call : FlowCall) : (f call).source = call.source := by
  obtain ⟨n, hn⟩ := hf call
  rw [hn]

theorem Renumbers.id (hf : Renumbers f) (call : FlowCall) : (f call).id = call.id := by
  obtain ⟨n, hn⟩ := hf call
  rw [hn]
  rfl

theorem Renumbers.above (hf : Renumbers f) {a b : Id} : Above (calls.map f) a b ↔ Above calls a b := by
  rw [Above, Above, parentIn, parentIn, bySource_map hf.id]
  cases bySource calls b with
  | none => exact Iff.rfl
  | some call =>
    obtain ⟨n, hn⟩ := hf call
    rw [Option.map_some, hn]
    exact Iff.rfl

theorem Renumbers.linked (hf : Renumbers f) : Linked (calls.map f) = Linked calls := by
  funext x y
  refine propext ⟨?_, ?_⟩
  · rintro ⟨a, ha, b, hb, rfl, rfl, h⟩
    obtain ⟨a, hamem, rfl⟩ := List.mem_map.1 ha
    obtain ⟨b, hbmem, rfl⟩ := List.mem_map.1 hb
    refine ⟨a, hamem, b, hbmem, (hf.id a).symm, (hf.id b).symm, ?_⟩
    obtain ⟨n, hn⟩ := hf a
    obtain ⟨m, hm⟩ := hf b
    rw [hn, hm] at h
    exact h
  · rintro ⟨a, ha, b, hb, rfl, rfl, h⟩
    refine ⟨f a, List.mem_map_of_mem ha, f b, List.mem_map_of_mem hb, hf.id a, hf.id b, ?_⟩
    obtain ⟨n, hn⟩ := hf a
    obtain ⟨m, hm⟩ := hf b
    rw [hn, hm]
    exact h

theorem Renumbers.map_request (hf : Renumbers f) (call : FlowCall) (depth : ℕ) :
    (request call depth).map f = request (f call) depth := by
  obtain ⟨n, hn⟩ := hf call
  rw [FlowAction.map, request, request, hn]

theorem Renumbers.map_returned (hf : Renumbers f) (call : FlowCall) (depth : ℕ) :
    (returned call depth).map f = returned (f call) depth := by
  obtain ⟨n, hn⟩ := hf call
  rw [FlowAction.map, returned, returned, hn]

theorem Renumbers.parent (hf : Renumbers f) (call : FlowCall) : (f call).parent = call.parent := by
  obtain ⟨n, hn⟩ := hf call
  rw [hn]

theorem Renumbers.nested (hf : Renumbers f) {parent : Option Id} {depth : ℕ} {actions : List FlowAction}
    (h : Nested parent depth actions) : Nested parent depth (actions.map (FlowAction.map f)) := by
  induction h with
  | nil parent depth => exact .nil parent depth
  | bracket call hparent hinner hrest ihinner ihrest =>
    rw [List.map_append, List.map_append, List.map_cons, List.map_singleton, hf.map_request, hf.map_returned]
    refine .bracket (f call) ((hf.parent call).trans hparent) ?_ ihrest
    rw [hf.id]
    exact ihinner

theorem requests_map (actions : List FlowAction) :
    requests (actions.map (FlowAction.map f)) = (requests actions).map f := by
  rw [requests, requests, List.filter_map, List.map_map, List.map_map]
  rfl

end Numbers

/-! ## The flow -/

section Result

variable (c : Input)

theorem Input.closed_parented : ∀ call ∈ c.parented, ∀ id, call.parent = some id →
    ∃ parent ∈ c.parented, parent.id = id :=
  fun _ hcall _ hparent ↦ parent_mem hcall hparent

/-- The calls of an entry are nested among themselves. -/
theorem Input.entry_lawful {entry : FlowEntry} (h : entry ∈ entriesOf c.plans c.parented) :
    Nested none 0 entry.actions ∧ (requests entry.actions).Perm entry.calls := by
  obtain ⟨hcalls, hactions⟩ := mem_entriesOf h
  have hsub : ∀ call ∈ entry.calls, call ∈ c.parented ∧
      (roots c.plans c.parented).root call.id = entry.id := by
    intro call hcall
    rw [hcalls] at hcall
    exact ⟨(List.mem_filter.1 hcall).1, of_decide_eq_true (List.mem_filter.1 hcall).2⟩
  have hnodup : (entry.calls.map FlowCall.id).Nodup := by
    rw [hcalls]
    exact c.nodup_parented.sublist (List.filter_sublist.map _)
  -- a parent has the root of its child
  have hclosed : ∀ call ∈ entry.calls, ∀ id, call.parent = some id → ∃ parent ∈ entry.calls, parent.id = id := by
    intro call hcall id hparent
    obtain ⟨hmem, hroot⟩ := hsub call hcall
    obtain ⟨parent, hparentmem, rfl⟩ := parent_mem hmem hparent
    refine ⟨parent, ?_, rfl⟩
    have hsame := (root_eq_iff c.plans c.nodup_parented c.closed_parented hmem hparentmem).2
      (.rel _ _ ⟨call, hmem, parent, hparentmem, rfl, rfl, .inr hparent⟩)
    rw [hcalls]
    exact List.mem_filter.2 ⟨hparentmem, decide_eq_true (hsame.symm.trans hroot)⟩
  have habove : Subrelation (Forest.Parent (childrenIn entry.calls)) (InvImage (Above c.parented) FlowCall.id) := by
    intro a b hab
    obtain ⟨hmem, hparent⟩ := List.mem_filter.1 hab
    exact (above_iff c.nodup_parented).2 ⟨b, (hsub b hmem).1, rfl, of_decide_eq_true hparent⟩
  rw [hactions]
  refine ⟨nested_actionsOf, requests_actionsOf hnodup hclosed fun call _ ↦ ?_⟩
  exact habove.accessible (InvImage.accessible FlowCall.id (acc_parented call.id))

/-- All requests, in the order of the entries, are those of the calls. -/
theorem Input.requests_perm :
    (requests ((entriesOf c.plans c.parented).flatMap FlowEntry.actions)).Perm c.parented := by
  have hrequests : ∀ entries : List FlowEntry, (∀ entry ∈ entries, (requests entry.actions).Perm entry.calls) →
      (requests (entries.flatMap FlowEntry.actions)).Perm (entries.flatMap FlowEntry.calls) := by
    intro entries
    induction entries with
    | nil => exact fun _ ↦ List.Perm.refl _
    | cons entry entries ih =>
      intro h
      rw [List.forall_mem_cons] at h
      rw [List.flatMap_cons, List.flatMap_cons, requests_append]
      exact h.1.append (ih h.2)
  exact (hrequests _ fun entry hentry ↦ (c.entry_lawful hentry).2).trans
    (calls_entriesOf c.nodup_parented.of_map)

/-- The requests of a flow, before they are numbered. -/
def Input.requested : List FlowCall := requests ((entriesOf c.plans c.parented).flatMap FlowEntry.actions)

/-- What a call of a flow becomes. -/
def Input.finish : FlowCall → FlowCall := numbered 0 (c.requested.map FlowCall.id)

theorem Input.renumbers_finish : Renumbers c.finish := renumbers_numbered _ 0

theorem Input.flow_calls : c.flow.calls = c.parented.map c.finish := rfl

theorem Input.flow_entries : c.flow.entries = (entriesOf c.plans c.parented).map (FlowEntry.map c.finish) := rfl

theorem Input.requests_flow : requests c.flow.actions = c.requested.map c.finish := by
  have hactions : c.flow.actions =
      ((entriesOf c.plans c.parented).flatMap FlowEntry.actions).map (FlowAction.map c.finish) := by
    rw [List.map_flatMap]
    exact List.flatMap_map _ _ _
  rw [hactions, requests_map]
  rfl

/-- A call is among those of an entry exactly when what it becomes is. -/
theorem Input.finish_mem_iff {entry : FlowEntry} (h : entry ∈ entriesOf c.plans c.parented) {call : FlowCall}
    (hcall : call ∈ c.parented) : c.finish call ∈ (entry.map c.finish).calls ↔ call ∈ entry.calls := by
  refine ⟨fun hmem ↦ ?_, fun hmem ↦ List.mem_map_of_mem hmem⟩
  obtain ⟨other, hother, heq⟩ := List.mem_map.1 hmem
  have hid := congrArg FlowCall.id heq
  rw [c.renumbers_finish.id, c.renumbers_finish.id] at hid
  have hotherin : other ∈ c.parented := by
    rw [(mem_entriesOf h).1] at hother
    exact (List.mem_filter.1 hother).1
  rw [← List.inj_on_of_nodup_map c.nodup_parented hotherin hcall hid]
  exact hother

/-- **The shape of a flow.**  Its calls are the outgoing requests of the timeline, once each; no call is above
itself; calls are in one entry exactly when shared plans and parents connect them; the actions of an entry are
nested brackets, one for each call and in that of its parent; and the calls are numbered from one on, in the order
of their requests. -/
theorem Input.flow_lawful :
    c.flow.calls.map FlowCall.source = c.outgoing ∧ (c.flow.calls.map FlowCall.id).Nodup ∧
      (∀ id, ¬ Relation.TransGen
        (fun a b ↦ ∃ call ∈ c.flow.calls, call.id = b ∧ call.parent = some a) id id) ∧
      (∀ a ∈ c.flow.calls, ∀ b ∈ c.flow.calls,
        (∃ entry ∈ c.flow.entries, a ∈ entry.calls ∧ b ∈ entry.calls) ↔
          Relation.EqvGen (Linked c.flow.calls) a.id b.id) ∧
      (∀ entry ∈ c.flow.entries, Nested none 0 entry.actions ∧
        (requests entry.actions).Perm entry.calls ∧ (returns entry.actions).Perm entry.calls) ∧
      (requests c.flow.actions).Perm c.flow.calls ∧
      (requests c.flow.actions).map FlowCall.number = List.range' 1 c.flow.calls.length := by
  have hfinish := c.renumbers_finish
  have hsources : c.flow.calls.map FlowCall.source = c.parented.map FlowCall.source := by
    rw [c.flow_calls, List.map_map]
    exact List.map_congr_left fun call _ ↦ hfinish.source call
  have hnodup := c.nodup_parented
  have hflow : (c.flow.calls.map FlowCall.id).Nodup := by
    rw [map_id_eq, hsources, ← map_id_eq]
    exact hnodup
  refine ⟨hsources.trans c.map_source_parented, hflow, ?_, ?_, ?_, ?_, ?_⟩
  · intro id hid
    have hsub : ∀ a b, (∃ call ∈ c.flow.calls, call.id = b ∧ call.parent = some a) → Above c.parented a b := by
      intro a b hab
      rw [← hfinish.above, ← c.flow_calls, above_iff hflow]
      exact hab
    exact Forest.not_above_self (acc_parented id) (Relation.TransGen.mono hsub _ _ hid)
  · intro a ha b hb
    rw [c.flow_calls] at ha hb
    obtain ⟨a, hamem, rfl⟩ := List.mem_map.1 ha
    obtain ⟨b, hbmem, rfl⟩ := List.mem_map.1 hb
    rw [c.flow_calls, hfinish.linked, hfinish.id, hfinish.id,
      ← root_eq_iff c.plans hnodup c.closed_parented hamem hbmem, ← same_entry_iff hamem hbmem, c.flow_entries]
    constructor
    · rintro ⟨entry, hentry, hain, hbin⟩
      obtain ⟨entry, hmem, rfl⟩ := List.mem_map.1 hentry
      exact ⟨entry, hmem, (c.finish_mem_iff hmem hamem).1 hain, (c.finish_mem_iff hmem hbmem).1 hbin⟩
    · rintro ⟨entry, hmem, hain, hbin⟩
      exact ⟨_, List.mem_map_of_mem hmem, (c.finish_mem_iff hmem hamem).2 hain,
        (c.finish_mem_iff hmem hbmem).2 hbin⟩
  · intro entry hentry
    rw [c.flow_entries] at hentry
    obtain ⟨entry, hmem, rfl⟩ := List.mem_map.1 hentry
    obtain ⟨hnested, hperm⟩ := c.entry_lawful hmem
    have hmap : (requests (entry.map c.finish).actions).Perm (entry.map c.finish).calls := by
      rw [FlowEntry.map, requests_map]
      exact hperm.map c.finish
    have hnested' : Nested none 0 (entry.map c.finish).actions := hfinish.nested hnested
    exact ⟨hnested', hmap, hnested'.returns_perm.trans hmap⟩
  · rw [c.requests_flow]
    exact c.requests_perm.map c.finish
  · have hperm : c.requested.Perm c.parented := c.requests_perm
    have hrequested : (c.requested.map FlowCall.id).Nodup := (hperm.map FlowCall.id).nodup_iff.2 hnodup
    rw [c.requests_flow, List.map_map, c.flow_calls, List.length_map, ← hperm.length_eq]
    exact map_number_numbered c.requested 0 hrequested

end Result

end Flow
