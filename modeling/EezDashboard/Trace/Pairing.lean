import EezDashboard.Finite.Settle
import EezDashboard.Trace.Matching

/-!
# The law of the pairs

At every moment of the matching loop the pairs are a partial injection from requests to deliveries of the
other chain, the two of a pair agree, and the pairs are closed under enclosure: a nested request is paired
with a delivery inside the request whose delivery encloses it.

The law of enclosure speaks of the map from request names to deliveries, which a second request of one
proxy frame would overwrite.  That the law survives rests on the order in which requests are listed: those
of one transaction without another transaction's between them (`Graph.Contiguous`).
-/

set_option autoImplicit false

namespace TraceDecoder

/-! ## The maps read off the pairs -/

theorem assigned_cons (p : Pair) (st : List Pair) (id : FrameId) :
    assigned (p :: st) id = if p.1.id = id then some p.2.id else assigned st id := by
  rw [assigned, List.find?_cons]
  split
  · rename_i h
    rw [if_pos (by simpa using h)]
    rfl
  · rename_i h
    rw [if_neg (by simpa using h), assigned]

theorem assigned_eq_none {st : List Pair} {id : FrameId} :
    assigned st id = none ↔ ∀ p ∈ st, p.1.id ≠ id := by
  simp [assigned]

theorem exists_of_assigned {st : List Pair} {id x : FrameId} (h : assigned st id = some x) :
    ∃ p ∈ st, p.1.id = id ∧ p.2.id = x := by
  rw [assigned, Option.map_eq_some_iff] at h
  obtain ⟨p, hp, rfl⟩ := h
  exact ⟨p, List.mem_of_find?_eq_some hp, by simpa using List.find?_some hp, rfl⟩

theorem used_eq_false {st : List Pair} {i : Incoming} :
    used st i = false ↔ ∀ p ∈ st, p.2.id ≠ i.id := by
  simp [used]

namespace Graph

variable {g : Graph}

/-! ## Enclosure -/

/-- A frame above a path is named by a shorter end of it. -/
theorem mem_ancestorsOf {chain : Chain} {hash : Hex} {path : List ℕ} {f : Frame}
    (h : f ∈ g.ancestorsOf chain hash path) :
    f ∈ g.frames ∧ f.id.chain = chain ∧ f.id.hash = hash ∧ f.id.path <:+ path ∧
      f.id.path.length < path.length := by
  induction path with
  | nil => simp [ancestorsOf] at h
  | cons k path ih =>
    rw [ancestorsOf] at h
    split at h
    · rename_i parent hparent
      obtain ⟨hid, hmem⟩ := byId_eq_some hparent
      rcases List.mem_cons.1 h with rfl | h
      · rw [hid]
        exact ⟨hmem, rfl, rfl, List.suffix_cons k path, Nat.lt_succ_self _⟩
      · obtain ⟨hmem, hc, hh, hs, hl⟩ := ih h
        exact ⟨hmem, hc, hh, hs.trans (List.suffix_cons k path), hl.trans (Nat.lt_succ_self _)⟩
    · exact absurd h List.not_mem_nil

theorem incomingByFrame_eq_some {id : FrameId} {i : Incoming} (h : g.incomingByFrame id = some i) :
    i ∈ g.incoming ∧ i.frameId = id :=
  ⟨List.mem_reverse.1 (List.mem_of_find?_eq_some h), by simpa using List.find?_some h⟩

theorem outgoingByFrame_eq_some {id : FrameId} {o : Outgoing} (h : g.outgoingByFrame id = some o) :
    o ∈ g.outgoing ∧ o.frameId = id :=
  ⟨List.mem_reverse.1 (List.mem_of_find?_eq_some h), by simpa using List.find?_some h⟩

theorem nearestIncoming_eq_some {o : Outgoing} {l : Incoming} (h : g.nearestIncoming o = some l) :
    l ∈ g.incoming ∧ o.frameId.within l.frameId = true ∧
      l.frameId.path.length < o.frameId.path.length := by
  obtain ⟨f, hf, hl⟩ := List.exists_of_findSome?_eq_some h
  obtain ⟨hmem, hid⟩ := incomingByFrame_eq_some hl
  obtain ⟨-, hc, hh, hs, hlen⟩ := mem_ancestorsOf hf
  rw [FrameId.within_iff, hid]
  exact ⟨hmem, ⟨hc.symm, hh.symm, hs⟩, hlen⟩

theorem nearestOutgoing_eq_some {i : Incoming} {r : Outgoing} (h : g.nearestOutgoing i = some r) :
    r ∈ g.outgoing ∧ i.frameId.within r.frameId = true ∧
      r.frameId.path.length < i.frameId.path.length := by
  obtain ⟨f, hf, hr⟩ := List.exists_of_findSome?_eq_some h
  obtain ⟨hmem, hid⟩ := outgoingByFrame_eq_some hr
  obtain ⟨-, hc, hh, hs, hlen⟩ := mem_ancestorsOf hf
  rw [FrameId.within_iff, hid]
  exact ⟨hmem, ⟨hc.symm, hh.symm, hs⟩, hlen⟩

/-! ## What is available -/

/-- The four branches of the test come to this: a request outside of every delivery is offered what is
delivered outside of every request, and a request inside a delivery what is delivered inside the request
that delivery was paired with. -/
theorem released_iff {st : List Pair} {o : Outgoing} {i : Incoming} :
    g.released st o i = true ↔
      (g.nearestIncoming o = none ∧ g.nearestOutgoing i = none) ∨
        ∃ l r, g.nearestIncoming o = some l ∧ g.nearestOutgoing i = some r ∧
          assigned st r.id = some l.id := by
  rw [released]
  cases hl : g.nearestIncoming o with
  | none =>
    cases hr : g.nearestOutgoing i with
    | none => simp
    | some r => cases ha : assigned st r.id <;> simp [ha]
  | some l =>
    cases hr : g.nearestOutgoing i with
    | none =>
      -- a matched parent asks for an enclosing request that is not there
      simp only [Option.bind_none, Option.isSome_none, Bool.and_false, Option.map_none]
      split
      · rename_i h
        exact absurd h (by simp)
      · simp only [Option.bind_some]
        split
        · rename_i h
          obtain ⟨m, hm⟩ := Option.isSome_iff_exists.1 h
          simp [hm]
        · simp
    | some r =>
      cases ha : assigned st r.id with
      | some x => simp [ha]
      | none =>
        -- a matched parent is assigned, the enclosing request is not
        simp only [Option.bind_some, ha, Option.isSome_none, Bool.and_false, Option.isNone_some]
        split
        · rename_i h
          exact absurd h (by simp)
        · split
          · rename_i h
            obtain ⟨m, hm⟩ := Option.isSome_iff_exists.1 h
            have hm' : assigned st m.id = some l.id := by simpa using List.find?_some hm
            have hne : r.id ≠ m.id := by
              intro he
              rw [he, hm'] at ha
              exact Option.some_ne_none _ ha
            simp [hm, hne, ha]
          · simp [ha]

theorem mem_available {st : List Pair} {o : Outgoing} {i : Incoming} :
    i ∈ g.available st o ↔ i ∈ g.incoming ∧ used st i = false ∧ g.agrees o i = true ∧
      g.released st o i = true := by
  rw [available, List.mem_filter]
  simp [and_assoc]

theorem agrees_opposite {o : Outgoing} {i : Incoming} (h : g.agrees o i = true) :
    o.frameId.chain ≠ i.frameId.chain := by
  simp only [agrees, Bool.and_eq_true, bne_iff_ne] at h
  exact h.1.1.1

theorem agrees_identity {o : Outgoing} {i : Incoming} (h : g.agrees o i = true) :
    sameIdentity o.call i.call = true := by
  simp only [agrees, Bool.and_eq_true] at h
  exact h.1.1.2

theorem agrees_sameResult {o : Outgoing} {i : Incoming} (h : g.agrees o i = true) :
    g.sameResult o i = true := by
  simp only [agrees, Bool.and_eq_true] at h
  exact h.2

theorem mem_pending {st : List Pair} {o : Outgoing} :
    o ∈ g.pending st ↔ o ∈ g.outgoing ∧ assigned st o.id = none := by
  rw [pending, List.mem_filter, Option.isNone_iff_eq_none]

theorem mem_contenders {pending : List Outgoing} {st : List Pair} {o : Outgoing} {i : Incoming} :
    o ∈ g.contenders pending st i ↔
      o ∈ pending ∧ assigned st o.id = none ∧ ∃ j ∈ g.available st o, j.id = i.id := by
  rw [contenders, List.mem_filter]
  simp [Option.isNone_iff_eq_none]

theorem outgoing_list_nodup (g : Graph) : g.outgoing.Nodup := g.outgoing_nodup.of_map _

theorem pending_nodup (st : List Pair) : (g.pending st).Nodup := g.outgoing_list_nodup.filter _

/-- Deliveries are told apart by their names. -/
theorem incoming_inj {i j : Incoming} (hi : i ∈ g.incoming) (hj : j ∈ g.incoming) (h : i.id = j.id) :
    i = j :=
  List.inj_on_of_nodup_map g.incoming_nodup hi hj h

/-! ## Running the loop -/

/-- The first rule visits the pending requests one by one: what a visit preserves holds when all have been
visited. -/
theorem uniquePass_induction {st₀ : List Pair} (M : List Outgoing → List Pair → Prop) (start : M [] st₀)
    (skip : ∀ done o rest st, g.pending st₀ = done ++ o :: rest → M done st → M (done ++ [o]) st)
    (pair : ∀ done o rest st i, g.pending st₀ = done ++ o :: rest → M done st →
      g.available st o = [i] → (g.contenders (g.pending st₀) st i).length = 1 →
      M (done ++ [o]) ((o, i) :: st)) :
    M (g.pending st₀) (g.uniquePass st₀) := by
  rw [uniquePass]
  have run : ∀ rest done st, g.pending st₀ = done ++ rest → M done st →
      M (g.pending st₀) (rest.foldl (g.visit (g.pending st₀)) st) := by
    intro rest
    induction rest with
    | nil =>
      intro done st hp h
      rw [List.append_nil] at hp
      exact hp ▸ h
    | cons o rest ih =>
      intro done st hp h
      rw [List.foldl_cons]
      refine ih (done ++ [o]) _ (by rw [hp, List.append_assoc]; rfl) ?_
      rw [visit]
      split
      · rename_i i hi
        split
        · rename_i hc
          exact pair done o rest st i hp h hi hc
        · exact skip done o rest st hp h
      · exact skip done o rest st hp h
  exact run (g.pending st₀) [] st₀ rfl start

/-- What the second rule has checked when it makes the pairs of a group. -/
structure Ordered (g : Graph) (pending : List Outgoing) (st : List Pair) (first : Outgoing)
    (pairs : List Pair) : Prop where
  two : 2 ≤ (group pending st first).length
  topLevel : ∀ o ∈ group pending st first, o.consumed.length = 1 ∧ g.nearestIncoming o = none
  increasing : increasing ((group pending st first).flatMap Outgoing.consumed) = true
  candidates : (g.available st first).length = (group pending st first).length
  deliveredTop : ∀ i ∈ g.available st first, g.nearestOutgoing i = none
  closed : ∀ o ∈ pending, o ∉ group pending st first → ∀ i ∈ g.available st o,
    i ∉ g.available st first
  pairs_eq : pairs = (group pending st first).zip
    ((g.available st first).insertionSort fun i j ↦ g.position i ≤ g.position j)
  available : ∀ p ∈ pairs, p.2 ∈ g.available st p.1

theorem orderedGroup_eq_some {pending : List Outgoing} {st : List Pair} {first : Outgoing}
    {pairs : List Pair} (h : g.orderedGroup pending st first = some pairs) :
    g.Ordered pending st first pairs := by
  simp only [orderedGroup, Option.bind_eq_bind, Option.bind_eq_some_iff, Option.guard_eq_some',
    Option.some.injEq, exists_const, List.all_eq_true] at h
  obtain ⟨⟨h₂, -⟩, htop, -, -, hinc, ⟨hlen, hcand⟩, hclosed, -, -, havail, rfl⟩ := h
  refine ⟨h₂, ?_, hinc, hlen, ?_, ?_, rfl, ?_⟩
  · intro o ho
    simpa [Option.isNone_iff_eq_none] using htop o ho
  · intro i hi
    have := hcand i hi
    simp only [Bool.and_eq_true, Option.isNone_iff_eq_none] at this
    exact this.1.2
  · intro o ho hg i hi hi'
    have := hclosed o ho
    simp only [Bool.or_eq_true, List.contains_iff_mem, hg, false_or, Bool.not_eq_true',
      List.any_eq_false] at this
    exact this i hi hi'
  · intro p hp
    simpa using havail p hp

/-! ## The law -/

/-- The pairs are a partial injection from requests to deliveries of the other chain, the two of a pair
agree, and the pairs are closed under enclosure. -/
structure Lawful (g : Graph) (st : List Pair) : Prop where
  outgoing : ∀ p ∈ st, p.1 ∈ g.outgoing
  incoming : ∀ p ∈ st, p.2 ∈ g.incoming
  requests : (st.map Prod.fst).Nodup
  deliveries : (st.map fun p ↦ p.2.id).Nodup
  agrees : ∀ p ∈ st, g.agrees p.1 p.2 = true
  enclosed : ∀ p ∈ st, (g.nearestIncoming p.1 = none ∧ g.nearestOutgoing p.2 = none) ∨
    ∃ l r, g.nearestIncoming p.1 = some l ∧ g.nearestOutgoing p.2 = some r ∧
      assigned st r.id = some l.id

/-- The requests of one chain are not listed between two requests of one proxy frame of the other. -/
def Contiguous (g : Graph) : Prop :=
  ∀ y o x, [y, o, x].Sublist g.outgoing → y.id = x.id → o.frameId.chain = x.frameId.chain

theorem Lawful.nil : g.Lawful [] where
  outgoing := by simp
  incoming := by simp
  requests := by simp
  deliveries := by simp
  agrees := by simp
  enclosed := by simp

/-- A new pair keeps the law when its request is new and no pair made before rests on the request's
name. -/
theorem Lawful.push {st : List Pair} (h : g.Lawful st) {o : Outgoing} {i : Incoming}
    (ho : o ∈ g.outgoing) (hi : i ∈ g.available st o) (hnew : o ∉ st.map Prod.fst)
    (hkeep : ∀ p ∈ st, ∀ r, g.nearestOutgoing p.2 = some r → o.id ≠ r.id) :
    g.Lawful ((o, i) :: st) := by
  obtain ⟨hin, hused, hagree, hrel⟩ := mem_available.1 hi
  refine ⟨?_, ?_, ?_, ?_, ?_, ?_⟩
  · rw [List.forall_mem_cons]
    exact ⟨ho, h.outgoing⟩
  · rw [List.forall_mem_cons]
    exact ⟨hin, h.incoming⟩
  · rw [List.map_cons, List.nodup_cons]
    exact ⟨hnew, h.requests⟩
  · rw [List.map_cons, List.nodup_cons]
    refine ⟨?_, h.deliveries⟩
    intro hmem
    obtain ⟨p, hp, he⟩ := List.mem_map.1 hmem
    exact used_eq_false.1 hused p hp he
  · rw [List.forall_mem_cons]
    exact ⟨hagree, h.agrees⟩
  · rw [List.forall_mem_cons]
    constructor
    · refine (released_iff.1 hrel).imp_right ?_
      rintro ⟨l, r, hl, hr, ha⟩
      refine ⟨l, r, hl, hr, ?_⟩
      -- the enclosing request is on the delivery's chain
      have hne : o.id ≠ r.id := by
        intro he
        obtain ⟨-, hw, -⟩ := nearestOutgoing_eq_some hr
        rw [FrameId.within_iff] at hw
        exact agrees_opposite hagree ((congrArg FrameId.chain he).trans hw.1.symm)
      rw [assigned_cons, if_neg hne, ha]
    · intro p hp
      refine (h.enclosed p hp).imp_right ?_
      rintro ⟨l, r, hl, hr, ha⟩
      exact ⟨l, r, hl, hr, by rw [assigned_cons, if_neg (hkeep p hp r hr), ha]⟩

/-- The law at every moment up to a state. -/
def AlwaysLawful (g : Graph) (st : List Pair) : Prop := ∀ k, g.Lawful (st.drop k)

theorem AlwaysLawful.now {st : List Pair} (h : g.AlwaysLawful st) : g.Lawful st := h 0

theorem AlwaysLawful.push {p : Pair} {st : List Pair} (h : g.AlwaysLawful st)
    (hp : g.Lawful (p :: st)) : g.AlwaysLawful (p :: st)
  | 0 => hp
  | k + 1 => h k

/-- A request that is still pending is new, and no pair rests on it. -/
theorem Lawful.pending_new {st : List Pair} (h : g.Lawful st) {o : Outgoing}
    (ho : assigned st o.id = none) :
    o ∉ st.map Prod.fst ∧ ∀ p ∈ st, ∀ r, g.nearestOutgoing p.2 = some r → o.id ≠ r.id := by
  constructor
  · intro hmem
    obtain ⟨p, hp, rfl⟩ := List.mem_map.1 hmem
    exact assigned_eq_none.1 ho p hp rfl
  · intro p hp r hr he
    rcases h.enclosed p hp with ⟨-, hnone⟩ | ⟨l, r', -, hr', ha⟩
    · exact absurd (hnone.symm.trans hr) (Option.some_ne_none r).symm
    · obtain rfl := Option.some.inj (hr.symm.trans hr')
      rw [he, ha] at ho
      exact Option.some_ne_none _ ho

/-! ## Every round keeps the law -/

theorem uniquePass_lawful (hg : g.Contiguous) {st₀ : List Pair} (h₀ : g.AlwaysLawful st₀) :
    g.AlwaysLawful (g.uniquePass st₀) := by
  -- no pair rests on the name of a request that is still to be visited
  let M : List Outgoing → List Pair → Prop := fun done st ↦
    g.AlwaysLawful st ∧ (∀ p ∈ st, p ∈ st₀ ∨ p.1 ∈ done) ∧
      ∀ rest, g.pending st₀ = done ++ rest → ∀ p ∈ st, ∀ r, g.nearestOutgoing p.2 = some r →
        ∀ x ∈ rest, x.id ≠ r.id
  refine (uniquePass_induction M ?start ?skip ?pair).1
  case start =>
    refine ⟨h₀, fun p hp ↦ Or.inl hp, ?_⟩
    intro rest hrest p hp r hr x hx
    have hx₀ : x ∈ g.pending st₀ := by rw [hrest]; exact hx
    exact (h₀.now.pending_new (mem_pending.1 hx₀).2).2 p hp r hr
  case skip =>
    rintro done o rest st hp ⟨hst, hfrom, hkeep⟩
    refine ⟨hst, fun p hp ↦ (hfrom p hp).imp_right (List.mem_append_left _), ?_⟩
    intro rest' hrest' p hp' r hr x hx
    rw [List.append_assoc] at hrest'
    exact hkeep _ hrest' p hp' r hr x (List.mem_cons_of_mem _ hx)
  case pair =>
    rintro done o rest st i hp ⟨hst, hfrom, hkeep⟩ hi -
    have hnodup := hp ▸ g.pending_nodup st₀
    have ho₀ : o ∈ g.pending st₀ := by rw [hp]; simp
    obtain ⟨ho, hfree⟩ := mem_pending.1 ho₀
    have hi' : i ∈ g.available st o := by rw [hi]; exact List.mem_singleton_self i
    have hdone : o ∉ done := fun hmem ↦
      List.disjoint_of_nodup_append hnodup hmem List.mem_cons_self
    have hnew : o ∉ st.map Prod.fst := by
      intro hmem
      obtain ⟨p, hp', rfl⟩ := List.mem_map.1 hmem
      rcases hfrom p hp' with h | h
      · exact assigned_eq_none.1 hfree p h rfl
      · exact hdone h
    refine ⟨hst.push (hst.now.push ho hi' hnew ?_), ?_, ?_⟩
    · intro p hp' r hr
      exact hkeep _ hp p hp' r hr o List.mem_cons_self
    · rw [List.forall_mem_cons]
      exact ⟨Or.inr (by simp), fun p hp' ↦ (hfrom p hp').imp_right (List.mem_append_left _)⟩
    · intro rest' hrest' p hp' r hr x hx
      have hrest : rest' = rest := by
        rw [hp, List.append_assoc, List.append_cancel_left_eq] at hrest'
        exact (List.cons.inj hrest').2.symm
      subst hrest
      rcases List.mem_cons.1 hp' with rfl | hp'
      · -- the new pair rests on a request of the other chain, which was paired before
        intro he
        obtain ⟨-, hw, -⟩ := nearestOutgoing_eq_some hr
        rcases released_iff.1 (mem_available.1 hi').2.2.2 with ⟨-, hnone⟩ | ⟨l, r', -, hr', ha⟩
        · exact absurd (hnone.symm.trans hr) (Option.some_ne_none r).symm
        obtain rfl := Option.some.inj (hr.symm.trans hr')
        obtain ⟨y, hy, hyid, -⟩ := exists_of_assigned ha
        have hx₀ : x ∈ g.pending st₀ := by rw [hp]; simp [hx]
        have hydone : y.1 ∈ done := by
          rcases hfrom y hy with h | h
          · exact absurd (hyid.trans he.symm) (assigned_eq_none.1 (mem_pending.1 hx₀).2 y h)
          · exact h
        have hsub : [y.1, o, x].Sublist g.outgoing := by
          have hsub' : [y.1, o, x].Sublist (g.pending st₀) := by
            rw [hp]
            exact (List.singleton_sublist.2 hydone).append
              ((List.singleton_sublist.2 hx).cons_cons o)
          exact hsub'.trans List.filter_sublist
        have hchain := hg y.1 o x hsub (hyid.trans he.symm)
        rw [FrameId.within_iff] at hw
        refine agrees_opposite (mem_available.1 hi').2.2.1 (hchain.trans ?_)
        exact (congrArg FrameId.chain he).trans hw.1.symm
      · exact hkeep _ hp p hp' r hr x (List.mem_cons_of_mem _ hx)

/-- The pairs of a group are made one after the other; none of them is nested. -/
theorem AlwaysLawful.push_group {pairs : List Pair} {st : List Pair} (h : g.AlwaysLawful st)
    (hout : ∀ p ∈ pairs, p.1 ∈ g.outgoing ∧ assigned st p.1.id = none)
    (havail : ∀ p ∈ pairs, p.2 ∈ g.available st p.1)
    (htop : ∀ p ∈ pairs, g.nearestIncoming p.1 = none ∧ g.nearestOutgoing p.2 = none)
    (hreq : (pairs.map Prod.fst).Nodup) (hdel : (pairs.map fun p ↦ p.2.id).Nodup) :
    g.AlwaysLawful (pairs.reverse ++ st) := by
  induction pairs using List.reverseRecOn with
  | nil => exact h
  | append_singleton pairs p ih =>
    rw [List.map_append, List.nodup_append] at hreq hdel
    have ih' := ih (fun q hq ↦ hout q (List.mem_append_left _ hq))
      (fun q hq ↦ havail q (List.mem_append_left _ hq))
      (fun q hq ↦ htop q (List.mem_append_left _ hq)) hreq.1 hdel.1
    have hlast : p ∈ pairs ++ [p] := by simp
    rw [List.reverse_append, List.reverse_singleton, List.singleton_append, List.cons_append]
    obtain ⟨ho, hfree⟩ := hout p hlast
    obtain ⟨hnew, hkeep⟩ := h.now.pending_new hfree
    refine ih'.push (ih'.now.push ho ?_ ?_ ?_)
    · obtain ⟨hin, hused, hagree, -⟩ := mem_available.1 (havail p hlast)
      refine mem_available.2 ⟨hin, used_eq_false.2 ?_, hagree, released_iff.2 (Or.inl (htop p hlast))⟩
      intro q hq
      rcases List.mem_append.1 hq with hq | hq
      · exact hdel.2.2 _ (List.mem_map_of_mem (List.mem_reverse.1 hq)) _ (by simp)
      · exact used_eq_false.1 hused q hq
    · rw [List.map_append, List.mem_append]
      rintro (hmem | hmem)
      · rw [List.map_reverse, List.mem_reverse] at hmem
        exact hreq.2.2 _ hmem _ (by simp) rfl
      · exact hnew hmem
    · intro q hq r hr
      rcases List.mem_append.1 hq with hq | hq
      · have hnone := (htop q (List.mem_append_left _ (List.mem_reverse.1 hq))).2
        exact absurd (hnone.symm.trans hr) (Option.some_ne_none r).symm
      · exact hkeep q hq r hr

theorem mem_group {pending : List Outgoing} {st : List Pair} {first o : Outgoing} :
    o ∈ group pending st first ↔ o ∈ pending ∧ assigned st o.id = none ∧
      o.generationId = first.generationId ∧ sameIdentity first.call o.call = true := by
  rw [group, List.mem_filter]
  simp [Option.isNone_iff_eq_none, and_assoc]

section Ordered

variable {pending : List Outgoing} {st : List Pair} {first : Outgoing} {pairs : List Pair}

/-- The deliveries of a group, in physical order. -/
theorem Ordered.map_snd (h : g.Ordered pending st first pairs) :
    pairs.map Prod.snd =
      (g.available st first).insertionSort fun i j ↦ g.position i ≤ g.position j := by
  rw [h.pairs_eq, List.map_snd_zip (by rw [List.length_insertionSort, h.candidates])]

theorem Ordered.map_fst (h : g.Ordered pending st first pairs) :
    pairs.map Prod.fst = group pending st first := by
  rw [h.pairs_eq, List.map_fst_zip (by rw [List.length_insertionSort, h.candidates])]

theorem Ordered.request (h : g.Ordered pending st first pairs) {p : Pair} (hp : p ∈ pairs) :
    p.1 ∈ group pending st first := h.map_fst ▸ List.mem_map_of_mem hp

theorem Ordered.delivery (h : g.Ordered pending st first pairs) {p : Pair} (hp : p ∈ pairs) :
    p.2 ∈ g.available st first := by
  have hmem := List.mem_map_of_mem (f := Prod.snd) hp
  rw [h.map_snd, List.mem_insertionSort] at hmem
  exact hmem

end Ordered

theorem visitGroup_lawful {pending : List Outgoing} (hp : pending.Sublist g.outgoing)
    {st : List Pair} (hst : g.AlwaysLawful st) (first : Outgoing) :
    g.AlwaysLawful (g.visitGroup pending st first) := by
  rw [visitGroup]
  cases hpairs : g.orderedGroup pending st first with
  | none => exact hst
  | some pairs =>
    have h := orderedGroup_eq_some hpairs
    refine hst.push_group ?_ h.available ?_ ?_ ?_
    · intro p hp'
      obtain ⟨hmem, hfree, -⟩ := mem_group.1 (h.request hp')
      exact ⟨hp.subset hmem, hfree⟩
    · intro p hp'
      exact ⟨(h.topLevel _ (h.request hp')).2, h.deliveredTop _ (h.delivery hp')⟩
    · rw [h.map_fst]
      exact (g.outgoing_list_nodup.sublist hp).filter _
    · have hmap : (pairs.map fun p ↦ p.2.id) = (pairs.map Prod.snd).map Incoming.id := by
        rw [List.map_map]
        rfl
      rw [hmap, h.map_snd, ((List.perm_insertionSort _ _).map Incoming.id).nodup_iff]
      exact g.incoming_nodup.sublist (List.filter_sublist.map _)

theorem orderedPass_lawful {pending : List Outgoing} (hp : pending.Sublist g.outgoing)
    {st : List Pair} (hst : g.AlwaysLawful st) : g.AlwaysLawful (g.orderedPass pending st) := by
  rw [orderedPass]
  generalize pending.filter (fun o ↦ (assigned st o.id).isNone) = firsts
  induction firsts generalizing st with
  | nil => exact hst
  | cons first firsts ih => exact ih (visitGroup_lawful hp hst first)

theorem round_lawful (hg : g.Contiguous) {st : List Pair} (hst : g.AlwaysLawful st) :
    g.AlwaysLawful (g.round st) := by
  rw [round]
  split
  · exact orderedPass_lawful List.filter_sublist hst
  · exact uniquePass_lawful hg hst

theorem matchLoop_alwaysLawful (hg : g.Contiguous) : g.AlwaysLawful g.matchLoop :=
  Settle.iterate_preserves (P := g.AlwaysLawful) (fun _ ↦ round_lawful hg)
    (fun k ↦ by rw [List.drop_nil]; exact Lawful.nil) _

/-! ## The loop comes to an end -/

theorem foldl_suffix {α : Type} {f : List Pair → α → List Pair} (h : ∀ st a, st <:+ f st a) (l : List α)
    (st : List Pair) : st <:+ l.foldl f st := by
  induction l generalizing st with
  | nil => exact List.suffix_refl st
  | cons a l ih => exact (h st a).trans (ih _)

theorem visit_suffix (pending : List Outgoing) (st : List Pair) (o : Outgoing) :
    st <:+ g.visit pending st o := by
  rw [visit]
  split
  · split
    · exact List.suffix_cons _ st
    · exact List.suffix_refl st
  · exact List.suffix_refl st

theorem visitGroup_suffix (pending : List Outgoing) (st : List Pair) (first : Outgoing) :
    st <:+ g.visitGroup pending st first := by
  rw [visitGroup]
  split
  · exact List.suffix_append _ st
  · exact List.suffix_refl st

/-- A round takes no pair back. -/
theorem round_suffix (st : List Pair) : st <:+ g.round st := by
  rw [round]
  split
  · exact foldl_suffix (visitGroup_suffix _) _ st
  · exact foldl_suffix (visit_suffix _) _ st

theorem Lawful.length_le {st : List Pair} (h : g.Lawful st) : st.length ≤ g.incoming.length := by
  rw [← List.length_map (f := fun p : Pair ↦ p.2.id), ← List.length_map (f := Incoming.id)]
  refine (List.subperm_of_subset h.deliveries ?_).length_le
  intro id hid
  obtain ⟨p, hp, rfl⟩ := List.mem_map.1 hid
  exact List.mem_map_of_mem (h.incoming p hp)

/-- When the loop is left, another round would change nothing. -/
theorem matchLoop_settled (hg : g.Contiguous) : g.round g.matchLoop = g.matchLoop := by
  refine Settle.iterate_settled (P := g.AlwaysLawful) (μ := List.length) (fun _ ↦ round_lawful hg)
    ?_ (fun st h ↦ h.now.length_le) (fun k ↦ by rw [List.drop_nil]; exact Lawful.nil)
  intro st _
  rcases (round_suffix (g := g) st).length_le.eq_or_lt with heq | hlt
  · exact Or.inl ((round_suffix st).eq_of_length heq).symm
  · exact Or.inr hlt

/-- The state after any number of rounds is the result with the latest pairs left away. -/
theorem iterate_round_suffix (hg : g.Contiguous) (n : ℕ) : g.round^[n] [] <:+ g.matchLoop := by
  have mono : ∀ k m : ℕ, g.round^[m] [] <:+ g.round^[k + m] [] := by
    intro k m
    induction k with
    | zero => rw [Nat.zero_add]
    | succ k ih =>
      rw [Nat.succ_add, Function.iterate_succ_apply']
      exact ih.trans (round_suffix _)
  have hsum := mono g.incoming.length n
  rw [Nat.add_comm, Function.iterate_add_apply] at hsum
  change _ <:+ g.round^[n] g.matchLoop at hsum
  rwa [Function.iterate_fixed (matchLoop_settled hg)] at hsum

/-- A request is matched with a delivery when the two were paired. -/
theorem remote_eq_some (hg : g.Contiguous) {o : Outgoing} {i : Incoming} :
    g.remote o = some i ↔ (o, i) ∈ g.matchLoop := by
  have hlaw := (matchLoop_alwaysLawful hg).now
  rw [remote, Option.map_eq_some_iff]
  constructor
  · rintro ⟨p, hp, rfl⟩
    have ho : p.1 = o := by simpa using List.find?_some hp
    exact ho ▸ List.mem_of_find?_eq_some hp
  · intro h
    obtain ⟨p, hp⟩ := Option.isSome_iff_exists.1
      (List.find?_isSome.2 ⟨(o, i), h, by simp⟩ : (g.matchLoop.find? fun p ↦ p.1 == o).isSome = true)
    have ho : p.1 = o := by simpa using List.find?_some hp
    have heq := List.inj_on_of_nodup_map hlaw.requests (List.mem_of_find?_eq_some hp) h ho
    exact ⟨p, hp, by rw [heq]⟩

end Graph

/-! ## The graph of traces -/

theorem outgoingOf_key {ch : Chains} {frames : List Frame} {f : Frame} {o : Outgoing}
    (h : outgoingOf ch (byId frames) f = some o) : o.id.key = f.id.key := by
  obtain ⟨-, parent, hparent, hid⟩ := outgoingOf_eq_some h
  rw [Outgoing.id, hid, (byId_eq_some hparent).1]
  rfl

/-- The requests of a transaction are listed without another's between them. -/
theorem Traces.graph_contiguous (t : Traces) : t.graph.Contiguous := by
  intro y o x hsub hid
  have hkeys : (t.graph.outgoing.map fun o ↦ o.id.key).Sublist (t.frames.map fun f ↦ f.id.key) :=
    filterMap_names (fun _ _ ↦ outgoingOf_key) _
  have h := (hsub.map fun o ↦ o.id.key).trans hkeys
  rw [List.map_cons, List.map_cons, List.map_singleton, hid] at h
  exact congrArg Prod.fst (allFrames_contiguous _ _ t.distinct h)

/-- **The law of the pairs, at every moment of the loop.**  The moments are the results with the latest
pairs left away, and the state after any number of rounds is one of them. -/
theorem Traces.matchLoop_lawful (t : Traces) :
    (∀ k, t.graph.Lawful (t.graph.matchLoop.drop k) ∧ ∀ p ∈ t.graph.matchLoop.drop k,
      p.1.frameId.chain ≠ p.2.frameId.chain ∧ p.1.call = p.2.call ∧
        t.graph.sameResult p.1 p.2 = true) ∧
    ∀ n, ∃ k, t.graph.round^[n] [] = t.graph.matchLoop.drop k := by
  refine ⟨fun k ↦ ?_, fun n ↦ ?_⟩
  · have h := Graph.matchLoop_alwaysLawful t.graph_contiguous k
    refine ⟨h, fun p hp ↦ ?_⟩
    have hagree := h.agrees p hp
    exact ⟨Graph.agrees_opposite hagree, (sameIdentity_iff.1 (Graph.agrees_identity hagree)).1,
      Graph.agrees_sameResult hagree⟩
  · have hsuffix := Graph.iterate_round_suffix t.graph_contiguous n
    exact ⟨_, List.suffix_iff_eq_drop.1 hsuffix⟩

end TraceDecoder
