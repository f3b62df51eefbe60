import EezDashboard.Trace.Truth

/-!
# Which requests are matched

When requests differ in what they ask for, each has one delivery that agrees with it, and requests and
deliveries are nested in each other, the loop has no choice to make: it matches a request as soon as the
request that encloses it is matched.  But it looks for the enclosing delivery strictly above the proxy
frame of the request.  Where the target of a delivery is itself the proxy of a request, the frames of the
two coincide, the delivery is not seen to enclose the request, and the request stays unmatched.

`Traces.matched_iff` says that this, and two requests of one proxy frame, is all that can go wrong.
-/

set_option autoImplicit false

namespace TraceDecoder

namespace Graph

variable {g : Graph} {own : Outgoing → Incoming}

/-- The delivery whose target frame a request is made from: the nearest one at or above the request's
frame. -/
def enclosingIncoming (g : Graph) (o : Outgoing) : Option Incoming :=
  (g.incomingByFrame o.frameId).or (g.nearestIncoming o)

/-- Requests differ, each has exactly one delivery `own o` that agrees with it, and a request made from
within a delivered target frame, the target frame itself included, has its delivery inside the request
that was delivered there. -/
structure WellNested (g : Graph) (own : Outgoing → Incoming) : Prop where
  distinct : ∀ o ∈ g.outgoing, ∀ o' ∈ g.outgoing, o.call = o'.call → o = o'
  listed : ∀ o ∈ g.outgoing, own o ∈ g.incoming
  agrees : ∀ o ∈ g.outgoing, g.agrees o (own o) = true
  only : ∀ o ∈ g.outgoing, ∀ i ∈ g.incoming, g.agrees o i = true → i = own o
  nested : ∀ o ∈ g.outgoing, (g.enclosingIncoming o = none ∧ g.nearestOutgoing (own o) = none) ∨
    ∃ l r, g.enclosingIncoming o = some l ∧ g.nearestOutgoing (own o) = some r ∧ own r = l

/-- No frame is both the target of a delivery and the proxy of a request. -/
def SingleRole (g : Graph) : Prop := ∀ i ∈ g.incoming, ∀ o ∈ g.outgoing, i.frameId ≠ o.frameId

namespace WellNested

/-- A delivery belongs to one request only. -/
theorem own_inj (h : g.WellNested own) {o o' : Outgoing} (ho : o ∈ g.outgoing)
    (ho' : o' ∈ g.outgoing) (heq : own o = own o') : o = o' := by
  have hcall := (sameIdentity_iff.1 (agrees_identity (h.agrees o ho))).1
  have hcall' := (sameIdentity_iff.1 (agrees_identity (h.agrees o' ho'))).1
  exact h.distinct o ho o' ho' (hcall.trans (heq ▸ hcall'.symm))

theorem eq_own (h : g.WellNested own) {st : List Pair} {o : Outgoing} {i : Incoming}
    (ho : o ∈ g.outgoing) (hi : i ∈ g.available st o) : i = own o := by
  obtain ⟨hin, -, hagree, -⟩ := mem_available.1 hi
  exact h.only o ho i hin hagree

/-- Only the request itself contends for its delivery. -/
theorem eq_of_contender (h : g.WellNested own) {st₀ st : List Pair} {o c : Outgoing}
    (ho : o ∈ g.outgoing) (hc : c ∈ g.contenders (g.pending st₀) st (own o)) : c = o := by
  obtain ⟨hpend, -, j, hj, hid⟩ := mem_contenders.1 hc
  have hcout := (mem_pending.1 hpend).1
  obtain rfl := h.eq_own hcout hj
  exact h.own_inj hcout ho (incoming_inj (h.listed c hcout) (h.listed o ho) hid)

/-- Equal requests do not occur, so the second rule never applies. -/
theorem orderedGroup_eq_none (h : g.WellNested own) (st₀ st : List Pair) (first : Outgoing) :
    g.orderedGroup (g.pending st₀) st first = none := by
  rw [Option.eq_none_iff_forall_ne_some]
  intro pairs hpairs
  have hord := orderedGroup_eq_some hpairs
  have hnodup : (group (g.pending st₀) st first).Nodup := (g.pending_nodup st₀).filter _
  match hgroup : group (g.pending st₀) st first, hord.two, hnodup with
  | x :: y :: l, _, hnodup =>
    have hmem : ∀ o ∈ x :: y :: l, o ∈ g.outgoing ∧ first.call = o.call := by
      intro o ho
      rw [← hgroup] at ho
      obtain ⟨hpend, -, -, hsame⟩ := mem_group.1 ho
      exact ⟨(mem_pending.1 hpend).1, (sameIdentity_iff.1 hsame).1⟩
    obtain ⟨hx, hcx⟩ := hmem x (by simp)
    obtain ⟨hy, hcy⟩ := hmem y (by simp)
    obtain rfl := h.distinct x hx y hy (hcx.symm.trans hcy)
    simp at hnodup

theorem orderedPass_eq (h : g.WellNested own) (st₀ st : List Pair) :
    g.orderedPass (g.pending st₀) st = st := by
  rw [orderedPass]
  generalize (g.pending st₀).filter (fun o ↦ (assigned st o.id).isNone) = firsts
  induction firsts with
  | nil => rfl
  | cons first firsts ih => rw [List.foldl_cons, visitGroup, h.orderedGroup_eq_none, ih]

/-- Every pair is a request with its own delivery, and no two requests of one name are paired. -/
structure Exact (g : Graph) (own : Outgoing → Incoming) (st : List Pair) : Prop where
  outgoing : ∀ p ∈ st, p.1 ∈ g.outgoing
  own : ∀ p ∈ st, p.2 = own p.1
  named : (st.map fun p ↦ p.1.id).Nodup

theorem round_exact (h : g.WellNested own) {st₀ : List Pair} (h₀ : Exact g own st₀) :
    Exact g own (g.round st₀) := by
  rw [round, h.orderedPass_eq]
  split
  · exact h₀
  · refine uniquePass_induction (fun _ st ↦ Exact g own st) h₀ (fun _ _ _ _ _ hst ↦ hst) ?_
    rintro done o rest st i hp hst hi hunique
    have ho : o ∈ g.outgoing := (mem_pending.1 (hp ▸ by simp : o ∈ g.pending st₀)).1
    obtain rfl := h.eq_own ho (hi ▸ List.mem_singleton_self i)
    -- the one contender is `o`, so its name is still free
    obtain ⟨c, hc⟩ := List.length_eq_one_iff.1 hunique
    have hmem : c ∈ g.contenders (g.pending st₀) st (own o) := hc ▸ List.mem_singleton_self c
    obtain rfl := h.eq_of_contender ho hmem
    have hfree := (mem_contenders.1 hmem).2.1
    refine ⟨?_, ?_, ?_⟩
    · rw [List.forall_mem_cons]
      exact ⟨ho, hst.outgoing⟩
    · rw [List.forall_mem_cons]
      exact ⟨rfl, hst.own⟩
    · rw [List.map_cons, List.nodup_cons]
      refine ⟨?_, hst.named⟩
      intro hin
      obtain ⟨p, hp', he⟩ := List.mem_map.1 hin
      exact assigned_eq_none.1 hfree p hp' he

theorem matchLoop_exact (h : g.WellNested own) : Exact g own g.matchLoop :=
  Settle.iterate_preserves (P := Exact g own) (fun _ ↦ h.round_exact)
    ⟨by simp, by simp, by simp⟩ _

/-- Where the names of requests and the roles of frames are single, the enclosing delivery is looked for in
the right place. -/
theorem enclosingIncoming_eq (hrole : g.SingleRole) {o : Outgoing} (ho : o ∈ g.outgoing) :
    g.enclosingIncoming o = g.nearestIncoming o := by
  have hnone : g.incomingByFrame o.frameId = none := by
    rw [Option.eq_none_iff_forall_ne_some]
    intro i hi
    obtain ⟨hin, hid⟩ := incomingByFrame_eq_some hi
    exact hrole i hin o ho hid
  rw [enclosingIncoming, hnone, Option.none_or]

/-- In a state in which the first rule makes no progress every request is paired: otherwise one whose
enclosing request is paired would be. -/
theorem mem_of_settled (h : g.WellNested own) (hone : (g.outgoing.map Outgoing.id).Nodup)
    (hrole : g.SingleRole) {st : List Pair} (hst : Exact g own st)
    (hsettled : ∀ o ∈ g.pending st, g.visit (g.pending st) st o = st) :
    ∀ (n : ℕ) (o : Outgoing), o ∈ g.outgoing →
      o.frameId.path.length + (own o).frameId.path.length = n → (o, own o) ∈ st := by
  intro n
  induction n using Nat.strong_induction_on with
  | _ n ih =>
    intro o ho hn
    by_contra hnot
    have mem_of_id : ∀ p ∈ st, p.1.id = o.id → (o, own o) ∈ st := by
      intro p hp hid
      have heq := request_inj hone (hst.outgoing p hp) ho hid
      have hown := hst.own p hp
      rw [heq] at hown
      rwa [show p = (o, own o) from Prod.ext heq hown] at hp
    have hfree : assigned st o.id = none := assigned_eq_none.2 fun p hp hid ↦ hnot (mem_of_id p hp hid)
    have hpend : o ∈ g.pending st := mem_pending.2 ⟨ho, hfree⟩
    have hrel : g.released st o (own o) = true := by
      rw [released_iff]
      refine (h.nested o ho).imp (And.imp_left fun hl ↦ by rwa [← enclosingIncoming_eq hrole ho]) ?_
      rintro ⟨l, r, hl, hr, rfl⟩
      rw [enclosingIncoming_eq hrole ho] at hl
      obtain ⟨hrout, -, hrlt⟩ := nearestOutgoing_eq_some hr
      obtain ⟨-, -, hllt⟩ := nearestIncoming_eq_some hl
      refine ⟨own r, r, hl, hr, ?_⟩
      have hmem := ih _ (by omega) r hrout rfl
      cases ha : assigned st r.id with
      | none => exact absurd rfl (assigned_eq_none.1 ha _ hmem)
      | some x =>
        obtain ⟨p, hp, hid, rfl⟩ := exists_of_assigned ha
        have heq := request_inj hone (hst.outgoing p hp) hrout hid
        rw [hst.own p hp, heq]
    have hused : used st (own o) = false := by
      rw [used_eq_false]
      intro p hp hid
      rw [hst.own p hp] at hid
      have hpout := hst.outgoing p hp
      have heq := h.own_inj hpout ho (incoming_inj (h.listed _ hpout) (h.listed o ho) hid)
      exact hnot (mem_of_id p hp (congrArg Outgoing.id heq))
    have havail : own o ∈ g.available st o :=
      mem_available.2 ⟨h.listed o ho, hused, h.agrees o ho, hrel⟩
    have hsingle : g.available st o = [own o] := by
      refine List.perm_singleton.1 ((List.perm_ext_iff_of_nodup ?_ (List.nodup_singleton _)).2 ?_)
      · exact (g.incoming_nodup.of_map _).filter _
      · intro i
        rw [List.mem_singleton]
        exact ⟨fun hi ↦ h.eq_own ho hi, fun hi ↦ hi ▸ havail⟩
    have hcontend : g.contenders (g.pending st) st (own o) = [o] := by
      refine List.perm_singleton.1 ((List.perm_ext_iff_of_nodup ?_ (List.nodup_singleton _)).2 ?_)
      · exact (g.pending_nodup st).filter _
      · intro c
        rw [List.mem_singleton]
        refine ⟨fun hc ↦ h.eq_of_contender ho hc, ?_⟩
        rintro rfl
        exact mem_contenders.2 ⟨hpend, hfree, own c, havail, rfl⟩
    have hvisit := hsettled o hpend
    rw [visit, hsingle] at hvisit
    dsimp only at hvisit
    rw [hcontend, List.length_singleton, if_pos rfl] at hvisit
    exact List.cons_ne_self _ _ hvisit

end WellNested

/-- In the state the loop leaves, no visit makes progress. -/
theorem visit_matchLoop (hg : g.Contiguous) :
    ∀ o ∈ g.pending g.matchLoop, g.visit (g.pending g.matchLoop) g.matchLoop o = g.matchLoop := by
  have hpass : g.uniquePass g.matchLoop = g.matchLoop := by
    have hround := matchLoop_settled hg
    rw [round] at hround
    split at hround
    · rename_i hlen
      exact ((foldl_suffix (visit_suffix _) _ g.matchLoop).eq_of_length hlen.symm).symm
    · exact hround
  rw [uniquePass] at hpass
  generalize g.pending g.matchLoop = pending at hpass ⊢
  have still : ∀ l : List Outgoing, l.foldl (g.visit pending) g.matchLoop = g.matchLoop →
      ∀ o ∈ l, g.visit pending g.matchLoop o = g.matchLoop := by
    intro l
    induction l with
    | nil => simp
    | cons o l ih =>
      intro hfold
      rw [List.foldl_cons] at hfold
      have hfirst := visit_suffix (g := g) pending g.matchLoop o
      have hrest := foldl_suffix (visit_suffix (g := g) pending) l (g.visit pending g.matchLoop o)
      rw [hfold] at hrest
      have hvisit : g.visit pending g.matchLoop o = g.matchLoop :=
        hrest.eq_of_length (le_antisymm hrest.length_le hfirst.length_le)
      rw [hvisit] at hfold
      rw [List.forall_mem_cons]
      exact ⟨hvisit, ih hfold⟩
  exact still pending hpass

end Graph

/-- **When every request is matched.**  In a well-nested set of traces every request ends with status
`matched` and its own delivery if and only if no frame is both the target of a delivery and the proxy of a
request, and no proxy frame makes two requests. -/
theorem Traces.matched_iff (t : Traces) {own : Outgoing → Incoming} (h : t.graph.WellNested own) :
    (∀ o ∈ t.graph.outgoing, t.graph.remote o = some (own o)) ↔
      t.graph.SingleRole ∧ (t.graph.outgoing.map Outgoing.id).Nodup := by
  have hg := t.graph_contiguous
  have hexact := h.matchLoop_exact
  constructor
  · intro hall
    have hmem : ∀ o ∈ t.graph.outgoing, (o, own o) ∈ t.graph.matchLoop :=
      fun o ho ↦ (Graph.remote_eq_some hg).1 (hall o ho)
    have hone : (t.graph.outgoing.map Outgoing.id).Nodup := by
      refine List.Nodup.map_on ?_ t.graph.outgoing_list_nodup
      intro o ho o' ho' hid
      exact congrArg Prod.fst (List.inj_on_of_nodup_map hexact.named (hmem o ho) (hmem o' ho') hid)
    refine ⟨?_, hone⟩
    intro i hi o ho hframe
    -- the delivery at the request's own frame encloses it, but is not found strictly above it
    obtain ⟨d, hd⟩ : ∃ d, t.graph.incomingByFrame o.frameId = some d := by
      rw [← Option.isSome_iff_exists, Graph.incomingByFrame, List.find?_isSome]
      exact ⟨i, List.mem_reverse.2 hi, by simpa using hframe⟩
    obtain ⟨hdin, hdframe⟩ := Graph.incomingByFrame_eq_some hd
    have henc : t.graph.enclosingIncoming o = some d := by rw [Graph.enclosingIncoming, hd]; rfl
    rcases h.nested o ho with ⟨hnone, -⟩ | ⟨l, r, hl, hr, hown⟩
    · exact absurd (hnone.symm.trans henc) (Option.some_ne_none d).symm
    obtain rfl := Option.some.inj (henc.symm.trans hl)
    have hlaw := (Graph.matchLoop_alwaysLawful hg).now
    rcases hlaw.enclosed _ (hmem o ho) with ⟨-, hnone⟩ | ⟨l, r', hl', hr', ha⟩
    · exact absurd (hnone.symm.trans hr) (Option.some_ne_none r).symm
    obtain rfl := Option.some.inj (hr.symm.trans hr')
    obtain ⟨p, hp, hpid, hpl⟩ := exists_of_assigned ha
    obtain ⟨hlin, -, hlt⟩ := Graph.nearestIncoming_eq_some hl'
    have heq := Graph.request_inj hone (hexact.outgoing p hp) (Graph.nearestOutgoing_eq_some hr).1 hpid
    rw [hexact.own p hp, heq, hown] at hpl
    rw [← Graph.incoming_inj hdin hlin hpl, hdframe] at hlt
    exact lt_irrefl _ hlt
  · rintro ⟨hrole, hone⟩ o ho
    rw [Graph.remote_eq_some hg]
    exact h.mem_of_settled hone hrole hexact (Graph.visit_matchLoop hg) _ o ho rfl

/-- The delivery that agrees with a request, where there is one. -/
def sampleOwn (t : Traces) (o : Outgoing) : Incoming :=
  (t.graph.incoming.find? fun i ↦ t.graph.agrees o i).getD (sampleTrue (fun _ ↦ 0) o)

theorem sample_nested {t : Traces}
    (h : ∀ o ∈ t.graph.outgoing, t.graph.enclosingIncoming o =
      (t.graph.nearestOutgoing (sampleOwn t o)).map (sampleOwn t)) :
    ∀ o ∈ t.graph.outgoing,
      (t.graph.enclosingIncoming o = none ∧ t.graph.nearestOutgoing (sampleOwn t o) = none) ∨
        ∃ l r, t.graph.enclosingIncoming o = some l ∧
          t.graph.nearestOutgoing (sampleOwn t o) = some r ∧ sampleOwn t r = l := by
  intro o ho
  have heq := h o ho
  cases hr : t.graph.nearestOutgoing (sampleOwn t o) with
  | none => exact Or.inl ⟨by rw [heq, hr]; rfl, rfl⟩
  | some r => exact Or.inr ⟨sampleOwn t r, r, by rw [heq, hr]; rfl, rfl, rfl⟩

theorem Traces.matched_iff_once :
    (∀ o ∈ sampleOnce.graph.outgoing, sampleOnce.graph.remote o = some (sampleOwn sampleOnce o)) ↔
      sampleOnce.graph.SingleRole ∧ (sampleOnce.graph.outgoing.map Outgoing.id).Nodup :=
  sampleOnce.matched_iff
    { distinct := by decide +kernel
      listed := by decide +kernel
      agrees := by decide +kernel
      only := by decide +kernel
      nested := sample_nested (by decide +kernel) }

/-- The contract on L2 that `cc` calls through `b1` is itself the proxy of the contract `ff` on L1. -/
def sampleCallback : Traces :=
  sampleTraces
    (sampleCall .call 0xe0 0xcc [] [sampleCall .call 0xcc 0xb1 [0xdd]
      [sampleCall .call 0xb1 0xa1 [0x01, 0xcc] [sampleDelivery .call 0xa1 0xb3 0xff []]]])
    (sampleCall .call 0xe0 0xa2 []
      [sampleDelivery .call 0xa2 0xb2 0xee [sampleCall .call 0xee 0xa2 [0x01, 0xb2] []]])

/-- The request back to L1 has its delivery, and stays unmatched. -/
theorem Traces.not_matched_callback :
    sampleCallback.graph.WellNested (sampleOwn sampleCallback) ∧
      sampleCallback.graph.outgoing.map (fun o ↦ (sampleCallback.graph.remote o).isSome) =
        [true, false] :=
  ⟨{ distinct := by decide +kernel
     listed := by decide +kernel
     agrees := by decide +kernel
     only := by decide +kernel
     nested := sample_nested (by decide +kernel) }, by decide +kernel⟩

end TraceDecoder
