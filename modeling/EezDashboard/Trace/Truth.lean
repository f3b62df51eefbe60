import Mathlib
import EezDashboard.Trace.Pairing

/-!
# The pairs are true

Suppose the true execution delivered each request somewhere, and the deliveries that are listed are among
these.  The loop does not know which is which; what it sees of a request and of its true delivery agrees,
and so does their nesting.  Then every pair it makes is true, when the requests come from different proxy
frames: a delivery that is available to any request is available to the one it truly belongs to, so a
unique contender is the true one, and an ordered group takes exactly its own deliveries.

A second request of one proxy frame goes by the first one's name.  It is still visited when the first has
just been paired, and is then not counted among the contenders, so it can take another's delivery.
-/

set_option autoImplicit false

namespace TraceDecoder

namespace Graph

/-- The true execution: `T o` is where the request `o` was delivered, listed or not. -/
structure TrueExecution (g : Graph) (T : Outgoing → Incoming) : Prop where
  injective : ∀ o ∈ g.outgoing, ∀ o' ∈ g.outgoing, T o = T o' → o = o'
  listed : ∀ i ∈ g.incoming, ∃ o ∈ g.outgoing, T o = i
  agrees : ∀ o ∈ g.outgoing, T o ∈ g.incoming → g.agrees o (T o) = true
  nested : ∀ o ∈ g.outgoing, (g.nearestIncoming o = none ∧ g.nearestOutgoing (T o) = none) ∨
    ∃ l r, g.nearestIncoming o = some l ∧ g.nearestOutgoing (T o) = some r ∧ T r = l
  ordered : ∀ o ∈ g.outgoing, ∀ o' ∈ g.outgoing, g.nearestIncoming o = none →
    g.nearestIncoming o' = none → o.generationId = o'.generationId →
    sameIdentity o.call o'.call = true → ∀ m n, o.consumed = [some m] → o'.consumed = [some n] →
    m < n → T o ∈ g.incoming → T o' ∈ g.incoming → g.position (T o) < g.position (T o')

variable {g : Graph} {T : Outgoing → Incoming}

/-- Only true pairs have been made. -/
def Sound (g : Graph) (T : Outgoing → Incoming) (st : List Pair) : Prop :=
  ∀ p ∈ st, p.1 ∈ g.outgoing ∧ p.2 ∈ g.incoming ∧ T p.1 = p.2

theorem request_inj (hone : (g.outgoing.map Outgoing.id).Nodup) {o o' : Outgoing}
    (ho : o ∈ g.outgoing) (ho' : o' ∈ g.outgoing) (h : o.id = o'.id) : o = o' :=
  List.inj_on_of_nodup_map hone ho ho' h

/-- A delivery that is available to some request is available to the one it belongs to, which is still
waiting for it. -/
theorem TrueExecution.available_true (hT : g.TrueExecution T)
    (hone : (g.outgoing.map Outgoing.id).Nodup) {st : List Pair} (hst : g.Sound T st) {o t : Outgoing}
    (ht : t ∈ g.outgoing) (h : T t ∈ g.available st o) :
    T t ∈ g.available st t ∧ assigned st t.id = none := by
  obtain ⟨hin, hused, -, hrel⟩ := mem_available.1 h
  have hfree : assigned st t.id = none := by
    rw [assigned_eq_none]
    intro p hp hid
    obtain ⟨ho, -, htrue⟩ := hst p hp
    obtain rfl := request_inj hone ho ht hid
    exact used_eq_false.1 hused p hp (congrArg Incoming.id htrue).symm
  refine ⟨mem_available.2 ⟨hin, hused, hT.agrees t ht hin, released_iff.2 ?_⟩, hfree⟩
  rcases released_iff.1 hrel with ⟨-, hnone⟩ | ⟨l, r, -, hr, ha⟩
  · rcases hT.nested t ht with hnone' | ⟨l, r, -, hr, -⟩
    · exact Or.inl hnone'
    · exact absurd (hnone.symm.trans hr) (Option.some_ne_none r).symm
  · rcases hT.nested t ht with ⟨-, hnone⟩ | ⟨l', r', hl', hr', htrue⟩
    · exact absurd (hnone.symm.trans hr) (Option.some_ne_none r).symm
    · -- the enclosing request was paired with its true delivery, the one that encloses `t`
      obtain rfl := Option.some.inj (hr.symm.trans hr')
      obtain ⟨p, hp, hpid, hpl⟩ := exists_of_assigned ha
      obtain ⟨ho, -, htrue'⟩ := hst p hp
      obtain rfl := request_inj hone ho (nearestOutgoing_eq_some hr).1 hpid
      refine Or.inr ⟨l', p.1, hl', hr, ?_⟩
      rw [ha, ← hpl, ← htrue', htrue]

theorem uniquePass_sound (hT : g.TrueExecution T) (hone : (g.outgoing.map Outgoing.id).Nodup)
    {st₀ : List Pair} (h₀ : g.Sound T st₀) : g.Sound T (g.uniquePass st₀) := by
  let M : List Outgoing → List Pair → Prop := fun done st ↦
    g.Sound T st ∧ st₀ ⊆ st ∧ ∀ p ∈ st, p ∈ st₀ ∨ p.1 ∈ done
  refine (uniquePass_induction M ?start ?skip ?pair).1
  case start => exact ⟨h₀, List.Subset.refl _, fun p hp ↦ Or.inl hp⟩
  case skip =>
    rintro done o rest st - ⟨hst, hsub, hfrom⟩
    exact ⟨hst, hsub, fun p hp ↦ (hfrom p hp).imp_right (List.mem_append_left _)⟩
  case pair =>
    rintro done o rest st i hp ⟨hst, hsub, hfrom⟩ hi hunique
    have hnodup := hp ▸ g.pending_nodup st₀
    have ho₀ : o ∈ g.pending st₀ := by rw [hp]; simp
    obtain ⟨ho, hfree⟩ := mem_pending.1 ho₀
    have hi' : i ∈ g.available st o := by rw [hi]; exact List.mem_singleton_self i
    have hin := (mem_available.1 hi').1
    -- `o` has not been paired in this round, since no other request goes by its name
    have hfree' : assigned st o.id = none := by
      rw [assigned_eq_none]
      intro p hp' hid
      rcases hfrom p hp' with h | h
      · exact assigned_eq_none.1 hfree p h hid
      · obtain rfl := request_inj hone (hst p hp').1 ho hid
        exact List.disjoint_of_nodup_append hnodup h List.mem_cons_self
    obtain ⟨t, ht, rfl⟩ := hT.listed i hin
    obtain ⟨hti, htfree⟩ := hT.available_true hone hst ht hi'
    have htpend : t ∈ g.pending st₀ :=
      mem_pending.2 ⟨ht, assigned_eq_none.2 fun p hp' ↦ assigned_eq_none.1 htfree p (hsub hp')⟩
    -- both `o` and the true request `t` are contenders, and there is only one
    have hot : t = o := by
      obtain ⟨x, hx⟩ := List.length_eq_one_iff.1 hunique
      have h₁ : o ∈ g.contenders (g.pending st₀) st (T t) :=
        mem_contenders.2 ⟨ho₀, hfree', T t, hi', rfl⟩
      have h₂ : t ∈ g.contenders (g.pending st₀) st (T t) :=
        mem_contenders.2 ⟨htpend, htfree, T t, hti, rfl⟩
      rw [hx, List.mem_singleton] at h₁ h₂
      exact h₂.trans h₁.symm
    refine ⟨?_, List.subset_cons_of_subset _ hsub, ?_⟩
    · rw [Sound, List.forall_mem_cons]
      exact ⟨⟨ho, hin, by rw [hot]⟩, hst⟩
    · rw [List.forall_mem_cons]
      exact ⟨Or.inr (by simp), fun p hp' ↦ (hfrom p hp').imp_right (List.mem_append_left _)⟩

/-! ## Ordered groups -/

/-- The indices a group consumed, one each, rise along the group. -/
theorem pairwise_of_increasing {l : List Outgoing} (hone : ∀ o ∈ l, o.consumed.length = 1)
    (h : increasing (l.flatMap Outgoing.consumed) = true) :
    l.Pairwise fun o o' ↦ ∃ m n, o.consumed = [some m] ∧ o'.consumed = [some n] ∧ m < n := by
  simp only [increasing, Bool.and_eq_true, decide_eq_true_eq] at h
  obtain ⟨hsome, hlt⟩ := h
  induction l with
  | nil => exact List.Pairwise.nil
  | cons o l ih =>
    obtain ⟨c, hc⟩ := List.length_eq_one_iff.1 (hone o List.mem_cons_self)
    simp only [List.flatMap_cons, hc, List.singleton_append, List.all_cons, Bool.and_eq_true] at hsome hlt
    obtain ⟨m, rfl⟩ := Option.isSome_iff_exists.1 hsome.1
    rw [List.reduceOption_cons_of_some, List.pairwise_cons] at hlt
    refine List.Pairwise.cons ?_ (ih (fun o ho ↦ hone o (List.mem_cons_of_mem _ ho)) hsome.2 hlt.2)
    intro o' ho'
    obtain ⟨c', hc'⟩ := List.length_eq_one_iff.1 (hone o' (List.mem_cons_of_mem _ ho'))
    have hmem : c' ∈ l.flatMap Outgoing.consumed := List.mem_flatMap.2 ⟨o', ho', by simp [hc']⟩
    obtain ⟨n, rfl⟩ := Option.isSome_iff_exists.1 (List.all_eq_true.1 hsome.2 c' hmem)
    exact ⟨m, n, hc, hc', hlt.1 n (List.reduceOption_mem_iff.2 hmem)⟩

/-- Sorting by a key finds the arrangement in which the keys rise strictly. -/
theorem insertionSort_eq_of_perm {α κ : Type} [LinearOrder κ] (key : α → κ) {l l' : List α}
    (hperm : l.Perm l') (hsorted : l'.Pairwise fun a b ↦ key a < key b) :
    l.insertionSort (fun a b ↦ key a ≤ key b) = l' := by
  have : Std.Total fun a b ↦ key a ≤ key b := ⟨fun a b ↦ le_total (key a) (key b)⟩
  have : IsTrans α fun a b ↦ key a ≤ key b := ⟨fun _ _ _ ↦ le_trans⟩
  have hkeys : (l'.map key).Nodup := List.pairwise_map.2 (hsorted.imp ne_of_lt)
  have hperm' := (List.perm_insertionSort (fun a b ↦ key a ≤ key b) l).trans hperm
  refine hperm'.eq_of_pairwise ?_ (List.pairwise_insertionSort _ l) (hsorted.imp le_of_lt)
  intro a b ha hb hab hba
  exact List.inj_on_of_nodup_map hkeys (hperm'.subset ha) hb (le_antisymm hab hba)

theorem visitGroup_sound (hT : g.TrueExecution T) (hone : (g.outgoing.map Outgoing.id).Nodup)
    {st₀ st : List Pair} (hsub : st₀ ⊆ st) (hst : g.Sound T st) (first : Outgoing) :
    g.Sound T (g.visitGroup (g.pending st₀) st first) := by
  rw [visitGroup]
  cases hpairs : g.orderedGroup (g.pending st₀) st first with
  | none => exact hst
  | some pairs =>
    have h := orderedGroup_eq_some hpairs
    have hgroup : ∀ o ∈ group (g.pending st₀) st first, o ∈ g.outgoing :=
      fun o ho ↦ (mem_pending.1 (mem_group.1 ho).1).1
    -- what is available to the group truly belongs to it
    have hown : g.available st first ⊆ (group (g.pending st₀) st first).map T := by
      intro i hi
      obtain ⟨t, ht, rfl⟩ := hT.listed i (mem_available.1 hi).1
      obtain ⟨hti, htfree⟩ := hT.available_true hone hst ht hi
      have htpend : t ∈ g.pending st₀ :=
        mem_pending.2 ⟨ht, assigned_eq_none.2 fun p hp' ↦ assigned_eq_none.1 htfree p (hsub hp')⟩
      by_contra hnot
      exact h.closed t htpend (fun hmem ↦ hnot (List.mem_map_of_mem hmem)) _ hti hi
    have hnodup : (g.available st first).Nodup := (g.incoming_nodup.of_map _).filter _
    have hperm : (g.available st first).Perm ((group (g.pending st₀) st first).map T) :=
      (List.subperm_of_subset hnodup hown).perm_of_length_le
        (by rw [List.length_map, h.candidates])
    have hlisted : ∀ o ∈ group (g.pending st₀) st first, T o ∈ g.incoming :=
      fun o ho ↦ (mem_available.1 (hperm.mem_iff.2 (List.mem_map_of_mem ho))).1
    -- and lies in the order of the group
    have hsorted : ((group (g.pending st₀) st first).map T).Pairwise
        fun i j ↦ g.position i < g.position j := by
      rw [List.pairwise_map]
      refine (pairwise_of_increasing (fun o ho ↦ (h.topLevel o ho).1) h.increasing).imp_of_mem ?_
      rintro o o' ho ho' ⟨m, n, hm, hn, hlt⟩
      obtain ⟨-, -, hgen, hsame⟩ := mem_group.1 ho
      obtain ⟨-, -, hgen', hsame'⟩ := mem_group.1 ho'
      exact hT.ordered o (hgroup o ho) o' (hgroup o' ho') (h.topLevel o ho).2 (h.topLevel o' ho').2
        (hgen.trans hgen'.symm) (sameIdentity_trans (sameIdentity_symm hsame) hsame') m n hm hn hlt
        (hlisted o ho) (hlisted o' ho')
    have heq : (g.available st first).insertionSort (fun i j ↦ g.position i ≤ g.position j) =
        (group (g.pending st₀) st first).map T := by
      exact insertionSort_eq_of_perm g.position hperm hsorted
    intro p hp
    rw [List.mem_append, List.mem_reverse] at hp
    rcases hp with hp | hp
    · have hmem := h.request hp
      have hzip : (group (g.pending st₀) st first).zip ((group (g.pending st₀) st first).map T) =
          (group (g.pending st₀) st first).map fun o ↦ (o, T o) := by
        simpa using List.zip_map' (f := id) (g := T) (l := group (g.pending st₀) st first)
      have hpair := hp
      rw [h.pairs_eq, heq, hzip] at hpair
      obtain ⟨o, -, rfl⟩ := List.mem_map.1 hpair
      exact ⟨hgroup _ hmem, (mem_available.1 (h.available _ hp)).1, rfl⟩
    · exact hst p hp

theorem orderedPass_sound (hT : g.TrueExecution T) (hone : (g.outgoing.map Outgoing.id).Nodup)
    {st₀ : List Pair} (h₀ : g.Sound T st₀) : g.Sound T (g.orderedPass (g.pending st₀) st₀) := by
  have run : ∀ (firsts : List Outgoing) (st : List Pair), st₀ ⊆ st → g.Sound T st →
      g.Sound T (firsts.foldl (g.visitGroup (g.pending st₀)) st) := by
    intro firsts
    induction firsts with
    | nil => exact fun _ _ hst ↦ hst
    | cons first firsts ih =>
      intro st hsub hst
      exact ih _ (List.Subset.trans hsub (visitGroup_suffix _ st first).subset)
        (visitGroup_sound hT hone hsub hst first)
  exact run _ st₀ (List.Subset.refl _) h₀

theorem round_sound (hT : g.TrueExecution T) (hone : (g.outgoing.map Outgoing.id).Nodup)
    {st : List Pair} (h : g.Sound T st) : g.Sound T (g.round st) := by
  rw [round]
  split
  · exact orderedPass_sound hT hone h
  · exact uniquePass_sound hT hone h

/-- **The pairs are true**, whatever frames there are and in whatever order they are listed, when no proxy
frame makes two requests. -/
theorem matchLoop_true (hT : g.TrueExecution T) (hone : (g.outgoing.map Outgoing.id).Nodup) :
    ∀ p ∈ g.matchLoop, T p.1 = p.2 := by
  have hsound : g.Sound T g.matchLoop :=
    Settle.iterate_preserves (P := g.Sound T) (fun _ ↦ round_sound hT hone) (by simp [Sound]) _
  exact fun p hp ↦ (hsound p hp).2.2

end Graph

/-! ## Two small chains -/

/-- Two chains with one manager and four proxies each.  Calldata of two bytes is `01 s` and `02 s`, the
requests of the source `s`, or `20 a`, a call forwarded to `a`. -/
def sampleChains : Chains where
  managers
    | .l1 => some [0xa1]
    | .l2 => some [0xa2]
  parseManager _ input :=
    match input with
    | [0x01, source] => some ⟨.executeCrossChainCall, [source], [0xdd]⟩
    | [0x02, source] => some ⟨.staticCrossChainCall, [source], [0xdd]⟩
    | _ => none
  rollupIds
    | .l1 => some 1
    | .l2 => some 2
  authorizedProxies chain address _ :=
    match chain, address with
    | .l1, [a] => ([(0xb1, 0xee), (0xb3, 0xb2), (0xc1, 0xc2), (0xd1, 0xd2)].lookup a).map (⟨[·], 2⟩)
    | .l2, [a] => ([(0xb2, 0xcc), (0xee, 0xff), (0xc2, 0xc1), (0xd2, 0xd1)].lookup a).map (⟨[·], 1⟩)
    | _, _ => none
  parseForward input :=
    match input with
    | [0x20, target] => some ⟨[target], 7, [0xdd]⟩
    | _ => none
  managerEvents _ := ⟨none, []⟩
  callHash _ _ := []
  tables _ := none
  transactionLinks := []
  settlements := [⟨0, 5, 5, [0x51]⟩]
  matchingDisabled := false

/-- A call without value that succeeds and returns nothing. -/
def sampleCall (type : CallType) (sender target : UInt8) (input : Hex) (calls : List RawCall) :
    RawCall :=
  .mk type (some [sender]) (some [target]) input [] 0 none calls

/-- A proxy of L1 is called by `cc` and makes requests. -/
def sampleRequests (kinds : List UInt8) : RawCall :=
  sampleCall .call 0xcc 0xb1 [0xdd] (kinds.map fun b ↦ sampleCall .call 0xb1 0xa1 [b, 0xcc] [])

/-- The manager of a chain hands a call to a proxy, which carries it on. -/
def sampleDelivery (type : CallType) (manager proxy target : UInt8) (calls : List RawCall) : RawCall :=
  sampleCall type manager proxy [0x20, target] [sampleCall .call proxy target [0xdd] calls]

/-- One transaction on each chain. -/
def sampleTraces (l₁ l₂ : RawCall) : Traces where
  chains := sampleChains
  transactions :=
    [⟨.l1, [0x51], 9, 0, none, [], some 1, some l₁⟩, ⟨.l2, [0x52], 5, 0, none, [], some 1, some l₂⟩]
  distinct := by simp [Transaction.key]

/-- A static request is delivered by the first call on L2, the others by the later ones. -/
def sampleTrue (later : Outgoing → ℕ) (o : Outgoing) : Incoming :=
  let path : List ℕ := [if o.call.isStatic then 0 else later o, 0]
  { frameId := ⟨.l2, [0x52], 0 :: path⟩
    proxyFrameId := ⟨.l2, [0x52], path⟩
    call := o.call
    gas := 7
    generationId := none
    settlementIds := [0]
    tableRows := [] }

/-- Two proxy frames make one request each. -/
def sampleOnce : Traces :=
  sampleTraces (sampleCall .call 0xe0 0xcc [] [sampleRequests [0x02], sampleRequests [0x01]])
    (sampleCall .call 0xe0 0xa2 []
      [sampleDelivery .staticCall 0xa2 0xb2 0xee [], sampleDelivery .call 0xa2 0xb2 0xee []])

/-- The first proxy frame makes two requests, and the second of them is delivered through a proxy that is
not known. -/
def sampleTwice : Traces :=
  sampleTraces (sampleCall .call 0xe0 0xcc [] [sampleRequests [0x02, 0x01], sampleRequests [0x01]])
    (sampleCall .call 0xe0 0xa2 [] [sampleDelivery .staticCall 0xa2 0xb2 0xee [],
      sampleDelivery .call 0xa2 0xb2 0xee [], sampleDelivery .call 0xa2 0xb9 0xee []])

/-- The chains with two more proxies and with tables: that of L1 has two entries for calls to `ef`, and those of L2
announce one.  Calldata `30` and `40` loads a table. -/
def sampleTabled : Chains :=
  { sampleChains with
    parseManager := fun chain input ↦
      match input with
      | [0x30] => some ⟨.postAndVerifyBatch, [], []⟩
      | [0x40] => some ⟨.executeIncomingCrossChainCall, [], []⟩
      | _ => sampleChains.parseManager chain input
    authorizedProxies := fun chain address blockNumber ↦
      match chain, address with
      | .l1, [0xb6] => some ⟨[0xef], 2⟩
      | .l2, [0xb5] => some ⟨[0xff], 1⟩
      | _, _ => sampleChains.authorizedProxies chain address blockNumber
    managerEvents := fun id ↦
      ⟨none, if id.path = [0, 1, 0] then [some 0] else if id.path = [0, 2, 0] then [some 1] else []⟩
    callHash := fun call _ ↦ call.targetAddress
    tables := fun id ↦
      match id with
      | .frame ⟨.l1, _, _⟩ => some ⟨[[0xef], [0xef]], [], []⟩
      | _ => some ⟨[], [], [⟨0, ⟨[0xcc], some 1, [0xef], some 2, 0, [0xdd], false⟩, 7⟩]⟩ }

/-- Three requests from L1: the first is answered by a call back to L1, and the others are equal. -/
def sampleNested : Traces where
  chains := sampleTabled
  transactions :=
    [⟨.l1, [0x51], 9, 0, none, [], some 1, some (sampleCall .call 0xe0 0xa1 [0x30]
      [sampleCall .call 0xcc 0xb1 [0xdd]
          [sampleCall .call 0xb1 0xa1 [0x01, 0xcc] [sampleDelivery .call 0xa1 0xb1 0xff []]],
        sampleCall .call 0xcc 0xb6 [0xdd] [sampleCall .call 0xb6 0xa1 [0x01, 0xcc] []],
        sampleCall .call 0xcc 0xb6 [0xdd] [sampleCall .call 0xb6 0xa1 [0x01, 0xcc] []]])⟩,
      ⟨.l2, [0x52], 5, 0, none, [], some 1, some (sampleCall .call 0xe0 0xe1 []
      [sampleCall .call 0xe1 0xa2 [0x40] [sampleDelivery .call 0xa2 0xb2 0xee
          [sampleCall .call 0xee 0xb5 [0xdd] [sampleCall .call 0xb5 0xa2 [0x01, 0xee] []]]],
        sampleCall .call 0xe1 0xa2 [0x40] [sampleDelivery .call 0xa2 0xb2 0xef []],
        sampleCall .call 0xe1 0xa2 [0x40] [sampleDelivery .call 0xa2 0xb2 0xef []]])⟩]
  distinct := by simp [Transaction.key]

/-- Where its requests were delivered. -/
def sampleDelivered (o : Outgoing) : Incoming :=
  let path := if o.frameId.path.length = 2 then 0 :: 0 :: o.frameId.path else o.frameId.path
  (sampleNested.graph.incoming.find? fun i ↦ i.frameId.chain != o.frameId.chain && i.frameId.path == path).getD
    (sampleTrue (fun _ ↦ 1) o)

/-- All four requests are matched, one of them inside another and two of them in order. -/
theorem Graph.matchLoop_true_nested :
    sampleNested.graph.matchLoop.length = 4 ∧ ∀ p ∈ sampleNested.graph.matchLoop, sampleDelivered p.1 = p.2 := by
  have hnested : ∀ o ∈ sampleNested.graph.outgoing,
      (sampleNested.graph.nearestOutgoing (sampleDelivered o)).map sampleDelivered =
        sampleNested.graph.nearestIncoming o := by decide +kernel
  have hordered : ∀ o ∈ sampleNested.graph.outgoing, ∀ o' ∈ sampleNested.graph.outgoing,
      o.consumed.length = 1 → o'.consumed.length = 1 → o.consumed.reduceOption < o'.consumed.reduceOption →
        sampleNested.graph.position (sampleDelivered o) < sampleNested.graph.position (sampleDelivered o') := by
    decide +kernel
  have hT : sampleNested.graph.TrueExecution sampleDelivered :=
    { injective := by decide +kernel
      listed := by decide +kernel
      agrees := by decide +kernel
      nested := by
        intro o ho
        have h := hnested o ho
        cases hr : sampleNested.graph.nearestOutgoing (sampleDelivered o) with
        | none => exact .inl ⟨by rw [← h, hr, Option.map_none], rfl⟩
        | some r => exact .inr ⟨_, r, by rw [← h, hr, Option.map_some], rfl, rfl⟩
      ordered := by
        intro o ho o' ho' _ _ _ _ m n hm hn hlt _ _
        refine hordered o ho o' ho' (by rw [hm, List.length_singleton]) (by rw [hn, List.length_singleton]) ?_
        rw [hm, hn]
        exact List.Lex.rel hlt }
  exact ⟨by decide +kernel, Graph.matchLoop_true hT (by decide +kernel)⟩

/-- When a proxy frame makes two requests, the second can take the delivery of a request of another frame,
even though each of them agrees with its true delivery. -/
theorem Graph.not_matchLoop_true : ∃ (t : Traces) (T : Outgoing → Incoming),
    t.graph.TrueExecution T ∧ (∀ o ∈ t.graph.outgoing, t.graph.agrees o (T o) = true) ∧
      ∃ p ∈ t.graph.matchLoop, T p.1 ≠ p.2 := by
  let T := sampleTrue fun o ↦ if o.id.path = [0, 0] then 2 else 1
  have hnested : ∀ o ∈ sampleTwice.graph.outgoing, sampleTwice.graph.nearestIncoming o = none ∧
      sampleTwice.graph.nearestOutgoing (T o) = none := by decide +kernel
  have hconsumed : ∀ o ∈ sampleTwice.graph.outgoing, o.consumed = [] := by decide +kernel
  have hT : sampleTwice.graph.TrueExecution T :=
    { injective := by decide +kernel
      listed := by decide +kernel
      agrees := by decide +kernel
      nested := fun o ho ↦ Or.inl (hnested o ho)
      ordered := fun o ho _ _ _ _ _ _ m n hm ↦ by simp [hconsumed o ho] at hm }
  exact ⟨sampleTwice, T, hT, by decide +kernel, by decide +kernel⟩

end TraceDecoder
