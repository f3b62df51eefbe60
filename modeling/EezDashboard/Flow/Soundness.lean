import EezDashboard.Finite.Settle
import EezDashboard.Flow.Linking

/-!
# Links are true

When every request is among the dispatches it may have led to, and requests and dispatches are nested alike,
no round of the narrowing loop takes a request's own dispatch away: what is unique then is right, so that
what follows from it is right as well.
-/

set_option autoImplicit false

namespace Flow

open Input

/-! ## The true execution -/

section Truth

variable (c : Input)

/-- The innermost recorded dispatch around the frame of a request. -/
def InnermostDispatch (source : Id) (d : Incoming) : Prop :=
  d ∈ c.incoming ∧ ∃ frame, c.sourceFrame source = some frame ∧ Around d.key frame.id ∧
    ∀ d' ∈ c.incoming, Around d'.key frame.id → d'.key = d.key ∨ Around d'.key d.key

/-- The innermost located request around the frame of a dispatch. -/
def InnermostRequest (d : Incoming) (source : Id) : Prop :=
  ∃ step frame, (step, frame) ∈ c.located ∧ step.id = source ∧ Around frame.id d.key ∧
    ∀ p ∈ c.located, Around p.2.id d.key → p.2.id = frame.id ∨ Around p.2.id frame.id

/-- What really happened: each request led to a dispatch of its own, which is among its candidates and
returned what the caller's trace shows; and a request made in a dispatch is dispatched in the request that
the dispatch belongs to. -/
structure Truth (truth : Id → Incoming) : Prop where
  injective : ∀ a ∈ c.outgoing, ∀ b ∈ c.outgoing, (truth a.id).key = (truth b.id).key → a.id = b.id
  candidate : ∀ a ∈ c.outgoing, truth a.id ∈ (c.candidate a).matching
  agrees : ∀ a ∈ c.outgoing, ∀ result, (c.candidate a).result = some result → Input.agrees result (truth a.id) = true
  nested : ∀ a ∈ c.outgoing, ∀ b ∈ c.outgoing, ∀ d, InnermostDispatch c a.id d →
    InnermostRequest c (truth a.id) b.id → (truth b.id).key = d.key

end Truth

section Nesting

variable {c : Input}

theorem incomingByFrame_isSome {d : Incoming} (h : d ∈ c.incoming) :
    (c.incomingByFrame d.key).isSome = true := by
  rw [incomingByFrame, List.find?_isSome]
  exact ⟨d, List.mem_reverse.2 h, decide_eq_true rfl⟩

theorem incomingByFrame_eq_some {frame : FrameId} {d : Incoming} (h : c.incomingByFrame frame = some d) :
    d ∈ c.incoming ∧ d.key = frame :=
  ⟨List.mem_reverse.1 (List.mem_of_find?_eq_some h), by simpa using List.find?_some h⟩

theorem sourceParent_innermost {source : Id} {d : Incoming} (h : c.sourceParent source = some d) :
    InnermostDispatch c source d := by
  obtain ⟨f, g, hframe, hfind, haround, hinner⟩ := frameAncestor_eq_some h
  obtain ⟨frame, hsource, rfl⟩ := Option.map_eq_some_iff.1 hframe
  obtain ⟨hmem, rfl⟩ := incomingByFrame_eq_some hfind
  exact ⟨hmem, frame, hsource, haround, fun d' hd' h' ↦ hinner d'.key h' (incomingByFrame_isSome hd')⟩

theorem targetParent_innermost {d : Incoming} {source : Id} (h : c.targetParent d = some source) :
    InnermostRequest c d source := by
  obtain ⟨f, g, hframe, hfind, haround, hinner⟩ := frameAncestor_eq_some h
  cases hframe
  rw [frameSource, Option.map_eq_some_iff] at hfind
  obtain ⟨⟨step, frame⟩, hp, rfl⟩ := hfind
  have hg : frame.id = g := by simpa using List.find?_some hp
  subst hg
  refine ⟨step, frame, List.mem_reverse.1 (List.mem_of_find?_eq_some hp), rfl, haround, ?_⟩
  intro p hp' haround'
  refine hinner p.2.id haround' ?_
  rw [frameSource, Option.isSome_map, List.find?_isSome]
  exact ⟨p, List.mem_reverse.2 hp', decide_eq_true rfl⟩

/-- What is located is an outgoing request. -/
theorem located_outgoing {p : TimelineStep × Frame} (h : p ∈ c.located) : p.1 ∈ c.outgoing := by
  rw [located, List.mem_flatMap] at h
  obtain ⟨group, hgroup, h⟩ := h
  obtain ⟨step, hstep, h⟩ := List.mem_filterMap.1 h
  obtain ⟨frame, -, rfl⟩ := Option.map_eq_some_iff.1 h
  rw [outgoingOf, List.mem_filter] at hstep
  rw [outgoing, List.mem_filter, Timeline.steps]
  exact ⟨List.mem_flatMap.2 ⟨group, hgroup, hstep.1⟩, hstep.2⟩

/-- The two parents that the code finds for a request and its own dispatch belong together. -/
theorem Truth.parents {truth : Id → Incoming} (h : Truth c truth) {a : TimelineStep} (ha : a ∈ c.outgoing)
    {d : Incoming} {source : Id} (hd : c.sourceParent a.id = some d)
    (hsource : c.targetParent (truth a.id) = some source) :
    (∃ b ∈ c.outgoing, b.id = source) ∧ (truth source).key = d.key := by
  have hrequest := targetParent_innermost hsource
  have hdispatch := sourceParent_innermost hd
  obtain ⟨step, frame, hlocated, hid, hinner⟩ := hrequest
  subst hid
  have hb := located_outgoing hlocated
  exact ⟨⟨step, hb, rfl⟩, h.nested a ha step hb d hdispatch ⟨step, frame, hlocated, rfl, hinner⟩⟩

end Nesting

/-! ## What the rounds keep -/

section Rounds

variable {c : Input} {truth : Id → Incoming}

/-- Every request still has its own dispatch among its candidates. -/
structure Holds (c : Input) (truth : Id → Incoming) (candidates : List Candidate) : Prop where
  source : ∀ candidate ∈ candidates, candidate.source ∈ c.outgoing
  own : ∀ candidate ∈ candidates, truth candidate.source.id ∈ candidate.matching

theorem mem_uniqueMatches {candidates : List Candidate} {id : Id} {record : Incoming}
    (h : (id, record) ∈ uniqueMatches candidates) :
    ∃ candidate ∈ candidates, candidate.source.id = id ∧ candidate.matching = [record] := by
  rw [uniqueMatches, List.mem_flatMap] at h
  obtain ⟨candidate, hmem, h⟩ := h
  split at h
  · rename_i record' hmatching
    split at h
    · obtain ⟨rfl, rfl⟩ := Prod.mk.inj (List.mem_singleton.1 h)
      exact ⟨candidate, hmem, rfl, hmatching⟩
    · exact absurd h List.not_mem_nil
  · exact absurd h List.not_mem_nil

/-- What is unique is right. -/
theorem Holds.linked {candidates : List Candidate} (h : Holds c truth candidates) {id : Id}
    {record : Incoming} (hmem : (id, record) ∈ uniqueMatches candidates) :
    (∃ a ∈ c.outgoing, a.id = id) ∧ record = truth id := by
  obtain ⟨candidate, hcandidate, rfl, hmatching⟩ := mem_uniqueMatches hmem
  have hown := h.own candidate hcandidate
  rw [hmatching] at hown
  exact ⟨⟨candidate.source, h.source candidate hcandidate, rfl⟩, (List.mem_singleton.1 hown).symm⟩

/-- No filter rejects a request's own dispatch, when the links are right. -/
theorem Truth.keep (h : Truth c truth) {linked : List (Id × Incoming)}
    (hlinked : ∀ p ∈ linked, (∃ a ∈ c.outgoing, a.id = p.1) ∧ p.2 = truth p.1) {a : TimelineStep}
    (ha : a ∈ c.outgoing) : c.keep linked a.id (truth a.id) = true := by
  -- whatever was requested in a dispatch and dispatched in this request names this request's dispatch
  have hanchors : ∀ key ∈ (c.anchors linked a.id).map Incoming.key, key = (truth a.id).key := by
    intro key hkey
    obtain ⟨anchor, hanchor, rfl⟩ := List.mem_map.1 hkey
    rw [anchors, List.mem_filterMap] at hanchor
    obtain ⟨⟨source, record⟩, hmem, hanchor⟩ := hanchor
    obtain ⟨remote, hremote, hanchor⟩ := Option.bind_eq_some_iff.1 hanchor
    obtain ⟨localParent, hlocal, hanchor⟩ := Option.bind_eq_some_iff.1 hanchor
    split at hanchor
    · rename_i heq
      cases hanchor
      obtain ⟨⟨b, hb, rfl⟩, hrecord⟩ := hlinked _ hmem
      dsimp only at hremote hrecord
      rw [hrecord] at hlocal
      rw [← heq]
      exact ((h.parents hb hremote hlocal).2).symm
    · cases hanchor
  have hsingle : ∀ keys : List FrameId, keys ≠ [] → (∀ key ∈ keys, key = (truth a.id).key) →
      keys.dedup.length = 1 ∧ (truth a.id).key ∈ keys := by
    intro keys hne hall
    obtain ⟨key, hkey⟩ := List.exists_mem_of_ne_nil keys hne
    refine ⟨?_, hall key hkey ▸ hkey⟩
    rw [List.eq_replicate_of_mem hall,
      List.replicate_dedup fun hzero ↦ hne (List.length_eq_zero_iff.1 hzero), List.length_singleton]
  unfold Input.keep
  dsimp only
  rw [if_neg, if_neg]
  · -- the link of the enclosing request is to the dispatch this request was made in
    cases hd : c.sourceParent a.id with
    | none => rfl
    | some d =>
      cases hs : (c.targetParent (truth a.id)).bind (linkedRecord linked) with
      | none => rfl
      | some bound =>
        obtain ⟨source, hsource, hbound⟩ := Option.bind_eq_some_iff.1 hs
        obtain ⟨⟨id, record⟩, hfind, rfl⟩ := Option.map_eq_some_iff.1 hbound
        have hid : id = source := by simpa using List.find?_some hfind
        have hrecord := (hlinked _ (List.mem_of_find?_eq_some hfind)).2
        dsimp only at hrecord
        subst hid
        rw [Option.map_some, Option.map_some, hrecord, (h.parents ha hd hsource).2, decide_eq_true rfl,
          Bool.or_true]
  · -- the request whose dispatch this request was made in is the enclosing one
    rintro ⟨hbound, htarget, hne⟩
    obtain ⟨source, hsource⟩ := Option.isSome_iff_exists.1 htarget
    obtain ⟨bound, hb⟩ := Option.isSome_iff_exists.1 hbound
    obtain ⟨d, hd, hfind⟩ := Option.bind_eq_some_iff.1 hb
    rw [linkedSource, Option.map_eq_some_iff] at hfind
    obtain ⟨⟨id, record⟩, hfound, rfl⟩ := hfind
    have hkey : record.key = d.key := by simpa using List.find?_some hfound
    obtain ⟨⟨b, hbmem, hbid⟩, hrecord⟩ := hlinked _ (List.mem_of_find?_eq_some hfound)
    obtain ⟨⟨b', hb'mem, rfl⟩, hown⟩ := h.parents ha hd hsource
    dsimp only at hbid hrecord
    apply hne
    rw [hb, hsource, Option.some.injEq]
    change id = b'.id
    rw [← hbid]
    refine h.injective b hbmem b' hb'mem ?_
    rw [hown, ← hkey, hrecord, hbid]
  · rintro ⟨hne, hbad⟩
    obtain ⟨hlength, hmem⟩ := hsingle _ hne hanchors
    exact hbad.elim (fun h ↦ h hlength) fun h ↦ h hmem

theorem Holds.round (ht : Truth c truth) {candidates : List Candidate} (h : Holds c truth candidates) :
    Holds c truth (c.round candidates) := by
  refine ⟨?_, ?_⟩
  · intro candidate hmem
    obtain ⟨candidate', hmem', rfl⟩ := List.mem_map.1 hmem
    exact h.source candidate' hmem'
  · intro candidate hmem
    obtain ⟨candidate', hmem', rfl⟩ := List.mem_map.1 hmem
    exact List.mem_filter.2 ⟨h.own candidate' hmem',
      ht.keep (fun p hp ↦ h.linked hp) (h.source candidate' hmem')⟩

theorem Truth.initial (h : Truth c truth) : Holds c truth c.initial := by
  have hstart : ∀ candidate ∈ c.outgoing.map c.candidate, candidate.source ∈ c.outgoing ∧
      truth candidate.source.id ∈ candidate.matching ∧ ∀ result, candidate.result = some result →
        Input.agrees result (truth candidate.source.id) = true := by
    intro candidate hmem
    obtain ⟨a, ha, rfl⟩ := List.mem_map.1 hmem
    exact ⟨ha, h.candidate a ha, h.agrees a ha⟩
  rw [Input.initial, disambiguate]
  constructor
  · intro candidate hmem
    obtain ⟨candidate', hmem', rfl⟩ := List.mem_map.1 hmem
    obtain ⟨hsource, -, -⟩ := hstart candidate' hmem'
    split
    · exact hsource
    · split
      · exact hsource
      · exact hsource
  · intro candidate hmem
    obtain ⟨candidate', hmem', rfl⟩ := List.mem_map.1 hmem
    obtain ⟨-, hown, hagrees⟩ := hstart candidate' hmem'
    split
    · exact hown
    · rename_i result hresult
      split
      · exact List.mem_filter.2 ⟨hown, hagrees result hresult⟩
      · exact hown

end Rounds

/-! ## The loop ends -/

section Loop

variable {c : Input}

theorem total_cons (candidate : Candidate) (rest : List Candidate) :
    total (candidate :: rest) = candidate.matching.length + total rest := by
  rw [total, List.map_cons, List.sum_cons, ← total]

/-- Filtering each list of candidates shortens one of them, or changes nothing. -/
theorem filter_eq_or_total_lt (p : Id → Incoming → Bool) (candidates : List Candidate) :
    let filtered := candidates.map fun candidate ↦
      { candidate with matching := candidate.matching.filter (p candidate.source.id) }
    filtered = candidates ∨ total filtered < total candidates := by
  induction candidates with
  | nil => exact .inl rfl
  | cons candidate rest ih =>
    dsimp only at ih ⊢
    rw [List.map_cons, total_cons, total_cons]
    dsimp only
    have hle := List.length_filter_le (p candidate.source.id) candidate.matching
    rcases Nat.lt_or_eq_of_le hle with hlt | heq
    · refine .inr ?_
      rcases ih with hrest | hrest
      · rw [hrest]
        omega
      · omega
    · rw [List.length_filter_eq_length_iff, ← List.filter_eq_self] at heq
      rcases ih with hrest | hrest
      · rw [heq, hrest]
        exact .inl rfl
      · refine .inr ?_
        rw [heq]
        omega

/-- A round that takes nothing away changes nothing. -/
theorem round_eq_or_total_lt (candidates : List Candidate) :
    c.round candidates = candidates ∨ total (c.round candidates) < total candidates :=
  filter_eq_or_total_lt (c.keep (uniqueMatches candidates)) candidates

/-- After `narrow` nothing changes any more: the loop has ended. -/
theorem round_narrow (candidates : List Candidate) : c.round (c.narrow candidates) = c.narrow candidates := by
  have hbound : ∀ candidates', total candidates' ≤ total candidates →
      total (c.round candidates') ≤ total candidates := by
    intro candidates' hle
    rcases round_eq_or_total_lt candidates' with heq | hlt
    · rw [heq]
      exact hle
    · omega
  -- what has been taken away so far only grows
  refine Settle.iterate_settled (μ := fun candidates' ↦ total candidates - total candidates') hbound ?_
    (fun _ _ ↦ Nat.sub_le _ _) (Nat.le_refl _)
  intro candidates' hle
  rcases round_eq_or_total_lt candidates' with heq | hlt
  · exact .inl heq
  · exact .inr (by omega)

end Loop

/-- **The links are true.**  The loop ends, no round takes a request's own dispatch away, and what is linked
is right and linked once. -/
theorem Truth.linked_sound {c : Input} {truth : Id → Incoming} (h : Truth c truth) :
    c.round c.candidates = c.candidates ∧
      (∀ k, ∀ candidate ∈ c.round^[k] c.initial, truth candidate.source.id ∈ candidate.matching) ∧
      (∀ p ∈ c.linked, p.2 = truth p.1) ∧
      ∀ p ∈ c.linked, ∀ q ∈ c.linked, p.2.key = q.2.key → p.1 = q.1 := by
  have hrounds : ∀ k, Holds c truth (c.round^[k] c.initial) :=
    Settle.iterate_preserves (fun _ hc ↦ hc.round h) h.initial
  have hlinked : ∀ p ∈ c.linked, (∃ a ∈ c.outgoing, a.id = p.1) ∧ p.2 = truth p.1 :=
    fun p hp ↦ (hrounds _).linked hp
  refine ⟨round_narrow c.initial, fun k ↦ (hrounds k).own, fun p hp ↦ (hlinked p hp).2, ?_⟩
  intro p hp q hq hkey
  obtain ⟨⟨a, ha, hpa⟩, hptrue⟩ := hlinked p hp
  obtain ⟨⟨b, hb, hqb⟩, hqtrue⟩ := hlinked q hq
  rw [← hpa, ← hqb]
  refine h.injective a ha b hb ?_
  rw [hpa, hqb, ← hptrue, ← hqtrue, hkey]

/-! ## A callback -/

section Callback

open Js

/-- An event with the given fields. -/
def recorded (name : String) (fields : List (String × Value)) : ProtocolEvent :=
  ⟨name, fun field ↦ fields.lookup field, "0x33", 0, none⟩

/-- A request on L1 whose dispatch on L2 makes one in turn, which is dispatched while the first one waits. -/
def callback : Input where
  viem :=
    { decodeFunctionData := fun input ↦
        if input = "0x01" then some ("executeCrossChainCall", [.text "0x5e", .text "0xda"])
        else if input = "0x02" then some ("executeOnBehalf", [.text "0x7e", .int 0, .text "0xda"])
        else none
      decodeBytes := fun output ↦ if output = "0x0020" then some "0x" else none
      callHash := fun _ _ _ _ _ _ _ ↦ none }
  config := ⟨.int 7, fun _ ↦ "0x33"⟩
  timeline :=
    let request := recorded "CrossChainCallExecuted"
      [("proxy", .text "0xa1"), ("sourceAddress", .text "0x5e"), ("callData", .text "0xda")]
    let result := recorded "CallResult" [("callNumber", .int 0), ("success", .bool true)]
    let completion := recorded "EntryExecuted" [("rollingHash", .text "0x7a")]
    let group (tx : Transaction) : Group := ⟨tx, [⟨tx, 0, request⟩, ⟨tx, 1, result⟩, ⟨tx, 2, completion⟩]⟩
    { l1 := [group ⟨.l1, "l1:1"⟩], l2 := [group ⟨.l2, "l2:1"⟩], connections := [], nodup := by decide }
  evidence :=
    let call (rollup : ℤ) : Record := fun field ↦
      [("targetAddress", .text "0x7e"), ("data", .text "0xda"), ("sourceAddress", .text "0x5e"),
        ("sourceRollupId", Value.int rollup)].lookup field
    [⟨⟨⟨.l1, "l1:1"⟩, .execution, 0, ⟨some (.text "0x7a"), [call 7], []⟩⟩, []⟩,
      ⟨⟨⟨.l2, "l2:1"⟩, .execution, 0, ⟨some (.text "0x7a"), [call 0], []⟩⟩, []⟩]
  traces := fun tx ↦
    let request := CallTrace.node ⟨"CALL", "0xa1", some "0x33", some "0x01", some "0x0020", none, none⟩
    let dispatch := CallTrace.node ⟨"CALL", "0x33", some "0xa1", some "0x02", some "0x", none, none⟩
    if tx = "l1:1" then some (request [dispatch []])
    else if tx = "l2:1" then some (dispatch [request []])
    else none

/-- The dispatch on L2 is that of the request on L1, and the other way round. -/
def callbackTruth (id : Id) : Incoming :=
  if id = .step "l1:1" 0 then callback.incoming.get ⟨1, by decide +kernel⟩
  else callback.incoming.get ⟨0, by decide +kernel⟩

theorem callbackTruth_mem (id : Id) : callbackTruth id ∈ callback.incoming := by
  rw [callbackTruth]
  split
  · exact List.get_mem _ _
  · exact List.get_mem _ _

theorem callback_truth : Truth callback callbackTruth where
  injective := by decide +kernel
  candidate := by
    intro a ha
    have hhash : ∀ a ∈ callback.outgoing, a.event.hash = none := by decide +kernel
    dsimp only [Input.candidate]
    rw [if_neg (by simp [hhash a ha])]
    refine List.mem_filter.2 ⟨callbackTruth_mem _, ?_⟩
    revert a
    decide +kernel
  agrees := by
    intro a ha result hresult
    have hall : ∀ a ∈ callback.outgoing,
        (callback.candidate a).result.all fun result ↦ Input.agrees result (callbackTruth a.id) := by
      decide +kernel
    have hagrees := hall a ha
    rwa [hresult, Option.all_some] at hagrees
  nested := by
    rintro a ha b - d ⟨hd, frame, hframe, haround, -⟩ ⟨step, frame', hlocated, hid, haround', -⟩
    have hall : ∀ a ∈ callback.outgoing, ∀ d ∈ callback.incoming,
        (callback.sourceFrame a.id).any (fun frame ↦ decide (Around d.key frame.id)) →
          ∀ p ∈ callback.located, Around p.2.id (callbackTruth a.id).key →
            (callbackTruth p.1.id).key = d.key := by
      decide +kernel
    rw [← hid]
    refine hall a ha d hd ?_ (step, frame') hlocated haround'
    rw [hframe, Option.any_some, decide_eq_true haround]

theorem Truth.linked_sound_callback :
    callback.linked.map (fun p ↦ (p.1, p.2.key)) =
      [(.step "l1:1" 0, ⟨"l2:1", []⟩), (.step "l2:1" 0, ⟨"l1:1", [0]⟩)] ∧
      ∀ p ∈ callback.linked, p.2 = callbackTruth p.1 :=
  ⟨by decide +kernel, (Truth.linked_sound callback_truth).2.2.1⟩

end Callback

end Flow
