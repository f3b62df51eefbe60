import EezDashboard.Finite.Settle
import EezDashboard.Flow.Linking

/-!
# The calls and their parents

The part of `buildExecutionFlow` that makes a call of each outgoing request, and finds the call it was made
in.  The evidence may be incomplete or contradictory, so that what is found may have cycles; these are cut,
call by call, and climbing from a call comes to an end.
-/

set_option autoImplicit false

namespace Flow

open Js

structure FlowCall where
  number : ℕ
  source : TimelineStep
  target : Option TimelineStep
  caller : String
  destination : Option String
  plan : Option EntryPlan
  targetPlan : Option EntryPlan
  parent : Option Id
  basis : Basis
  result : Option CallResult
  mismatch : Bool

def FlowCall.id (call : FlowCall) : Id := call.source.id

namespace Input

variable (c : Input)

/-- The one receipt that a connection by call hash leads to. -/
def exactTarget (source : TimelineStep) : Option TimelineStep :=
  let connections := c.timeline.connections.filter fun connection ↦
    connection.source = source.id && connection.basis = .matchingCallHash && !connection.ambiguous
  let steps := connections.filterMap fun connection ↦
    c.timeline.steps.find? fun step ↦ step.id = connection.target
  match steps.filter fun step ↦ step.event.name = "IncomingCrossChainCallExecuted" with
  | [step] => some step
  | _ => none

/-- What the receipt of a dispatch says it returned. -/
def receiptResult (record : Incoming) : CallResult :=
  ⟨record.step.succeeded, record.step.returnData.toText, .destinationReceipt⟩

/-- The call of a candidate, which has no parent yet. -/
def callOf (candidate : Candidate) (index : ℕ) : FlowCall :=
  let source := candidate.source
  let record := linkedRecord c.linked source.id
  let verified := record.any fun record ↦ candidate.hashMatches.any fun other ↦ other.key = record.key
  let target := (record.map Incoming.step).or (c.exactTarget source)
  let result := candidate.result.or (record.map receiptResult)
  { number := index + 1
    source := source
    target := target
    caller := textOr "?" (source.arg "sourceAddress")
    destination := (record.map Incoming.target).or <|
      (target.filter fun step ↦ step.event.name = "IncomingCrossChainCallExecuted").map fun step ↦
        textOr "undefined" (step.arg "destination")
    plan := c.scope source
    targetPlan := (record.bind Incoming.plan).or (target.bind c.scope)
    parent := none
    basis := match record with
      | some _ => if verified then .matchingCallHash else .replayCandidate
      | none => if target.isSome then .matchingCallHash else .unlinked
    result := result
    mismatch := record.any fun record ↦ result.any fun result ↦ !agrees result record }

def drafts : List FlowCall := c.candidates.zipIdx.map fun (candidate, index) ↦ c.callOf candidate index

end Input

/-! ## Parents -/

section Parents

variable (calls : List FlowCall)

/-- `bySource.get(id)` -/
def bySource (id : Id) : Option FlowCall := calls.reverse.find? fun call ↦ call.id = id

/-- `byIncoming.get(record)` -/
def byIncoming (record : Incoming) : Option FlowCall :=
  calls.find? fun call ↦ call.target.map TimelineStep.id = some record.step.id

variable (c : Input)

/-- The call in whose dispatch the request was made. -/
def sourceCall (call : FlowCall) : Option FlowCall :=
  frameAncestor ((c.sourceFrame call.id).map Frame.id) fun frame ↦
    (c.incomingByFrame frame).bind (byIncoming calls)

/-- The call in whose request the dispatch was made. -/
def targetCall (call : FlowCall) : Option FlowCall :=
  let record := c.incoming.find? fun record ↦ some record.step.id = call.target.map TimelineStep.id
  frameAncestor (record.map Incoming.key) fun frame ↦ (c.frameSource frame).bind (bySource calls)

/-- The parent of a call: both sides must not disagree. -/
def parentOf (call : FlowCall) : Option Id :=
  let sourceParent := (sourceCall calls c call).map FlowCall.id
  let targetParent := (targetCall calls c call).map FlowCall.id
  if sourceParent.isSome ∧ targetParent.isSome ∧ sourceParent ≠ targetParent then none
  else (sourceParent.or targetParent).filter (· ≠ call.id)

def withParents : List FlowCall := calls.map fun call ↦ { call with parent := parentOf calls c call }

end Parents

/-! ## Cycles -/

/-- `bySource.get(id)?.parent` -/
def parentIn (calls : List FlowCall) (id : Id) : Option Id := (bySource calls id).bind FlowCall.parent

theorem bySource_mem {calls : List FlowCall} {id : Id} {call : FlowCall} (h : bySource calls id = some call) :
    call ∈ calls ∧ call.id = id :=
  ⟨List.mem_reverse.1 (List.mem_of_find?_eq_some h), by simpa using List.find?_some h⟩

/-- What a climb has not seen gets less. -/
theorem unseen_lt {calls : List FlowCall} {seen : List Id} {id : Id} {call : FlowCall}
    (h : bySource calls id = some call) (hnew : id ∉ seen) :
    (calls.filter fun call ↦ call.id ∉ id :: seen).length < (calls.filter fun call ↦ call.id ∉ seen).length := by
  obtain ⟨hmem, rfl⟩ := bySource_mem h
  have hsub : (calls.filter fun other ↦ other.id ∉ call.id :: seen) =
      (calls.filter fun other ↦ other.id ∉ seen).filter fun other ↦ decide (other.id ≠ call.id) := by
    rw [List.filter_filter]
    refine List.filter_congr fun other _ ↦ ?_
    simp only [List.mem_cons, not_or, Bool.decide_and]
  rw [hsub]
  refine List.length_filter_lt_length_iff_exists.2 ⟨call, ?_, by simp⟩
  exact List.mem_filter.2 ⟨hmem, decide_eq_true hnew⟩

/-- Whether the climb from a call to its parents comes back to one of them. -/
def climbs (calls : List FlowCall) (seen : List Id) : Option Id → Bool
  | none => false
  | some id =>
    if _ : id ∈ seen then true
    else
      match _ : bySource calls id with
      | none => false
      | some call => climbs calls (id :: seen) call.parent
termination_by (calls.filter fun call ↦ call.id ∉ seen).length
decreasing_by exact unseen_lt ‹_› ‹_›

/-- One round of the loop over the calls: the parent of a call goes when climbing from it does not end. -/
def cut (calls : List FlowCall) (id : Id) : List FlowCall :=
  if climbs calls [id] (parentIn calls id) then
    calls.map fun call ↦ if call.id = id then { call with parent := none } else call
  else calls

/-- The calls of the flow, before they are numbered. -/
def Input.parented (c : Input) : List FlowCall := (c.drafts.map FlowCall.id).foldl cut (withParents c.drafts c)

/-! ## No cycles are left -/

section Acyclic

variable {calls : List FlowCall}

/-- The first identifier is that of the parent of the call with the second one. -/
def Above (calls : List FlowCall) (a b : Id) : Prop := parentIn calls b = some a

/-- A climb that ends leads to a call without parents. -/
theorem acc_of_climbs (seen : List Id) (next : Option Id) (h : climbs calls seen next = false) :
    ∀ id, parentIn calls id = next → Acc (Above calls) id := by
  induction seen, next using climbs.induct calls with
  | case1 seen =>
    intro id hid
    refine Acc.intro id fun a ha ↦ ?_
    rw [Above, hid] at ha
    cases ha
  | case2 seen next hseen =>
    rw [climbs, dif_pos hseen] at h
    cases h
  | case3 seen next hseen hnone =>
    intro id hid
    refine Acc.intro id fun a ha ↦ Acc.intro a fun b hb ↦ ?_
    rw [Above, hid] at ha
    cases ha
    rw [Above, parentIn, hnone] at hb
    cases hb
  | case4 seen next hseen call hcall ih =>
    intro id hid
    rw [climbs, dif_neg hseen] at h
    split at h
    · rename_i hnone
      rw [hcall] at hnone
      cases hnone
    · rename_i call' hcall'
      rw [hcall] at hcall'
      cases hcall'
      refine Acc.intro id fun a ha ↦ ?_
      rw [Above, hid, Option.some.injEq] at ha
      rw [← ha]
      refine ih h next ?_
      rw [parentIn, hcall, Option.bind_some]

/-- Changing calls, but not their identifiers. -/
theorem bySource_map {f : FlowCall → FlowCall} (hf : ∀ call, (f call).id = call.id) (id : Id) :
    bySource (calls.map f) id = (bySource calls id).map f := by
  rw [bySource, bySource, ← List.map_reverse, List.find?_map]
  have hsame : ((fun call ↦ decide (call.id = id)) ∘ f) = fun call ↦ decide (call.id = id) :=
    funext fun call ↦ by rw [Function.comp_apply, hf]
  rw [hsame]

/-- A round either leaves the calls alone or takes the parent of one of them. -/
theorem parentIn_cut (id b : Id) : parentIn (cut calls id) b =
    if climbs calls [id] (parentIn calls id) = true ∧ b = id then none else parentIn calls b := by
  rw [cut]
  by_cases hclimbs : climbs calls [id] (parentIn calls id) = true
  · rw [if_pos hclimbs, parentIn, bySource_map fun call ↦ by split <;> rfl]
    by_cases hb : b = id
    · rw [if_pos ⟨hclimbs, hb⟩]
      cases hcall : bySource calls b with
      | none => rfl
      | some call => rw [Option.map_some, Option.bind_some, if_pos ((bySource_mem hcall).2.trans hb)]
    · rw [if_neg fun h ↦ hb h.2, parentIn]
      cases hcall : bySource calls b with
      | none => rfl
      | some call =>
        rw [Option.map_some, Option.bind_some, Option.bind_some, if_neg fun h ↦ hb ((bySource_mem hcall).2 ▸ h)]
  · rw [if_neg hclimbs, if_neg fun h ↦ hclimbs h.1]

theorem above_of_cut {id a b : Id} (h : Above (cut calls id) a b) : Above calls a b := by
  rw [Above, parentIn_cut] at h
  split at h
  · cases h
  · exact h

theorem acc_cut (id : Id) : Acc (Above (cut calls id)) id := by
  by_cases hclimbs : climbs calls [id] (parentIn calls id) = true
  · refine Acc.intro id fun a ha ↦ ?_
    rw [Above, parentIn_cut, if_pos ⟨hclimbs, rfl⟩] at ha
    cases ha
  · rw [Bool.not_eq_true] at hclimbs
    exact Subrelation.accessible above_of_cut (acc_of_climbs _ _ hclimbs id rfl)

theorem above_of_foldl_cut (ids : List Id) : ∀ {calls : List FlowCall} {a b : Id},
    Above (ids.foldl cut calls) a b → Above calls a b := by
  induction ids with
  | nil => exact id
  | cons i ids ih => exact fun h ↦ above_of_cut (ih h)

/-- Climbing from a call that the loop has come to ends. -/
theorem acc_foldl_cut (ids : List Id) : ∀ calls : List FlowCall,
    ∀ i ∈ ids, Acc (Above (ids.foldl cut calls)) i := by
  induction ids with
  | nil => exact fun _ i hi ↦ absurd hi List.not_mem_nil
  | cons j ids ih =>
    intro calls i hi
    rw [List.foldl_cons]
    rcases List.mem_cons.1 hi with rfl | hi
    · exact Subrelation.accessible (above_of_foldl_cut ids) (acc_cut i)
    · exact ih (cut calls j) i hi

/-- What the rounds change, besides taking parents away: nothing. -/
theorem mem_foldl_cut (ids : List Id) : ∀ {calls : List FlowCall} {call : FlowCall},
    call ∈ ids.foldl cut calls → ∃ call' ∈ calls, call = call' ∨ call = { call' with parent := none } := by
  induction ids with
  | nil => exact fun h ↦ ⟨_, h, .inl rfl⟩
  | cons i ids ih =>
    intro calls call h
    obtain ⟨call', hmem, hcall⟩ := ih h
    rw [cut] at hmem
    split at hmem
    · obtain ⟨call'', hmem', rfl⟩ := List.mem_map.1 hmem
      refine ⟨call'', hmem', ?_⟩
      split at hcall
      · exact .inr (hcall.elim id id)
      · exact hcall
    · exact ⟨call', hmem, hcall⟩

theorem map_source_cut (i : Id) : (cut calls i).map FlowCall.source = calls.map FlowCall.source := by
  rw [cut]
  split
  · rw [List.map_map]
    refine List.map_congr_left fun call _ ↦ ?_
    rw [Function.comp_apply]
    split
    · rfl
    · rfl
  · rfl

theorem map_source_foldl_cut (ids : List Id) : ∀ calls : List FlowCall,
    (ids.foldl cut calls).map FlowCall.source = calls.map FlowCall.source := by
  induction ids with
  | nil => exact fun _ ↦ rfl
  | cons i ids ih => exact fun calls ↦ (ih (cut calls i)).trans (map_source_cut i)

end Acyclic

namespace Input

variable (c : Input)

theorem map_source_round (candidates : List Candidate) :
    (c.round candidates).map Candidate.source = candidates.map Candidate.source := by
  rw [round, List.map_map]
  rfl

theorem map_source_candidates : c.candidates.map Candidate.source = c.outgoing := by
  have hinitial : c.initial.map Candidate.source = c.outgoing := by
    rw [initial, disambiguate, List.map_map, List.map_map]
    refine (List.map_congr_left fun source _ ↦ ?_).trans (List.map_id _)
    rw [Function.comp_apply, Function.comp_apply]
    split
    · rfl
    · split
      · rfl
      · rfl
  have hrounds : ∀ k, (c.round^[k] c.initial).map Candidate.source = c.outgoing :=
    Settle.iterate_preserves (P := fun candidates ↦ candidates.map Candidate.source = c.outgoing)
      (fun candidates h ↦ (c.map_source_round candidates).trans h) hinitial
  exact hrounds _

theorem map_source_parented_eq : c.parented.map FlowCall.source = c.drafts.map FlowCall.source := by
  rw [parented, map_source_foldl_cut, withParents, List.map_map]
  rfl

/-- There is one call for each outgoing request. -/
theorem map_source_parented : c.parented.map FlowCall.source = c.outgoing := by
  rw [map_source_parented_eq, ← map_source_candidates, drafts, List.map_map, ← List.zipIdx_map_fst 0 c.candidates,
    List.map_map, List.zipIdx_map_fst]
  rfl

theorem map_id_eq (calls : List FlowCall) :
    calls.map FlowCall.id = (calls.map FlowCall.source).map TimelineStep.id := by
  rw [List.map_map]
  rfl

theorem map_id_parented_eq : c.parented.map FlowCall.id = c.drafts.map FlowCall.id := by
  rw [map_id_eq, map_source_parented_eq, ← map_id_eq]

theorem nodup_parented : (c.parented.map FlowCall.id).Nodup := by
  rw [map_id_eq, map_source_parented]
  exact c.timeline.nodup_steps.sublist (List.filter_sublist.map _)

end Input

section Parented

variable {c : Input} {calls : List FlowCall}

theorem above_iff (h : (calls.map FlowCall.id).Nodup) {a b : Id} :
    Above calls a b ↔ ∃ call ∈ calls, call.id = b ∧ call.parent = some a := by
  rw [Above, parentIn, Option.bind_eq_some_iff]
  constructor
  · rintro ⟨call, hcall, hparent⟩
    obtain ⟨hmem, hid⟩ := bySource_mem hcall
    exact ⟨call, hmem, hid, hparent⟩
  · rintro ⟨call, hmem, hid, hparent⟩
    have hsome : (bySource calls b).isSome = true := by
      rw [bySource, List.find?_isSome]
      exact ⟨call, List.mem_reverse.2 hmem, decide_eq_true hid⟩
    obtain ⟨found, hfound⟩ := Option.isSome_iff_exists.1 hsome
    refine ⟨call, ?_, hparent⟩
    obtain ⟨hmem', hid'⟩ := bySource_mem hfound
    rw [← List.inj_on_of_nodup_map h hmem' hmem (hid'.trans hid.symm)]
    exact hfound

/-- A parent that is found is the identifier of a call. -/
theorem parentOf_mem {call : FlowCall} {id : Id} (h : parentOf calls c call = some id) :
    id ∈ calls.map FlowCall.id := by
  have hsource : ∀ id, (sourceCall calls c call).map FlowCall.id = some id → id ∈ calls.map FlowCall.id := by
    intro id hid
    obtain ⟨found, hfound, rfl⟩ := Option.map_eq_some_iff.1 hid
    obtain ⟨-, g, -, hfind, -⟩ := frameAncestor_eq_some hfound
    obtain ⟨record, -, hrecord⟩ := Option.bind_eq_some_iff.1 hfind
    exact List.mem_map_of_mem (List.mem_of_find?_eq_some hrecord)
  have htarget : ∀ id, (targetCall calls c call).map FlowCall.id = some id → id ∈ calls.map FlowCall.id := by
    intro id hid
    obtain ⟨found, hfound, rfl⟩ := Option.map_eq_some_iff.1 hid
    rw [targetCall] at hfound
    obtain ⟨-, g, -, hfind, -⟩ := frameAncestor_eq_some hfound
    obtain ⟨source, -, hcall⟩ := Option.bind_eq_some_iff.1 hfind
    exact List.mem_map_of_mem (bySource_mem hcall).1
  rw [parentOf] at h
  split at h
  · cases h
  · obtain ⟨hor, -⟩ := Option.filter_eq_some_iff.1 h
    rcases Option.or_eq_some_iff.1 hor with hid | ⟨-, hid⟩
    · exact hsource id hid
    · exact htarget id hid

/-- The parent of a call is one of the calls. -/
theorem parent_mem {call : FlowCall} (h : call ∈ c.parented) {id : Id} (hparent : call.parent = some id) :
    ∃ parent ∈ c.parented, parent.id = id := by
  obtain ⟨call', hmem, heq⟩ := mem_foldl_cut _ h
  obtain ⟨draft, hdraft, rfl⟩ := List.mem_map.1 hmem
  have hid : id ∈ c.drafts.map FlowCall.id := by
    rcases heq with rfl | rfl
    · exact parentOf_mem hparent
    · cases hparent
  rw [← c.map_id_parented_eq] at hid
  exact List.mem_map.1 hid

/-- Climbing from anywhere comes to an end. -/
theorem acc_parented (id : Id) : Acc (Above c.parented) id := by
  refine Acc.intro id fun a ha ↦ ?_
  obtain ⟨call, hcall, -, hparent⟩ := (above_iff c.nodup_parented).1 ha
  obtain ⟨parent, hmem, rfl⟩ := parent_mem hcall hparent
  refine acc_foldl_cut _ _ parent.id ?_
  rw [← c.map_id_parented_eq]
  exact List.mem_map_of_mem hmem

end Parented

end Flow
