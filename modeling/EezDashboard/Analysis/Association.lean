import EezDashboard.Analysis.Context

/-!
# Plans and what was recorded of them

`compareExecution` associates a plan with the consumption of its hash and with the event that completes it.
A plan with a hash is known by the rolling hash of the completion, or by being the only one; a plan without a
hash by an immediate completion in its own transaction.
-/

set_option autoImplicit false

namespace Analysis

open Js
open Flow (Chain PlanKind)

/-! ## Equality of values -/

/-- `eq(a, b)` -/
def eq (a b : Option Value) : Bool :=
  match a, b with
  | some (.text a), some (.text b) => lowerCase a = lowerCase b
  | a, b => a = b

theorem eq_iff {a b : Option Value} :
    eq a b ↔ (∃ s t, a = some (.text s) ∧ b = some (.text t) ∧ lowerCase s = lowerCase t) ∨ a = b := by
  unfold eq
  split
  next s t =>
    rw [decide_eq_true_iff]
    constructor
    · exact fun h ↦ .inl ⟨s, t, rfl, rfl, h⟩
    · rintro (⟨_, _, hs, ht, h⟩ | h)
      · cases hs
        cases ht
        exact h
      · cases h
        rfl
  next h =>
    rw [decide_eq_true_iff]
    constructor
    · exact .inr
    · rintro (⟨s, t, rfl, rfl, -⟩ | rfl)
      · exact absurd rfl (h s t rfl)
      · rfl

theorem eq_symm {a b : Option Value} (h : eq a b) : eq b a := by
  obtain ⟨s, t, rfl, rfl, hst⟩ | rfl := eq_iff.1 h
  · exact eq_iff.2 (.inl ⟨t, s, rfl, rfl, hst.symm⟩)
  · exact h

theorem eq_trans {a b c : Option Value} (h : eq a b) (h' : eq b c) : eq a c := by
  obtain ⟨s, t, rfl, rfl, hst⟩ | rfl := eq_iff.1 h
  · obtain ⟨_, u, ht, rfl, htu⟩ | rfl := eq_iff.1 h'
    · cases ht
      exact eq_iff.2 (.inl ⟨s, u, rfl, rfl, hst.trans htu⟩)
    · exact h
  · exact h'

/-! ## Completions -/

/-- The loop of `completion`, over what comes after an occurrence. -/
def completionIn (index : String) : List RecordedEvent → Option RecordedEvent
  | [] => none
  | e :: events =>
    if e.event.name = .executionConsumed ∧ entryIndex e.event = index then none
    else if e.event.name = .entryExecuted ∧ entryIndex e.event = index then some e
    else completionIn index events

def completion (occurrence : ExecutionOccurrence) : Option RecordedEvent :=
  completionIn occurrence.entryIndex ((recordedEvents occurrence.tx).drop (occurrence.eventIndex + 1))

/-! ## Observations -/

def plansOf (context : DebugContext) : List EntryPlan := (executionTransactions context).flatMap executionPlans

/-- A consumption in `tx` is not before the entry was planned in `planned`. -/
def notBefore (tx planned : DebugTransaction) : Bool :=
  planned.blockNumber.getD 0 < tx.blockNumber.getD 0 ||
    (tx.blockNumber = planned.blockNumber && planned.transactionIndex.getD 0 ≤ tx.transactionIndex.getD 0)

/-- `preceding`: the latest load of the block of `tx`, not after it. -/
def precedingLoad (context : DebugContext) (tx : DebugTransaction) : Option DebugTransaction :=
  ((executionTransactions context).filter fun load ↦
    load.chain = .l2 && !(executionPlans load).isEmpty && load.blockNumber = tx.blockNumber &&
      load.transactionIndex.getD 0 ≤ tx.transactionIndex.getD 0).getLast?

/-- On L2, an index belongs to the latest load. -/
def ofLatestLoad (context : DebugContext) (plan : EntryPlan) (item : ExecutionOccurrence) : Bool :=
  plan.tx.chain ≠ .l2 ||
    ((precedingLoad context item.tx).any (fun load ↦ txKey load = txKey plan.tx) &&
      item.entryIndex = toString plan.index)

def observationsOf (context : DebugContext) (plan : EntryPlan) : List ExecutionOccurrence :=
  let occurrences := plan.hash.elim [] (occurrencesOf (buildExecutionPairs context))
  let observations := occurrences.filter fun item ↦
    item.tx.chain = plan.tx.chain && item.role = .consumed && notBefore item.tx plan.tx
  observations.filter (ofLatestLoad context plan)

/-! ## Association -/

/-- `other` is another plan for the hash of `plan`. -/
def isDuplicate (plan other : EntryPlan) : Bool :=
  other.tx.chain = plan.tx.chain && other.hash = plan.hash && other.kind = plan.kind && other.id ≠ plan.id &&
    (plan.tx.chain = .l1 || txKey other.tx = txKey plan.tx)

def sameRollingHash (plan other : EntryPlan) : Bool := eq (other.entry "rollingHash") (plan.entry "rollingHash")

/-- The rolling hash of the event is the planned one. -/
def EntryPlan.agrees (plan : EntryPlan) (e : RecordedEvent) : Bool :=
  eq (e.event.args "rollingHash") (plan.entry "rollingHash")

/-- Its completion has the rolling hash of the plan. -/
def EntryPlan.exact (plan : EntryPlan) (item : ExecutionOccurrence) : Bool := (completion item).any plan.agrees

/-- The item of a list of one. -/
def single {α : Type} : List α → Option α
  | [a] => some a
  | _ => none

structure Association where
  observations : List ExecutionOccurrence
  done : Option RecordedEvent
  ambiguous : Bool

/-- The consumption that the plan is credited with, if there is one. -/
def credited (context : DebugContext) (plan : EntryPlan) : Option ExecutionOccurrence :=
  let candidates := observationsOf context plan
  let duplicatePlans := (plansOf context).filter (isDuplicate plan)
  match single (candidates.filter plan.exact), duplicatePlans.any (sameRollingHash plan) with
  | some item, false => some item
  | _, _ => if duplicatePlans.isEmpty then single candidates else none

/-- `immediate` -/
def immediateEvents (tx : DebugTransaction) : List RecordedEvent :=
  (recordedEvents tx).filter fun e ↦ e.event.name = .entryExecuted

/-- The immediate completion of a plan without a hash. -/
def immediate (context : DebugContext) (plan : EntryPlan) : Option RecordedEvent :=
  if (plansOf context).any fun other ↦
      other.id ≠ plan.id && txKey other.tx = txKey plan.tx && sameRollingHash plan other then none
  else single ((immediateEvents plan.tx).filter plan.agrees)

def associate (context : DebugContext) (plan : EntryPlan) : Association :=
  let candidates := observationsOf context plan
  let association : Association := match plan.kind, credited context plan with
    | .static, _ => ⟨[], none, false⟩
    | .execution, some item => ⟨[item], completion item, false⟩
    | .execution, none => ⟨candidates, none, !candidates.isEmpty⟩
  if plan.hash = none ∧ plan.kind = .execution then
    match immediate context plan with
    | some event => { association with done := event }
    | none => { association with ambiguous := association.ambiguous || !(immediateEvents plan.tx).isEmpty }
  else association

/-! ## Evidence -/

inductive EvidenceState
  | matched
  | mismatch
  | missingEvidence
  | ambiguous
  | skipped
  deriving DecidableEq, Repr

structure EvidenceCheck where
  field : String
  expected : Option Value
  observed : Option Value
  state : EvidenceState
  detail : Option String

/-- What is said about a plan; `done` and `ambiguous` are not part of the result, which is drawn from them. -/
structure EntryEvidence extends Association where
  plan : EntryPlan
  state : EvidenceState
  checks : List EvidenceCheck

/-- A call trace; a text that is empty is not given. -/
structure CallTrace where
  output : Option String
  error : Option String

/-- The only trace that has the result of an entry, that of the incoming entrypoint. -/
def directTrace (traces : Chain × String → Option CallTrace) (plan : EntryPlan) : Option CallTrace :=
  if plan.kind = .execution ∧ plan.index = 0 ∧
      plan.tx.payload.map DebugPayload.method = some "executeIncomingCrossChainCall" then traces (txKey plan.tx)
  else none

/-- `decode` is `decodeAbiParameters([{ type: "bytes" }], output)[0]`, if it does not throw. -/
def returnedBytes (decode : String → Option String) (trace : CallTrace) : Option String :=
  if trace.error.isSome then trace.output else trace.output.bind decode

def isSkipped (plan : EntryPlan) : Bool :=
  plan.kind = .execution && (protocolEvents plan.tx).any fun event ↦
    event.name = .l2TxSkipped && entryIndex event = toString plan.index

def outcome (success : Bool) : Option Value := some (.text (if success then "Success" else "Revert"))

def compared (agrees : Bool) : EvidenceState := if agrees then .matched else .mismatch

def missingDetail (plan : EntryPlan) (association : Association) : String :=
  if association.ambiguous then "Repeated hashes or execution indices prevent a unique association."
  else if plan.kind = .static then "Static execution cannot be established from persistent receipt logs alone."
  else "No uniquely associated recorded result. Reverts can roll back entry logs."

def outcomeCheck (plan : EntryPlan) (association : Association) (trace : Option CallTrace) : EvidenceCheck :=
  let actualSuccess := trace.elim (association.done.map fun _ ↦ true) fun trace ↦ some trace.error.isNone
  let success : Bool := plan.entry "success" ≠ some (.bool false)
  let missingState : EvidenceState := if association.ambiguous then .ambiguous else .missingEvidence
  { field := "Outcome"
    expected := outcome success
    observed := if isSkipped plan then some (.text "Skipped") else actualSuccess.bind outcome
    state := if isSkipped plan then .skipped else actualSuccess.elim missingState fun actual ↦
      compared (actual = success)
    detail := if actualSuccess.isNone then some (missingDetail plan association) else none }

def rollingHashCheck (plan : EntryPlan) (association : Association) : EvidenceCheck :=
  let missingState : EvidenceState := if association.ambiguous then .ambiguous else .missingEvidence
  { field := "Rolling hash"
    expected := plan.entry "rollingHash"
    observed := association.done.bind fun done ↦ done.event.args "rollingHash"
    state := association.done.elim missingState fun done ↦ compared (plan.agrees done)
    detail := if association.done.isNone then some (missingDetail plan association) else none }

def returnDataCheck (plan : EntryPlan) (returned : Option String) : EvidenceCheck where
  field := "Return / revert data"
  expected := plan.entry "returnData"
  observed := returned.map .text
  state := returned.elim .missingEvidence fun returned ↦
    compared (eq (some (.text returned)) (plan.entry "returnData"))
  detail := if returned.isNone then
      some "Entry completion events do not emit return bytes. A directly associated trace is needed."
    else none

def evidenceState (plan : EntryPlan) (association : Association) (checks : List EvidenceCheck) : EvidenceState :=
  if checks.any fun check ↦ check.state = .mismatch then .mismatch
  else if isSkipped plan then .skipped
  else if association.ambiguous then .ambiguous
  else if checks.all fun check ↦ check.state = .matched then .matched
  else .missingEvidence

def evidenceOf (decode : String → Option String) (traces : Chain × String → Option CallTrace)
    (context : DebugContext) (plan : EntryPlan) : EntryEvidence :=
  let association := associate context plan
  let trace := directTrace traces plan
  let checks := [outcomeCheck plan association trace, rollingHashCheck plan association,
    returnDataCheck plan (trace.bind (returnedBytes decode))]
  { association with plan, checks, state := evidenceState plan association checks }

def compareExecution (decode : String → Option String) (context : DebugContext)
    (traces : Chain × String → Option CallTrace) : List EntryEvidence :=
  (plansOf context).map (evidenceOf decode traces context)

end Analysis
