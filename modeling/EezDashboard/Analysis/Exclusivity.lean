import EezDashboard.Analysis.Association

/-!
# Nothing is credited twice

When a completion, or a consumption, can be credited to two plans.  Plans with a hash exclude each other, and
so do plans without one; but a completion of a plan with a hash can be the immediate completion of another.
-/

set_option autoImplicit false

namespace Analysis

open Js
open Flow (Chain PlanKind)

variable {context : DebugContext} {plan other : EntryPlan} {e e' : RecordedEvent} {o o' : ExecutionOccurrence}
  {hash hash' : String}

/-! ## Completions -/

/-- `e` completes `o`: nothing between them consumes the index again. -/
structure Completes (o : ExecutionOccurrence) (e : RecordedEvent) : Prop where
  recorded : e ∈ recordedEvents o.tx
  later : o.eventIndex < e.eventIndex
  name : e.event.name = .entryExecuted
  index : entryIndex e.event = o.entryIndex
  first : ∀ e' ∈ recordedEvents o.tx, o.eventIndex < e'.eventIndex → e'.eventIndex < e.eventIndex →
    ¬(e'.event.name = .executionConsumed ∧ entryIndex e'.event = o.entryIndex)

theorem completionIn_eq_some {index : String} {events : List RecordedEvent}
    (hevents : events.Pairwise fun a b ↦ a.eventIndex < b.eventIndex) (h : completionIn index events = some e) :
    e ∈ events ∧ e.event.name = .entryExecuted ∧ entryIndex e.event = index ∧
      ∀ e' ∈ events, e'.eventIndex < e.eventIndex →
        ¬(e'.event.name = .executionConsumed ∧ entryIndex e'.event = index) := by
  induction events with
  | nil => cases h
  | cons a events ih =>
    obtain ⟨ha, hevents⟩ := List.pairwise_cons.1 hevents
    rw [completionIn] at h
    split at h
    · cases h
    next hconsumed =>
      split at h
      next hdone =>
        obtain rfl := Option.some.inj h
        refine ⟨List.mem_cons_self, hdone.1, hdone.2, fun e' he' hlt ↦ ?_⟩
        obtain rfl | he' := List.mem_cons.1 he'
        · exact absurd hlt (lt_irrefl _)
        · exact absurd (ha e' he') hlt.asymm
      next =>
        obtain ⟨hmem, hname, hindex, hfirst⟩ := ih hevents h
        refine ⟨List.mem_cons_of_mem _ hmem, hname, hindex, List.forall_mem_cons.2 ⟨fun _ ↦ hconsumed, hfirst⟩⟩

theorem mem_drop_recordedEvents {tx : DebugTransaction} {n : ℕ} :
    e ∈ (recordedEvents tx).drop n ↔ e ∈ recordedEvents tx ∧ n ≤ e.eventIndex := by
  have hat {i : ℕ} {e : RecordedEvent} (h : (recordedEvents tx)[i]? = some e) : e.eventIndex = i := by
    rw [recordedEvents, List.getElem?_map, List.getElem?_zipIdx] at h
    simp only [Option.map_map, Option.map_eq_some_iff, Function.comp_apply] at h
    obtain ⟨_, -, rfl⟩ := h
    exact Nat.zero_add i
  simp only [List.mem_iff_getElem?, List.getElem?_drop]
  constructor
  · rintro ⟨i, hi⟩
    exact ⟨⟨n + i, hi⟩, hat hi ▸ Nat.le_add_right n i⟩
  · rintro ⟨⟨i, hi⟩, hn⟩
    obtain rfl := hat hi
    exact ⟨e.eventIndex - n, by rwa [Nat.add_sub_cancel' hn]⟩

theorem completes_of_completion (h : completion o = some e) : Completes o e := by
  have hsorted := (pairwise_recordedEvents o.tx).sublist (List.drop_sublist (o.eventIndex + 1) _)
  obtain ⟨hmem, hname, hindex, hfirst⟩ := completionIn_eq_some hsorted h
  obtain ⟨hrecorded, hlater⟩ := mem_drop_recordedEvents.1 hmem
  exact ⟨hrecorded, hlater, hname, hindex, fun e' he' hlt ↦ hfirst e' (mem_drop_recordedEvents.2 ⟨he', hlt⟩)⟩

theorem Occurs.name (h : Occurs context hash o) (hrole : o.role = .consumed) :
    o.event.name = .executionConsumed := by
  have := h.role
  rw [hrole, roleOf] at this
  split at this <;> first | assumption | cases this

theorem Occurs.unique (h : Occurs context hash o) (h' : Occurs context hash' o')
    (heq : o.toRecordedEvent = o'.toRecordedEvent) : o = o' ∧ hash = hash' := by
  obtain ⟨e, index, role⟩ := o
  obtain ⟨e', index', role'⟩ := o'
  obtain rfl : e = e' := heq
  obtain rfl : index = index' := h.index.trans h'.index.symm
  obtain rfl : role = role' := Option.some.inj (h.role.symm.trans h'.role)
  exact ⟨rfl, Option.some.inj (h.names.symm.trans h'.names)⟩

/-- **A completion completes one consumption**: the later of two consumes the index after the earlier. -/
theorem completion_inj (h : Occurs context hash o) (h' : Occurs context hash' o') (hrole : o.role = .consumed)
    (hrole' : o'.role = .consumed) (he : completion o = some e) (he' : completion o' = some e) :
    o = o' ∧ hash = hash' := by
  have hdone := completes_of_completion he
  have hdone' := completes_of_completion he'
  have htx : o.tx = o'.tx :=
    (mem_recordedEvents.1 hdone.recorded).1.symm.trans (mem_recordedEvents.1 hdone'.recorded).1
  have hindex : o.entryIndex = o'.entryIndex := hdone.index.symm.trans hdone'.index
  obtain hlt | heq | hlt := lt_trichotomy o.eventIndex o'.eventIndex
  · refine absurd ⟨h'.name hrole', ?_⟩ (hdone.first _ (htx ▸ h'.recorded) hlt hdone'.later)
    exact h'.index.symm.trans hindex.symm
  · refine h.unique h' (eq_of_id_eq h.recorded h'.recorded h.tx h'.tx ?_)
    exact Prod.ext (congrArg txKey htx) heq
  · refine absurd ⟨h.name hrole, ?_⟩ (hdone'.first _ (htx ▸ h.recorded) hlt hdone.later)
    exact h.index.symm.trans hindex

/-! ## Observations -/

/-- A consumption of the hash of `plan` that can be its own: on its chain and not before it, and on L2 with
its index, after no later load. -/
structure IsObservation (context : DebugContext) (plan : EntryPlan) (o : ExecutionOccurrence) : Prop where
  hash : ∃ hash, plan.hash = some hash ∧ Occurs context hash o
  chain : o.tx.chain = plan.tx.chain
  role : o.role = .consumed
  notBefore : notBefore o.tx plan.tx = true
  latest : ofLatestLoad context plan o = true

theorem mem_observationsOf : o ∈ observationsOf context plan ↔ IsObservation context plan o := by
  have hmem : o ∈ plan.hash.elim [] (occurrencesOf (buildExecutionPairs context)) ↔
      ∃ hash, plan.hash = some hash ∧ Occurs context hash o := by
    cases plan.hash with
    | none => simp
    | some hash => simp [mem_occurrencesOf]
  simp only [observationsOf, List.mem_filter, hmem, Bool.and_eq_true, decide_eq_true_iff]
  constructor
  · rintro ⟨⟨hhash, ⟨hchain, hrole⟩, hnot⟩, hlatest⟩
    exact ⟨hhash, hchain, hrole, hnot, hlatest⟩
  · exact fun h ↦ ⟨⟨h.hash, ⟨h.chain, h.role⟩, h.notBefore⟩, h.latest⟩

theorem nodup_observationsOf : (observationsOf context plan).Nodup := by
  refine (List.Nodup.filter _ ?_).filter _
  cases plan.hash with
  | none => exact List.nodup_nil
  | some hash => exact nodup_occurrencesOf

theorem single_eq_some {α : Type} {l : List α} {a : α} : single l = some a ↔ l = [a] := by
  unfold single
  split <;> simp_all

theorem single_eq_some_iff {α : Type} {l : List α} {a : α} (h : l.Nodup) :
    single l = some a ↔ a ∈ l ∧ ∀ b ∈ l, b = a := by
  rw [single_eq_some]
  constructor
  · rintro rfl
    exact ⟨List.mem_singleton_self a, fun _ ↦ List.mem_singleton.1⟩
  · rintro ⟨ha, hall⟩
    match l, h with
    | [b], _ => rw [hall b (List.mem_singleton_self b)]
    | b :: c :: l, h =>
      have hbc : b = c := (hall b (by simp)).trans (hall c (by simp)).symm
      exact absurd (hbc ▸ List.mem_cons_self) (List.nodup_cons.1 h).1

/-! ## What a plan is credited with -/

/-- The consumption that a plan is known by: the only one with its rolling hash, if no other plan for its hash
has that; or the only one, if there is no other plan. -/
inductive Credited (context : DebugContext) (plan : EntryPlan) (o : ExecutionOccurrence) : Prop
  | exact (observed : IsObservation context plan o) (agrees : plan.exact o)
      (only : ∀ o', IsObservation context plan o' → plan.exact o' → o' = o)
      (alone : ∀ other ∈ plansOf context, isDuplicate plan other → ¬sameRollingHash plan other)
  | candidate (observed : IsObservation context plan o) (only : ∀ o', IsObservation context plan o' → o' = o)
      (alone : ∀ other ∈ plansOf context, ¬isDuplicate plan other)

theorem Credited.observed (h : Credited context plan o) : IsObservation context plan o := by cases h <;> assumption

theorem credited_eq_some : credited context plan = some o ↔ Credited context plan o := by
  have hexact (o : ExecutionOccurrence) : single ((observationsOf context plan).filter plan.exact) = some o ↔
      (IsObservation context plan o ∧ plan.exact o) ∧
        ∀ o', IsObservation context plan o' ∧ plan.exact o' → o' = o := by
    rw [single_eq_some_iff (nodup_observationsOf.filter _)]
    simp only [List.mem_filter, mem_observationsOf]
  have hcandidate : single (observationsOf context plan) = some o ↔
      IsObservation context plan o ∧ ∀ o', IsObservation context plan o' → o' = o := by
    rw [single_eq_some_iff nodup_observationsOf]
    simp only [mem_observationsOf]
  have halone : ((plansOf context).filter (isDuplicate plan)).any (sameRollingHash plan) = false ↔
      ∀ other ∈ plansOf context, isDuplicate plan other → ¬sameRollingHash plan other := by
    simp only [List.any_eq_false, List.mem_filter, and_imp]
  have hnone : ((plansOf context).filter (isDuplicate plan)).isEmpty = true ↔
      ∀ other ∈ plansOf context, ¬isDuplicate plan other := by
    rw [List.isEmpty_iff, List.filter_eq_nil_iff]
  constructor
  · intro h
    unfold credited at h
    dsimp only at h
    split at h
    next item hitem hno =>
      cases h
      obtain ⟨⟨hobserved, hagrees⟩, honly⟩ := (hexact _).1 hitem
      exact .exact hobserved hagrees (fun o' ho' hex ↦ honly o' ⟨ho', hex⟩) (halone.1 hno)
    next =>
      split at h
      next hempty =>
        obtain ⟨hobserved, honly⟩ := hcandidate.1 h
        exact .candidate hobserved honly (hnone.1 hempty)
      next => cases h
  · rintro (⟨hobserved, hagrees, honly, hno⟩ | ⟨hobserved, honly, hno⟩)
    · have hitem := (hexact o).2 ⟨⟨hobserved, hagrees⟩, fun o' ho' ↦ honly o' ho'.1 ho'.2⟩
      simp only [credited, hitem, halone.2 hno]
    · unfold credited
      dsimp only
      split
      next item hitem _ => rw [honly item ((hexact item).1 hitem).1.1]
      next => rw [if_pos (hnone.2 hno), hcandidate.2 ⟨hobserved, honly⟩]

/-- The completion, in its own transaction, of a plan without a hash: the only one with its rolling hash, and
no other plan of the transaction has that. -/
structure Immediate (context : DebugContext) (plan : EntryPlan) (e : RecordedEvent) : Prop where
  recorded : e ∈ recordedEvents plan.tx
  name : e.event.name = .entryExecuted
  agrees : plan.agrees e
  only : ∀ e' ∈ recordedEvents plan.tx, e'.event.name = .entryExecuted → plan.agrees e' → e' = e
  alone : ∀ other ∈ plansOf context, other.id ≠ plan.id → txKey other.tx = txKey plan.tx →
    ¬sameRollingHash plan other

theorem immediate_eq_some : immediate context plan = some e ↔ Immediate context plan e := by
  have hsingle : single ((immediateEvents plan.tx).filter plan.agrees) = some e ↔
      ((e ∈ recordedEvents plan.tx ∧ e.event.name = .entryExecuted) ∧ plan.agrees e) ∧
        ∀ e', (e' ∈ recordedEvents plan.tx ∧ e'.event.name = .entryExecuted) ∧ plan.agrees e' → e' = e := by
    have hnodup : (immediateEvents plan.tx).Nodup := (nodup_recordedEvents _).filter _
    rw [single_eq_some_iff (hnodup.filter _)]
    simp only [immediateEvents, List.mem_filter, decide_eq_true_iff]
  unfold immediate
  split
  next hany =>
    obtain ⟨other, hother, hmatch⟩ := List.any_eq_true.1 hany
    simp only [Bool.and_eq_true, decide_eq_true_iff] at hmatch
    exact ⟨nofun, fun h ↦ absurd hmatch.2 (h.alone other hother hmatch.1.1 hmatch.1.2)⟩
  next hany =>
    rw [hsingle]
    constructor
    · rintro ⟨⟨⟨hrecorded, hname⟩, hagrees⟩, honly⟩
      refine ⟨hrecorded, hname, hagrees, fun e' he' hn ha ↦ honly e' ⟨⟨he', hn⟩, ha⟩, fun other hmem hne hkey hsame ↦ ?_⟩
      exact hany (List.any_eq_true.2 ⟨other, hmem, by simp [hne, hkey, hsame]⟩)
    · exact fun h ↦ ⟨⟨⟨h.recorded, h.name⟩, h.agrees⟩, fun e' he' ↦ h.only e' he'.1.1 he'.1.2 he'.2⟩

/-! ## Nothing is credited twice -/

theorem eq_of_plan_id_eq (h : plan ∈ plansOf context) (h' : other ∈ plansOf context) (hid : plan.id = other.id) :
    plan = other := by
  obtain ⟨tx, htx, hplan⟩ := List.mem_flatMap.1 h
  obtain ⟨tx', htx', hother⟩ := List.mem_flatMap.1 h'
  obtain ⟨rfl, hentry, hhash⟩ := mem_executionPlans hplan
  obtain ⟨rfl, hentry', hhash'⟩ := mem_executionPlans hother
  obtain ⟨hkey, hrest⟩ := Prod.mk.inj hid
  obtain ⟨hkind, hindex⟩ := Prod.mk.inj hrest
  have heq := eq_of_txKey_eq htx htx' hkey
  rw [heq, hkind, hindex, hentry'] at hentry
  obtain ⟨tx, entry, index, kind, hash⟩ := plan
  obtain ⟨tx', entry', index', kind', hash'⟩ := other
  obtain rfl : entry' = entry := Option.some.inj hentry
  obtain rfl : tx = tx' := heq
  obtain rfl : index = index' := hindex
  obtain rfl : kind = kind' := hkind
  obtain rfl : hash = hash' := hhash.trans hhash'.symm
  rfl

theorem toString_injective {m n : ℕ} (h : toString m = toString n) : m = n := by
  have hdigits : Nat.toDigits 10 m = Nat.toDigits 10 n := by
    rw [← Nat.toList_repr, ← Nat.toList_repr]
    exact congrArg String.toList h
  rw [← Nat.ofDigitChars_toDigits (b := 10) (by decide) (le_refl _) (n := m), hdigits,
    Nat.ofDigitChars_toDigits (by decide) (le_refl _)]

/-- On L2 the latest load and the index determine the plan. -/
theorem id_eq_of_ofLatestLoad (hchain : plan.tx.chain = .l2) (hchain' : other.tx.chain = .l2)
    (hkind : plan.kind = other.kind) (h : ofLatestLoad context plan o) (h' : ofLatestLoad context other o) :
    plan.id = other.id := by
  simp only [ofLatestLoad, hchain, hchain', ne_eq, not_true_eq_false, decide_false, Bool.false_or,
    Bool.and_eq_true, Option.any_eq_true, decide_eq_true_iff] at h h'
  obtain ⟨⟨load, hload, hkey⟩, hindex⟩ := h
  obtain ⟨⟨load', hload', hkey'⟩, hindex'⟩ := h'
  obtain rfl := Option.some.inj (hload.symm.trans hload')
  exact Prod.ext (hkey.symm.trans hkey') (Prod.ext hkind (toString_injective (hindex.symm.trans hindex')))

/-- **A consumption is credited to one plan.** -/
theorem credited_inj (hplan : plan ∈ plansOf context) (hother : other ∈ plansOf context)
    (hkind : plan.kind = other.kind) (h : Credited context plan o) (h' : Credited context other o) :
    plan.id = other.id := by
  have hobserved := h.observed
  have hobserved' := h'.observed
  obtain ⟨hash, hhash, hoccurs⟩ := hobserved.hash
  obtain ⟨hash', hhash', hoccurs'⟩ := hobserved'.hash
  obtain rfl := (hoccurs.unique hoccurs' rfl).2
  have hchain : plan.tx.chain = other.tx.chain := hobserved.chain.symm.trans hobserved'.chain
  cases hl : plan.tx.chain with
  | l2 => exact id_eq_of_ofLatestLoad hl (hchain ▸ hl) hkind hobserved.latest hobserved'.latest
  | l1 =>
    by_contra hne
    have hduplicate : isDuplicate plan other := by
      simp [isDuplicate, ← hchain, hl, hhash, hhash', hkind, Ne.symm hne]
    have hduplicate' : isDuplicate other plan := by
      simp [isDuplicate, ← hchain, hl, hhash, hhash', hkind, hne]
    cases h with
    | candidate _ _ hnone => exact hnone other hother hduplicate
    | exact _ hagrees _ hnone =>
      cases h' with
      | candidate _ _ hnone' => exact hnone' plan hplan hduplicate'
      | exact _ hagrees' _ _ =>
        obtain ⟨e, he, hrolls⟩ := (Option.any_eq_true _ _).1 hagrees
        obtain ⟨e', he', hrolls'⟩ := (Option.any_eq_true _ _).1 hagrees'
        obtain rfl := Option.some.inj (he.symm.trans he')
        exact hnone other hother hduplicate (eq_trans (eq_symm hrolls') hrolls)

/-- An immediate completion is that of one plan. -/
theorem immediate_inj (hother : other ∈ plansOf context) (h : Immediate context plan e)
    (h' : Immediate context other e) : plan.id = other.id := by
  have htx : other.tx = plan.tx :=
    (mem_recordedEvents.1 h'.recorded).1.symm.trans (mem_recordedEvents.1 h.recorded).1
  by_contra hne
  exact h.alone other hother (Ne.symm hne) (congrArg txKey htx) (eq_trans (eq_symm h'.agrees) h.agrees)

theorem associate_static (h : plan.kind = .static) : associate context plan = ⟨[], none, false⟩ := by
  simp [associate, h]

theorem associate_hashed (h : plan.kind = .execution) (hhash : plan.hash ≠ none) : associate context plan =
    match credited context plan with
    | some item => ⟨[item], completion item, false⟩
    | none => ⟨observationsOf context plan, none, !(observationsOf context plan).isEmpty⟩ := by
  simp only [associate, h, hhash, false_and, if_false]
  cases credited context plan <;> rfl

/-- Without a hash nothing is observed. -/
theorem associate_hashless (h : plan.kind = .execution) (hhash : plan.hash = none) : associate context plan =
    match immediate context plan with
    | some event => ⟨[], some event, false⟩
    | none => ⟨[], none, !(immediateEvents plan.tx).isEmpty⟩ := by
  have hobservations : observationsOf context plan = [] := by simp [observationsOf, hhash]
  have hcredited : credited context plan = none := by simp [credited, hobservations, single]
  simp only [associate, h, hhash, hcredited, hobservations, and_self, if_true]
  cases immediate context plan <;> rfl

theorem not_credited (hhash : plan.hash = none) : ¬Credited context plan o := by
  intro h
  obtain ⟨hash, hsome, -⟩ := h.observed.hash
  exact Option.some_ne_none _ (hsome.symm.trans hhash)

theorem done_associate : (associate context plan).done = some e ↔ plan.kind = .execution ∧
    ((∃ o, Credited context plan o ∧ completion o = some e) ∨ plan.hash = none ∧ Immediate context plan e) := by
  cases hkind : plan.kind with
  | static => simp [associate_static hkind]
  | execution =>
    by_cases hhash : plan.hash = none
    · rw [associate_hashless hkind hhash, ← immediate_eq_some]
      cases immediate context plan <;> simp [hhash, not_credited hhash]
    · rw [associate_hashed hkind hhash]
      simp only [← credited_eq_some]
      cases credited context plan <;> simp [hhash]

/-- The consumption that a plan is associated with, when it is. -/
def EntryEvidence.associated (evidence : EntryEvidence) : Option ExecutionOccurrence :=
  if evidence.ambiguous then none else single evidence.observations

theorem associated_evidenceOf {decode : String → Option String} {traces : Chain × String → Option CallTrace} :
    (evidenceOf decode traces context plan).associated = some o ↔
      plan.kind = .execution ∧ Credited context plan o := by
  have heq : (evidenceOf decode traces context plan).associated =
      if (associate context plan).ambiguous then none else single (associate context plan).observations := rfl
  rw [heq]
  cases hkind : plan.kind with
  | static => simp [associate_static hkind, single]
  | execution =>
    by_cases hhash : plan.hash = none
    · rw [associate_hashless hkind hhash]
      cases immediate context plan <;> simp [single, not_credited hhash]
    · rw [associate_hashed hkind hhash, ← credited_eq_some]
      cases credited context plan with
      | none => cases observationsOf context plan <;> simp [single]
      | some item => simp [single]

/-- A completion, and a consumption, is credited to one plan at most. -/
def Exclusive (evidence : List EntryEvidence) : Prop :=
  ∀ a ∈ evidence, ∀ b ∈ evidence, a.plan.id ≠ b.plan.id →
    (∀ e ∈ a.done, ∀ e' ∈ b.done, e.id ≠ e'.id) ∧ ∀ o ∈ a.associated, ∀ o' ∈ b.associated, o.id ≠ o'.id

/-- A plan is reported as matching or mismatching a completion event. -/
def EntryEvidence.Judged (evidence : EntryEvidence) : Prop :=
  ∃ check ∈ evidence.checks, check.field = "Rolling hash" ∧ (check.state = .matched ∨ check.state = .mismatch)

/-- A completion of a consumption that is credited to a plan, and that is at the same time the immediate
completion of a plan without a hash. -/
structure Contested (context : DebugContext) (plan other : EntryPlan) (e : RecordedEvent) : Prop where
  kind : plan.kind = .execution
  kind' : other.kind = .execution
  hashless : other.hash = none
  credited : ∃ o, Credited context plan o ∧ completion o = some e
  immediate : Immediate context other e

/-- Two plans with one completion are one plan, or the completion is contested. -/
theorem id_eq_or_contested (hplan : plan ∈ plansOf context) (hother : other ∈ plansOf context)
    (h : (associate context plan).done = some e) (h' : (associate context other).done = some e) :
    plan.id = other.id ∨ Contested context plan other e ∨ Contested context other plan e := by
  obtain ⟨hkind, hdone⟩ := done_associate.1 h
  obtain ⟨hkind', hdone'⟩ := done_associate.1 h'
  obtain ⟨o, ho, he⟩ | ⟨hhash, he⟩ := hdone
  · obtain ⟨o', ho', he'⟩ | ⟨hhash', he'⟩ := hdone'
    · obtain ⟨_, -, hoccurs⟩ := ho.observed.hash
      obtain ⟨_, -, hoccurs'⟩ := ho'.observed.hash
      obtain rfl := (completion_inj hoccurs hoccurs' ho.observed.role ho'.observed.role he he').1
      exact .inl (credited_inj hplan hother (hkind.trans hkind'.symm) ho ho')
    · exact .inr (.inl ⟨hkind, hkind', hhash', ⟨o, ho, he⟩, he'⟩)
  · obtain ⟨o', ho', he'⟩ | ⟨-, he'⟩ := hdone'
    · exact .inr (.inr ⟨hkind', hkind, hhash, ⟨o', ho', he'⟩, he⟩)
    · exact .inl (immediate_inj hother he he')

/-- A rolling hash is reported as matching or mismatching of what is done, and of nothing else. -/
theorem rollingHashCheck_decided (plan : EntryPlan) (association : Association) :
    let state := (rollingHashCheck plan association).state
    (state = .matched ∨ state = .mismatch) ↔ association.done.isSome := by
  cases h : association.done with
  | none => cases ha : association.ambiguous <;> simp [rollingHashCheck, h, ha]
  | some e => cases ha : plan.agrees e <;> simp [rollingHashCheck, h, ha, compared]

/-- A plan is reported of what it is done by. -/
theorem judged_evidenceOf {decode : String → Option String} {traces : Chain × String → Option CallTrace} :
    (evidenceOf decode traces context plan).Judged ↔ (evidenceOf decode traces context plan).done.isSome = true := by
  have houtcome (trace : Option CallTrace) :
      (outcomeCheck plan (associate context plan) trace).field ≠ "Rolling hash" := by
    simp [outcomeCheck]
  have hreturned (returned : Option String) : (returnDataCheck plan returned).field ≠ "Rolling hash" := by
    simp [returnDataCheck]
  refine Iff.trans ?_ (rollingHashCheck_decided plan (associate context plan))
  constructor
  · rintro ⟨check, hcheck, hfield, hstate⟩
    rcases List.mem_cons.1 hcheck with rfl | hcheck
    · exact absurd hfield (houtcome _)
    rcases List.mem_cons.1 hcheck with rfl | hcheck
    · exact hstate
    · rw [List.mem_singleton.1 hcheck] at hfield
      exact absurd hfield (hreturned _)
  · exact fun hstate ↦ ⟨_, List.mem_cons_of_mem _ List.mem_cons_self, rfl, hstate⟩

theorem mem_compareExecution {decode : String → Option String} {traces : Chain × String → Option CallTrace}
    {evidence : EntryEvidence} : evidence ∈ compareExecution decode context traces ↔
      ∃ plan ∈ plansOf context, evidenceOf decode traces context plan = evidence :=
  List.mem_map

/-- What is done is recorded in its transaction. -/
theorem recorded_of_done (hplan : plan ∈ plansOf context) (h : (associate context plan).done = some e) :
    e.tx ∈ executionTransactions context ∧ e ∈ recordedEvents e.tx := by
  obtain ⟨-, ⟨o, ho, he⟩ | ⟨-, he⟩⟩ := done_associate.1 h
  · obtain ⟨_, -, hoccurs⟩ := ho.observed.hash
    have hrecorded := (completes_of_completion he).recorded
    have htx := (mem_recordedEvents.1 hrecorded).1
    exact ⟨htx ▸ hoccurs.tx, htx ▸ hrecorded⟩
  · have htx := (mem_recordedEvents.1 he.recorded).1
    obtain ⟨tx, hmem, hplan⟩ := List.mem_flatMap.1 hplan
    exact ⟨htx ▸ (mem_executionPlans hplan).1 ▸ hmem, htx ▸ he.recorded⟩

theorem not_exclusive_of_ids (decode : String → Option String) (traces : Chain × String → Option CallTrace)
    {id : (Chain × String) × ℕ} (hplan : plan ∈ plansOf context) (hother : other ∈ plansOf context)
    (hne : plan.id ≠ other.id) (h : (associate context plan).done.map RecordedEvent.id = some id)
    (h' : (associate context other).done.map RecordedEvent.id = some id) :
    ¬Exclusive (compareExecution decode context traces) := by
  obtain ⟨e, he, hid⟩ := Option.map_eq_some_iff.1 h
  obtain ⟨e', he', hid'⟩ := Option.map_eq_some_iff.1 h'
  exact fun hall ↦ (hall _ (mem_compareExecution.2 ⟨plan, hplan, rfl⟩) _
    (mem_compareExecution.2 ⟨other, hother, rfl⟩) hne).1 e he e' he' (hid.trans hid'.symm)

/-- Both of a contested completion's plans are done by it, and they are two. -/
theorem not_exclusive_of_contested (decode : String → Option String)
    (traces : Chain × String → Option CallTrace) (hplan : plan ∈ plansOf context)
    (hother : other ∈ plansOf context) (h : Contested context plan other e) :
    ¬Exclusive (compareExecution decode context traces) := by
  have hne : plan.id ≠ other.id := by
    intro hid
    obtain ⟨o, ho, -⟩ := h.credited
    exact not_credited h.hashless (eq_of_plan_id_eq hplan hother hid ▸ ho)
  have hdone := done_associate.2 ⟨h.kind, .inl h.credited⟩
  have hdone' := done_associate.2 ⟨h.kind', .inr ⟨h.hashless, h.immediate⟩⟩
  exact not_exclusive_of_ids decode traces hplan hother hne (congrArg _ hdone) (congrArg _ hdone')

/-- **Evidence is exclusive unless a completion is contested**, which the rules do not exclude; and a plan is reported
as matching or mismatching a completion exactly when it is done by one. -/
theorem compareExecution_exclusive_iff (decode : String → Option String) (context : DebugContext)
    (traces : Chain × String → Option CallTrace) :
    (Exclusive (compareExecution decode context traces) ↔
      ∀ plan ∈ plansOf context, ∀ other ∈ plansOf context, ∀ e, ¬Contested context plan other e) ∧
    ∀ evidence ∈ compareExecution decode context traces, evidence.Judged ↔ evidence.done.isSome = true := by
  refine ⟨⟨?_, ?_⟩, fun evidence hevidence ↦ ?_⟩
  · exact fun hall plan hplan other hother e h ↦ not_exclusive_of_contested decode traces hplan hother h hall
  · intro hnone a ha b hb hne
    obtain ⟨plan, hplan, rfl⟩ := mem_compareExecution.1 ha
    obtain ⟨other, hother, rfl⟩ := mem_compareExecution.1 hb
    refine ⟨fun e he e' he' hid ↦ ?_, fun o ho o' ho' hid ↦ ?_⟩
    · obtain ⟨htx, hrecorded⟩ := recorded_of_done hplan he
      obtain ⟨htx', hrecorded'⟩ := recorded_of_done hother he'
      obtain rfl := eq_of_id_eq hrecorded hrecorded' htx htx' hid
      obtain hid | h | h := id_eq_or_contested hplan hother he he'
      · exact hne hid
      · exact hnone plan hplan other hother e h
      · exact hnone other hother plan hplan e h
    · obtain ⟨hkind, hcredited⟩ := associated_evidenceOf.1 ho
      obtain ⟨hkind', hcredited'⟩ := associated_evidenceOf.1 ho'
      obtain ⟨_, -, hoccurs⟩ := hcredited.observed.hash
      obtain ⟨_, -, hoccurs'⟩ := hcredited'.observed.hash
      have heq := eq_of_id_eq hoccurs.recorded hoccurs'.recorded hoccurs.tx hoccurs'.tx hid
      obtain rfl := (hoccurs.unique hoccurs' heq).1
      exact hne (credited_inj hplan hother (hkind.trans hkind'.symm) hcredited hcredited')
  · obtain ⟨plan, -, rfl⟩ := mem_compareExecution.1 hevidence
    exact judged_evidenceOf

/-! ## A contested completion

An entry of one batch is consumed in the transaction of the next, whose own entry has no hash and the same
rolling hash.  Both plans are known by the one completion. -/

def word (digit : Char) : String := String.ofList ('0' :: 'x' :: List.replicate 64 digit)

def recordOf (fields : List (String × Value)) : Record := fun name ↦ fields.lookup name

/-- A batch of one entry. -/
def batch (digit : Char) (blockNumber : ℕ) (proxyEntryHash : String) (events : List DebugEvent) :
    DebugTransaction where
  chain := .l1
  hash := word digit
  blockNumber := some blockNumber
  transactionIndex := some 0
  events
  payload := some ⟨"postAndVerifyBatch", [recordOf [("proxyEntryHash", .text proxyEntryHash),
    ("rollingHash", .text (word 'f'))]], []⟩

def planning : DebugTransaction := batch 'a' 1 (word '1') []

def consuming : DebugTransaction :=
  batch 'b' 2 (word '0')
    [⟨.executionConsumed, recordOf [("crossChainCallHash", .text (word '1')), ("entryQueueIndex", .int 0)], [], [],
      true⟩,
    ⟨.entryExecuted, recordOf [("entryQueueIndex", .int 0), ("rollingHash", .text (word 'f'))], [], [], true⟩]

/-- The plan of the entry of a batch. -/
def planOf (tx : DebugTransaction) : EntryPlan :=
  let entry := ((plannedOf tx .execution)[0]?).getD fun _ ↦ none
  ⟨tx, entry, 0, .execution, hashValue (entry "proxyEntryHash")⟩

def twoBatches : DebugContext := ⟨[[planning, consuming]], none⟩

theorem lowerCase_word {c : Char} (h : c.toLower = c) : lowerCase (word c) = word c := by
  rw [lowerCase, word, String.toList_ofList, List.map_cons, List.map_cons, List.map_replicate, h]
  rfl

theorem hexDigits?_word {c : Char} (hdigit : isHexDigit c = true) : hexDigits? (word c) = some (List.replicate 64 c) := by
  rw [hexDigits?, word, String.toList_ofList]
  exact if_pos (List.all_eq_true.2 fun d hd ↦ List.eq_of_mem_replicate hd ▸ hdigit)

theorem hashValue_word {c : Char} (hdigit : isHexDigit c = true) (hzero : c ≠ '0') (hlower : c.toLower = c) :
    hashValue (some (.text (word c))) = some (word c) := by
  have hany : (List.replicate 64 c).any (· ≠ '0') = true :=
    List.any_eq_true.2 ⟨c, List.mem_replicate.2 ⟨by decide, rfl⟩, decide_eq_true hzero⟩
  rw [hashValue, hexDigits?_word hdigit, Option.bind_some, if_pos ⟨List.length_replicate, hany⟩, lowerCase_word hlower]

theorem hashValue_word_zero : hashValue (some (.text (word '0'))) = none := by
  rw [hashValue, hexDigits?_word (by decide), Option.bind_some, if_neg]
  rintro ⟨-, hany⟩
  obtain ⟨d, hd, hne⟩ := List.any_eq_true.1 hany
  exact of_decide_eq_true hne (List.eq_of_mem_replicate hd)

theorem txKey_ne : txKey planning ≠ txKey consuming := by
  rw [txKey, txKey, planning, consuming, batch, batch, lowerCase_word (by decide), lowerCase_word (by decide)]
  simp [word]

theorem hash_planning : (planOf planning).hash = some (word '1') :=
  hashValue_word (c := '1') (by decide) (by decide) (by decide)

theorem hash_consuming : (planOf consuming).hash = none := hashValue_word_zero

theorem executionTransactions_twoBatches : executionTransactions twoBatches = [planning, consuming] := by
  have hset : [planning, consuming].foldl setTransaction [] = [planning, consuming] := by
    simp [setTransaction, txKey_ne]
  have hsorted : [planning, consuming].mergeSort DebugTransaction.before = [planning, consuming] :=
    List.mergeSort_of_pairwise (by decide)
  exact (congrArg (List.mergeSort · DebugTransaction.before) hset).trans hsorted

theorem plansOf_twoBatches : plansOf twoBatches = [planOf planning, planOf consuming] := by
  rw [plansOf, executionTransactions_twoBatches]
  rfl

/-- The events of the second batch. -/
def eventAt (i : ℕ) : RecordedEvent :=
  ((recordedEvents consuming)[i]?).getD ⟨consuming, ⟨.entryExecuted, fun _ ↦ none, [], [], true⟩, i⟩

theorem recordedEvents_consuming : recordedEvents consuming = [eventAt 0, eventAt 1] := rfl

/-- What the first of them says of the entry of the first batch. -/
def consumption : ExecutionOccurrence :=
  { eventAt 0 with entryIndex := entryIndex (eventAt 0).event, role := .consumed }

theorem occurrenceOf_consumption : occurrenceOf (eventAt 0) = some (word '1', consumption) := by
  have hhash : hashValue ((eventAt 0).event.args "crossChainCallHash") = some (word '1') :=
    hashValue_word (c := '1') (by decide) (by decide) (by decide)
  rw [occurrenceOf, hhash]
  rfl

theorem buildExecutionPairs_twoBatches :
    buildExecutionPairs twoBatches = [⟨word '1', [planOf planning], [consumption]⟩] := by
  have hplanning : executionPlans planning = [planOf planning] ∧ recordedEvents planning = [] := ⟨rfl, rfl⟩
  have hconsuming : executionPlans consuming = [planOf consuming] ∧ occurrenceOf (eventAt 1) = none := ⟨rfl, rfl⟩
  simp [buildExecutionPairs, executionTransactions_twoBatches, hplanning, hconsuming, recordedEvents_consuming,
    occurrenceOf_consumption, addPlan, addOccurrence, updateGroup, hash_planning, hash_consuming]

theorem observationsOf_planning : observationsOf twoBatches (planOf planning) = [consumption] := by
  have hobserved : ofLatestLoad twoBatches (planOf planning) consumption = true ∧
      notBefore consumption.tx (planOf planning).tx = true := ⟨rfl, rfl⟩
  have hconsumed : consumption.tx.chain = (planOf planning).tx.chain ∧ consumption.role = .consumed := ⟨rfl, rfl⟩
  rw [observationsOf, buildExecutionPairs_twoBatches, hash_planning]
  simp [occurrencesOf, hobserved, hconsumed]

/-- The completion has the rolling hash of both plans. -/
theorem agrees_eventAt {tx : DebugTransaction} (htx : tx = planning ∨ tx = consuming) :
    (planOf tx).agrees (eventAt 1) = true := by
  have hsame : eq (some (.text (word 'f'))) (some (.text (word 'f'))) = true := by simp [eq]
  rcases htx with rfl | rfl
  · exact hsame
  · exact hsame

theorem credited_planning : credited twoBatches (planOf planning) = some consumption := by
  have hcompletion : completion consumption = some (eventAt 1) := rfl
  have hexact : (planOf planning).exact consumption = true := by
    rw [EntryPlan.exact, hcompletion, Option.any_some]
    exact agrees_eventAt (.inl rfl)
  have hduplicates : (plansOf twoBatches).filter (isDuplicate (planOf planning)) = [] := by
    simp [plansOf_twoBatches, isDuplicate, hash_planning, hash_consuming]
  simp [credited, observationsOf_planning, hexact, hduplicates, single]

theorem immediate_consuming : immediate twoBatches (planOf consuming) = some (eventAt 1) := by
  have htx : (planOf planning).tx = planning ∧ (planOf consuming).tx = consuming := ⟨rfl, rfl⟩
  have hother : ((plansOf twoBatches).any fun other ↦ other.id ≠ (planOf consuming).id &&
      txKey other.tx = txKey (planOf consuming).tx && sameRollingHash (planOf consuming) other) = false := by
    simp [plansOf_twoBatches, htx, txKey_ne]
  have hevents : immediateEvents (planOf consuming).tx = [eventAt 1] := by
    rw [immediateEvents, htx.2, recordedEvents_consuming]
    rfl
  rw [immediate, hother, hevents, List.filter_singleton, agrees_eventAt (.inr rfl)]
  rfl

/-- The consumption and the immediate rule are not exclusive. -/
theorem compareExecution_twoBatches :
    ¬Exclusive (compareExecution (fun _ ↦ none) twoBatches fun _ ↦ none) := by
  have hkind (tx : DebugTransaction) : (planOf tx).kind = .execution := rfl
  have hplanning : (associate twoBatches (planOf planning)).done = some (eventAt 1) := by
    simp [associate, credited_planning, hash_planning, hkind]
    rfl
  have hconsuming : (associate twoBatches (planOf consuming)).done = some (eventAt 1) := by
    simp [associate, immediate_consuming, hash_consuming, hkind]
  have hmem {tx : DebugTransaction} (htx : tx = planning ∨ tx = consuming) : planOf tx ∈ plansOf twoBatches := by
    rw [plansOf_twoBatches]
    rcases htx with rfl | rfl <;> simp
  have hne : (planOf planning).id ≠ (planOf consuming).id := fun h ↦ txKey_ne (congrArg Prod.fst h)
  exact not_exclusive_of_ids _ _ (hmem (.inl rfl)) (hmem (.inr rfl)) hne (congrArg _ hplanning)
    (congrArg _ hconsuming)

end Analysis
