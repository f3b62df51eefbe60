import EezDashboard.Bundles.Tables

/-!
# The steps of a bundle

A bundle is shown in steps, one for each of its events in the order of their kinds.  A consumption is merged
into a call of its transaction: the step of the call gets the highlights of both, and the tables and contracts
of the consumption when these changed something.

Tables are replaced, so of several consumptions merged into one call the last one wins.  Nothing is lost just
when at most one of them finds an entry (`losesNothing_iff`).
-/

set_option autoImplicit false

namespace Bundles

open Js

structure StepHighlight where
  activeNodes : List String
  activeEdges : List String
  description : String

structure ContractEntry where
  key : String
  value : Option String
  changed : Bool

structure StepContractState where
  entries : List ContractEntry

structure BundleArchitecture (Action : Type) where
  stepHighlights : List StepHighlight
  tableStates : List StepTableState
  contractStates : List StepContractState
  mergedEvents : List (EventRecord Action)

section

variable {Action : Type}

/-! ## The order of the steps -/

def EventName.priority : EventName → ℕ
  | batchPosted => 0
  | executionTableLoaded => 1
  | crossChainProxyCreated => 2
  | l2ExecutionPerformed => 3
  | executionConsumed => 4
  | crossChainCallExecuted => 5
  | l2TXExecuted => 5
  | incomingCrossChainCallExecuted => 6
  | _ => 3

def EventRecord.shownBefore (a b : EventRecord Action) : Bool :=
  if a.eventName.priority ≠ b.eventName.priority then a.eventName.priority < b.eventName.priority else a.before b

def orderedEvents (bundleEvents : List (EventRecord Action)) : List (EventRecord Action) :=
  bundleEvents.mergeSort EventRecord.shownBefore

/-! ## Contracts -/

def truncateHash (h : String) : String :=
  if h.length < 12 then h else String.ofList (h.toList.take 10) ++ "..."

def truncateAddress (addr : String) : String :=
  if addr.length ≤ 10 then addr else
    String.ofList (addr.toList.take 6) ++ "..." ++ String.ofList (addr.toList.drop (addr.length - 4))

/-- The calls of `stateMap.set` for an event. -/
def contractUpdates (event : EventRecord Action) : List (String × Option String) :=
  let rid := event.rollupId.getD "undefined"
  match event.eventName with
  | .rollupCreated =>
    [(s!"Rollup {rid} state", event.initialState.map truncateHash),
      (s!"Rollup {rid} owner", event.owner.map truncateAddress)]
  | .batchPosted => (event.entries.getD []).flatMap fun entry ↦
      entry.stateDeltas.map fun sd ↦ (s!"Rollup {sd.rollupId} state", some (truncateHash sd.newState))
  | .l2ExecutionPerformed => [(s!"Rollup {rid} state", event.newState.map truncateHash)]
  | .stateUpdated => [(s!"Rollup {rid} state", event.newStateRoot.map truncateHash)]
  | _ => []

/-- `stateMap.set(key, value)` -/
def setState (stateMap : List (String × Option String)) (update : String × Option String) :
    List (String × Option String) :=
  match stateMap with
  | [] => [update]
  | e :: stateMap => if e.1 = update.1 then update :: stateMap else e :: setState stateMap update

def contractStatesFrom (stateMap : List (String × Option String)) : List (EventRecord Action) → List StepContractState
  | [] => []
  | event :: events =>
    let updates := contractUpdates event
    let stateMap := updates.foldl setState stateMap
    ⟨stateMap.map fun e ↦ ⟨e.1, e.2, e.1 ∈ updates.map Prod.fst⟩⟩ :: contractStatesFrom stateMap events

def computeContractStates (events : List (EventRecord Action)) : List StepContractState := contractStatesFrom [] events

/-! ## Merging -/

def MERGE_TARGETS : List EventName := [.crossChainCallExecuted, .incomingCrossChainCallExecuted, .l2TXExecuted]

/-- A call of the transaction. -/
def EventRecord.isCallOf (event : EventRecord Action) (tx : String) : Bool :=
  event.transactionHash = tx ∧ event.eventName ∈ MERGE_TARGETS

/-- The place of the next call of the transaction, or else of the one before. -/
def mergeTarget (events : List (EventRecord Action)) (event : EventRecord Action) (i : ℕ) : Option ℕ :=
  if event.eventName ≠ .executionConsumed then none else
    let isCall (e : EventRecord Action × ℕ) := e.1.isCallOf event.transactionHash
    ((events.zipIdx.drop (i + 1)).find? isCall <|> (events.zipIdx.take i).reverse.find? isCall).map Prod.snd

def mergeInto (events : List (EventRecord Action)) : List (Option ℕ) :=
  events.zipIdx.map fun (event, i) ↦ mergeTarget events event i

structure Steps where
  highlights : List StepHighlight
  tables : List StepTableState
  contracts : List StepContractState

def mergeHighlights (highlights : List StepHighlight) (i target : ℕ) : List StepHighlight :=
  match highlights[i]? with
  | some ch => highlights.modify target fun th ↦
      { th with
        activeNodes := distinct (th.activeNodes ++ ch.activeNodes)
        activeEdges := distinct (th.activeEdges ++ ch.activeEdges) }
  | none => highlights

def StepTableState.hasConsumed (state : StepTableState) : Bool :=
  state.l1.any (·.stepStatus = .jc) || state.l2.any (·.stepStatus = .jc)

def mergeTables (tables : List StepTableState) (i target : ℕ) : List StepTableState :=
  match tables[i]? with
  | some state => if state.hasConsumed then tables.set target state else tables
  | none => tables

def StepContractState.hasChanged (state : StepContractState) : Bool := state.entries.any ContractEntry.changed

def mergeContracts (contracts : List StepContractState) (i target : ℕ) : List StepContractState :=
  match contracts[i]?, contracts[target]? with
  | some state, some state' =>
    if state.hasChanged && !state'.hasChanged then contracts.set target state else contracts
  | _, _ => contracts

/-- What the loop does for one event. -/
def mergeStep (steps : Steps) (merge : Option ℕ × ℕ) : Steps :=
  match merge with
  | (none, _) => steps
  | (some target, i) =>
    ⟨mergeHighlights steps.highlights i target, mergeTables steps.tables i target,
      mergeContracts steps.contracts i target⟩

/-- What is kept of what there is for each event. -/
def kept {α : Type} (targets : List (Option ℕ)) (l : List α) : List α :=
  ((l.zip targets).filter fun x ↦ x.2 = none).map Prod.fst

/-- The steps of the bundle; the highlights of one event are read off the addresses and the proxies. -/
def buildBundleArchitecture (formatAction : Action → ActionDetail) (cache : ActionDetailCache)
    (highlightOf : EventRecord Action → StepHighlight) (bundleEvents : List (EventRecord Action)) :
    BundleArchitecture Action :=
  let events := orderedEvents bundleEvents
  let targets := mergeInto events
  let steps := targets.zipIdx.foldl mergeStep
    ⟨events.map highlightOf, computeTableStates formatAction cache events, computeContractStates events⟩
  { stepHighlights := kept targets steps.highlights
    tableStates := kept targets steps.tables
    contractStates := kept targets steps.contracts
    mergedEvents := kept targets events }

end

/-! ## The order -/

section

variable {Action : Type} {bundleEvents events : List (EventRecord Action)} {event event' : EventRecord Action}
  {i j target : ℕ} {c : Chain}

theorem before_trans (a b c : EventRecord Action) (hab : a.before b) (hbc : b.before c) : a.before c := by
  simp only [EventRecord.before] at *
  grind

theorem shownBefore_trans (a b c : EventRecord Action) (hab : a.shownBefore b) (hbc : b.shownBefore c) :
    a.shownBefore c := by
  have htrans := before_trans a b c
  simp only [EventRecord.shownBefore] at *
  grind

theorem shownBefore_total (a b : EventRecord Action) : a.shownBefore b || b.shownBefore a := by
  simp only [EventRecord.shownBefore, EventRecord.before]
  grind

/-- Kinds of events come one after another. -/
theorem priority_pairwise (bundleEvents : List (EventRecord Action)) :
    (orderedEvents bundleEvents).Pairwise fun a b ↦ a.eventName.priority ≤ b.eventName.priority := by
  refine (List.pairwise_mergeSort shownBefore_trans shownBefore_total bundleEvents).imp fun {a b} h ↦ ?_
  rw [EventRecord.shownBefore] at h
  split at h
  · exact (of_decide_eq_true h).le
  · omega

/-- Entries are added before any is consumed. -/
theorem putsFirst_turns (c : Chain) (bundleEvents : List (EventRecord Action)) :
    Shelf.PutsFirst (turns c (orderedEvents bundleEvents)) := by
  refine List.pairwise_map.2 ((priority_pairwise bundleEvents).imp fun {a b} h ↦ ?_)
  by_cases hconsumed : a.eventName = .executionConsumed
  · right
    rw [hconsumed] at h
    have hname (name : EventName) (hlt : name.priority < EventName.executionConsumed.priority) : b.eventName ≠ name :=
      fun heq ↦ absurd (heq ▸ h) (Nat.not_le.2 hlt)
    rw [turnOf, entriesOf_eq_nil (hname _ (by decide)) (hname _ (by decide)), List.map_nil]
  · exact .inl (if_neg fun hc ↦ hconsumed hc.1)

/-! ## Where a consumption is merged -/

theorem isCallOf_iff {tx : String} :
    event.isCallOf tx ↔ event.transactionHash = tx ∧ event.eventName ∈ MERGE_TARGETS := by
  rw [EventRecord.isCallOf, decide_eq_true_iff]

theorem lt_priority_of_mem (h : event.eventName ∈ MERGE_TARGETS) :
    EventName.executionConsumed.priority < event.eventName.priority := by
  simp only [MERGE_TARGETS, List.mem_cons, List.not_mem_nil, or_false] at h
  obtain h | h | h := h <;> rw [h] <;> decide

/-- The calls of a transaction come after its consumptions, so a consumption is merged into the first of them. -/
theorem mergeTarget_eq (hevent : (orderedEvents bundleEvents)[i]? = some event)
    (hconsumed : event.eventName = .executionConsumed) :
    mergeTarget (orderedEvents bundleEvents) event i =
      ((orderedEvents bundleEvents).zipIdx.find? fun e ↦ e.1.isCallOf event.transactionHash).map Prod.snd := by
  have hpairwise := priority_pairwise bundleEvents
  generalize orderedEvents bundleEvents = ordered at hevent hpairwise ⊢
  have hbefore : ∀ e ∈ ordered.zipIdx.take (i + 1), ¬e.1.isCallOf event.transactionHash = true := by
    intro e he hcall
    have hlt := lt_priority_of_mem (isCallOf_iff.1 hcall).2
    obtain ⟨k, hk, rfl⟩ := List.mem_take_iff_getElem.1 he
    obtain ⟨hi, rfl⟩ := List.getElem?_eq_some_iff.1 hevent
    rw [List.getElem_zipIdx, ← hconsumed] at hlt
    obtain hki | rfl := Nat.lt_succ_iff_lt_or_eq.1 (Nat.lt_of_lt_of_le hk (Nat.min_le_left _ _))
    · exact absurd (List.pairwise_iff_getElem.1 hpairwise k i _ _ hki) (Nat.not_le.2 hlt)
    · exact lt_irrefl _ hlt
  rw [mergeTarget, if_neg (not_not.2 hconsumed)]
  have hnone : (ordered.zipIdx.take i).reverse.find? (fun e ↦ e.1.isCallOf event.transactionHash) = none := by
    refine List.find?_eq_none.2 fun e he ↦ hbefore e ?_
    exact List.take_subset_take_left _ (Nat.le_succ i) (List.mem_reverse.1 he)
  have hall : ordered.zipIdx.find? (fun e ↦ e.1.isCallOf event.transactionHash) =
      (ordered.zipIdx.drop (i + 1)).find? fun e ↦ e.1.isCallOf event.transactionHash := by
    conv_lhs => rw [← List.take_append_drop (i + 1) ordered.zipIdx]
    rw [List.find?_append, List.find?_eq_none.2 hbefore, Option.none_or]
  dsimp only
  rw [hnone, hall]
  cases (ordered.zipIdx.drop (i + 1)).find? fun e ↦ e.1.isCallOf event.transactionHash <;> rfl

/-! ## What a step shows in the end -/

theorem mem_kept {α : Type} {targets : List (Option ℕ)} {l : List α} {x : α} :
    x ∈ kept targets l ↔ ∃ i : ℕ, l[i]? = some x ∧ targets[i]? = some none := by
  rw [kept, List.mem_map]
  constructor
  · rintro ⟨⟨x, target⟩, hmem, rfl⟩
    obtain ⟨hmem, hnone⟩ := List.mem_filter.1 hmem
    obtain ⟨i, hi⟩ := List.mem_iff_getElem?.1 hmem
    obtain ⟨hx, htarget⟩ := List.getElem?_zip_eq_some.1 hi
    exact ⟨i, hx, htarget.trans (congrArg _ (of_decide_eq_true hnone))⟩
  · rintro ⟨i, hx, htarget⟩
    refine ⟨(x, none), List.mem_filter.2 ⟨?_, rfl⟩, rfl⟩
    exact List.mem_iff_getElem?.2 ⟨i, List.getElem?_zip_eq_some.2 ⟨hx, htarget⟩⟩

theorem length_kept {α : Type} {targets : List (Option ℕ)} {l : List α} (h : l.length = targets.length) :
    (kept targets l).length = targets.countP fun target ↦ target = none := by
  rw [kept, List.length_map, ← List.countP_eq_length_filter]
  conv_rhs => rw [← List.map_snd_zip h.ge, List.countP_map]
  rfl

/-- The tables when the events with these targets were merged. -/
def mergedTables (raw : List StepTableState) (targets : List (Option ℕ)) : List StepTableState :=
  targets.zipIdx.foldl (fun tables merge ↦ merge.1.elim tables (mergeTables tables merge.2)) raw

variable {raw : List StepTableState} {targets : List (Option ℕ)} {merge : Option ℕ}

/-- The tables of one step are put in the place of those of another. -/
def Replaces (raw : List StepTableState) (targets : List (Option ℕ)) (i target : ℕ) : Prop :=
  targets[i]? = some (some target) ∧ ∃ state, raw[i]? = some state ∧ state.hasConsumed

theorem mergedTables_append_singleton : mergedTables raw (targets ++ [merge]) =
    merge.elim (mergedTables raw targets) (mergeTables (mergedTables raw targets) targets.length) := by
  rw [mergedTables, List.zipIdx_append, List.foldl_append, Nat.zero_add]
  rfl

theorem length_mergedTables : (mergedTables raw targets).length = raw.length := by
  induction targets using List.reverseRecOn with
  | nil => rfl
  | append_singleton targets merge ih =>
    rw [mergedTables_append_singleton]
    cases merge with
    | none => exact ih
    | some target =>
      rw [Option.elim_some, mergeTables]
      split
      · split
        · exact List.length_set.trans ih
        · exact ih
      · exact ih

theorem replaces_append_singleton : Replaces raw (targets ++ [merge]) i target ↔ Replaces raw targets i target ∨
    i = targets.length ∧ merge = some target ∧ ∃ state, raw[targets.length]? = some state ∧ state.hasConsumed := by
  rw [Replaces, Replaces, List.getElem?_append]
  split
  next hlt => exact (or_iff_left fun h ↦ hlt.ne h.1).symm
  next hge =>
    have hnone : targets[i]? = none := List.getElem?_eq_none (not_lt.1 hge)
    rw [hnone]
    constructor
    · rintro ⟨htarget, hstate⟩
      obtain ⟨hi, hmerge⟩ := List.getElem?_eq_some_iff.1 htarget
      obtain rfl : i = targets.length := by
        rw [List.length_singleton] at hi
        omega
      exact .inr ⟨rfl, by simpa using hmerge, hstate⟩
    · rintro (⟨hnone, -⟩ | ⟨rfl, rfl, hstate⟩)
      · exact nomatch hnone
      · exact ⟨by simp, hstate⟩

/-- **A step has the tables of the last event that replaced them**, or its own. -/
theorem mergedTables_cases
    (hkept : ∀ i target t : ℕ, targets[i]? = some (some target) → targets[target]? ≠ some (some t))
    (hlt : ∀ i target : ℕ, targets[i]? = some (some target) → target < raw.length) (target : ℕ) :
    (∀ i, ¬Replaces raw targets i target) ∧ (mergedTables raw targets)[target]? = raw[target]? ∨
      ∃ i, Replaces raw targets i target ∧ (∀ j, Replaces raw targets j target → j ≤ i) ∧
        (mergedTables raw targets)[target]? = raw[i]? := by
  induction targets using List.reverseRecOn generalizing target with
  | nil => exact .inl ⟨fun _ h ↦ (nomatch h.1), rfl⟩
  | append_singleton targets merge ih =>
    have hinit {i : ℕ} {x : Option ℕ} (h : targets[i]? = some x) : (targets ++ [merge])[i]? = some x :=
      (List.getElem?_append_left (List.getElem?_eq_some_iff.1 h).1).trans h
    have ih := ih (fun i target t h ht ↦ hkept i target t (hinit h) (hinit ht))
      fun i target h ↦ hlt i target (hinit h)
    have hlast : (targets ++ [merge])[targets.length]? = some merge := List.getElem?_concat_length
    -- an event that changes no tables, or those of another step
    have hsame (hnot : ¬(merge = some target ∧ ∃ state, raw[targets.length]? = some state ∧ state.hasConsumed))
        (htables : (mergedTables raw (targets ++ [merge]))[target]? = (mergedTables raw targets)[target]?) :
        (∀ i, ¬Replaces raw (targets ++ [merge]) i target) ∧
            (mergedTables raw (targets ++ [merge]))[target]? = raw[target]? ∨
          ∃ i, Replaces raw (targets ++ [merge]) i target ∧
            (∀ j, Replaces raw (targets ++ [merge]) j target → j ≤ i) ∧
              (mergedTables raw (targets ++ [merge]))[target]? = raw[i]? := by
      have hiff (i : ℕ) : Replaces raw (targets ++ [merge]) i target ↔ Replaces raw targets i target :=
        replaces_append_singleton.trans (or_iff_left fun h ↦ hnot h.2)
      rw [htables]
      simp only [hiff]
      exact ih target
    cases merge with
    | none => exact hsame (fun h ↦ nomatch h.1) (congrArg (·[target]?) mergedTables_append_singleton)
    | some t =>
      -- the tables of this event were not replaced, as it is merged itself
      have hown : (mergedTables raw targets)[targets.length]? = raw[targets.length]? := by
        obtain ⟨-, hown⟩ | ⟨i, hi, -⟩ := ih targets.length
        · exact hown
        · exact absurd hlast (hkept i _ t (hinit hi.1))
      have hmerged : mergedTables raw (targets ++ [some t]) =
          mergeTables (mergedTables raw targets) targets.length t := mergedTables_append_singleton
      by_cases hreplaces : t = target ∧ ∃ state, raw[targets.length]? = some state ∧ state.hasConsumed
      · obtain ⟨rfl, state, hstate, hconsumed⟩ := hreplaces
        right
        refine ⟨targets.length, replaces_append_singleton.2 (.inr ⟨rfl, rfl, state, hstate, hconsumed⟩), ?_, ?_⟩
        · intro j hj
          obtain ⟨hj, -⟩ := List.getElem?_eq_some_iff.1 hj.1
          rw [List.length_append, List.length_singleton] at hj
          omega
        · have hbound : t < (mergedTables raw targets).length := by
            rw [length_mergedTables]
            exact hlt _ _ hlast
          simp only [hmerged, mergeTables, hown, hstate, hconsumed, if_true]
          exact List.getElem?_set_self hbound
      · refine hsame (fun h ↦ hreplaces ⟨Option.some.inj h.1, h.2⟩) ?_
        rw [hmerged, mergeTables, hown]
        split
        next state hstate =>
          split
          next hconsumed => exact List.getElem?_set_ne fun heq ↦ hreplaces ⟨heq, state, hstate, hconsumed⟩
          next => rfl
        next => rfl

theorem foldl_mergeStep_tables (merges : List (Option ℕ × ℕ)) (steps : Steps) :
    (merges.foldl mergeStep steps).tables =
      merges.foldl (fun tables merge ↦ merge.1.elim tables (mergeTables tables merge.2)) steps.tables := by
  induction merges generalizing steps with
  | nil => rfl
  | cons merge merges ih =>
    rw [List.foldl_cons, ih, List.foldl_cons]
    obtain ⟨_ | target, i⟩ := merge <;> rfl

theorem length_mergeHighlights (highlights : List StepHighlight) :
    (mergeHighlights highlights i target).length = highlights.length := by
  rw [mergeHighlights]
  split
  · exact List.length_modify _ _ _
  · rfl

theorem length_mergeContracts (contracts : List StepContractState) :
    (mergeContracts contracts i target).length = contracts.length := by
  rw [mergeContracts]
  split
  · split
    · exact List.length_set
    · rfl
  · rfl

theorem length_foldl_mergeStep (merges : List (Option ℕ × ℕ)) (steps : Steps) :
    (merges.foldl mergeStep steps).highlights.length = steps.highlights.length ∧
      (merges.foldl mergeStep steps).contracts.length = steps.contracts.length := by
  induction merges generalizing steps with
  | nil => exact ⟨rfl, rfl⟩
  | cons merge merges ih =>
    obtain ⟨hhighlights, hcontracts⟩ := ih (mergeStep steps merge)
    obtain ⟨_ | target, i⟩ := merge
    · exact ⟨hhighlights, hcontracts⟩
    · exact ⟨hhighlights.trans (length_mergeHighlights _), hcontracts.trans (length_mergeContracts _)⟩

theorem length_computeContractStates (events : List (EventRecord Action)) :
    (computeContractStates events).length = events.length := by
  have hlength (stateMap : List (String × Option String)) :
      (contractStatesFrom stateMap events).length = events.length := by
    induction events generalizing stateMap with
    | nil => rfl
    | cons event events ih => exact congrArg (· + 1) (ih _)
  exact hlength []

theorem length_mergeInto (events : List (EventRecord Action)) : (mergeInto events).length = events.length := by
  rw [mergeInto, List.length_map, List.length_zipIdx]

theorem mergeInto_getElem? (events : List (EventRecord Action)) (i : ℕ) :
    (mergeInto events)[i]? = events[i]?.map fun event ↦ mergeTarget events event i := by
  rw [mergeInto, List.getElem?_map, List.getElem?_zipIdx, Nat.zero_add, Option.map_map]
  rfl

/-- An event is merged into a call of its transaction. -/
theorem of_mergeTarget_eq_some (h : mergeTarget events event i = some target) :
    event.eventName = .executionConsumed ∧
      ∃ call, events[target]? = some call ∧ call.isCallOf event.transactionHash := by
  rw [mergeTarget] at h
  split at h
  next => exact nomatch h
  next hconsumed =>
    refine ⟨not_not.1 hconsumed, ?_⟩
    obtain ⟨⟨call, k⟩, hfind, rfl⟩ := Option.map_eq_some_iff.1 h
    have hat {l : List (EventRecord Action × ℕ)} (hsub : l ⊆ events.zipIdx)
        (hfind : l.find? (fun e ↦ e.1.isCallOf event.transactionHash) = some (call, k)) :
        ∃ call, events[k]? = some call ∧ call.isCallOf event.transactionHash := by
      have hmem := List.mem_zipIdx_iff_getElem?.1 (hsub (List.mem_of_find?_eq_some hfind))
      have hcall := List.find?_eq_some_iff_append.1 hfind
      exact ⟨call, hmem, hcall.1⟩
    obtain hnext | ⟨-, hlast⟩ := (Option.orElse_eq_some _ _ _).1 hfind
    · exact hat (List.drop_subset _ _) hnext
    · exact hat (fun e he ↦ List.take_subset _ _ (List.mem_reverse.1 he)) hlast

/-- An event is merged when it is a consumption in a transaction with a call. -/
theorem mergeTarget_eq_none_iff (hevent : (orderedEvents bundleEvents)[i]? = some event) :
    mergeTarget (orderedEvents bundleEvents) event i = none ↔
      ¬(event.eventName = .executionConsumed ∧ ∃ call ∈ bundleEvents, call.isCallOf event.transactionHash) := by
  by_cases hconsumed : event.eventName = .executionConsumed
  · rw [mergeTarget_eq hevent hconsumed, Option.map_eq_none_iff, List.find?_eq_none, and_iff_right hconsumed]
    simp only [not_exists, not_and]
    constructor
    · intro h call hcall
      obtain ⟨k, hk⟩ := List.mem_iff_getElem?.1 ((List.mergeSort_perm _ EventRecord.shownBefore).mem_iff.2 hcall)
      exact h (call, k) (List.mem_zipIdx_iff_getElem?.2 hk)
    · intro h e he
      have hmem := List.mem_of_getElem? (List.mem_zipIdx_iff_getElem?.1 he)
      exact h e.1 ((List.mergeSort_perm _ EventRecord.shownBefore).mem_iff.1 hmem)
  · exact iff_of_true (if_pos hconsumed) fun h ↦ hconsumed h.1

end

/-! ## What is lost -/

section

variable {Action : Type} (formatAction : Action → ActionDetail) (cache : ActionDetailCache)
  (highlightOf : EventRecord Action → StepHighlight) (bundleEvents : List (EventRecord Action))

/-- The event consumes the entry of the chain, which has this number and this hash. -/
def Consumes (i : ℕ) (c : Chain) (item : ℕ × String) : Prop :=
  ∃ state, (computeTableStates formatAction cache (orderedEvents bundleEvents))[i]? = some state ∧
    state.ShowsConsumed c item

/-- The steps show every change of the tables. -/
structure LosesNothing : Prop where
  added_shown : ∀ c n hash, (added c (orderedEvents bundleEvents))[n]? = some hash →
    ∃ state ∈ (buildBundleArchitecture formatAction cache highlightOf bundleEvents).tableStates,
      state.Shows c (n, hash)
  consumes_earliest : ∀ i c item, Consumes formatAction cache bundleEvents i c item →
    (∃ event, (orderedEvents bundleEvents)[i]? = some event ∧ event.eventName = .executionConsumed ∧
      event.chain = c ∧ event.actionHash = some item.2) ∧
    (added c ((orderedEvents bundleEvents).take (i + 1)))[item.1]? = some item.2 ∧
    ∀ n < item.1, (added c ((orderedEvents bundleEvents).take (i + 1)))[n]? = some item.2 →
      ∃ j < i, Consumes formatAction cache bundleEvents j c (n, item.2)
  consumes_one : ∀ i c c' item item', Consumes formatAction cache bundleEvents i c item →
    Consumes formatAction cache bundleEvents i c' item' → c = c' ∧ item = item'
  consumes_once : ∀ i j c item, Consumes formatAction cache bundleEvents i c item →
    Consumes formatAction cache bundleEvents j c item → i = j
  consumed_shown : ∀ i c item, Consumes formatAction cache bundleEvents i c item →
    ∃ state ∈ (buildBundleArchitecture formatAction cache highlightOf bundleEvents).tableStates,
      state.ShowsConsumed c item
  mergedEvents_eq : (buildBundleArchitecture formatAction cache highlightOf bundleEvents).mergedEvents =
    (orderedEvents bundleEvents).filter fun event ↦
      ¬(event.eventName = .executionConsumed ∧ ∃ call ∈ bundleEvents, call.isCallOf event.transactionHash)
  lengths :
    let arch := buildBundleArchitecture formatAction cache highlightOf bundleEvents
    arch.stepHighlights.length = arch.mergedEvents.length ∧ arch.tableStates.length = arch.mergedEvents.length ∧
      arch.contractStates.length = arch.mergedEvents.length

/-- The event is a consumption that finds an entry: fewer consumptions of its hash came before it on its chain
than there are entries. -/
def Finds (events : List (EventRecord Action)) (i : ℕ) : Prop :=
  ∃ event hash, events[i]? = some event ∧ event.eventName = .executionConsumed ∧ event.actionHash = some hash ∧
    ((events.take i).countP fun e ↦ consumedHash event.chain e = some hash) < (added event.chain events).count hash

/-- Two consumptions of a transaction with a call each find an entry. -/
def Overlap : Prop :=
  ∃ i j event event', i < j ∧ (orderedEvents bundleEvents)[i]? = some event ∧
    (orderedEvents bundleEvents)[j]? = some event' ∧ Finds (orderedEvents bundleEvents) i ∧
    Finds (orderedEvents bundleEvents) j ∧ event.transactionHash = event'.transactionHash ∧
    ∃ call ∈ bundleEvents, call.isCallOf event.transactionHash

end

section

variable {Action : Type} {formatAction : Action → ActionDetail} {cache : ActionDetailCache}
  {highlightOf : EventRecord Action → StepHighlight} {bundleEvents events : List (EventRecord Action)}
  {event event' : EventRecord Action} {i j : ℕ} {c c' : Chain} {item item' : ℕ × String}

theorem consumes_iff : Consumes formatAction cache bundleEvents i c item ↔
    Shelf.takenAt (turns c (orderedEvents bundleEvents)) i = some item := by
  constructor
  · rintro ⟨state, hstate, hshows⟩
    exact (showsConsumed_iff hstate).1 hshows
  · intro h
    have hlt := Shelf.takenAt_lt h
    rw [turns, List.length_map, ← length_computeTableStates formatAction cache] at hlt
    have hstate := List.getElem?_eq_getElem hlt
    exact ⟨_, hstate, (showsConsumed_iff hstate).2 h⟩

theorem consumedHash_eq_some {hash : String} : consumedHash c event = some hash ↔
    event.eventName = .executionConsumed ∧ event.chain = c ∧ event.actionHash = some hash := by
  rw [consumedHash]
  split
  next h => simp [h]
  next h => simpa using fun hconsumed hchain ↦ absurd ⟨hconsumed, hchain⟩ h

theorem turns_getElem? {turn : Shelf.Turn String} : (turns c events)[i]? = some turn ↔
    ∃ event, events[i]? = some event ∧ turnOf c event = turn := by
  rw [turns, List.getElem?_map, Option.map_eq_some_iff]

theorem Consumes.exists_event (h : Consumes formatAction cache bundleEvents i c item) :
    ∃ event, (orderedEvents bundleEvents)[i]? = some event ∧ event.eventName = .executionConsumed ∧
      event.chain = c ∧ event.actionHash = some item.2 := by
  obtain ⟨⟨turn, hturn, htakes⟩, -⟩ := Shelf.takenAt_eq_some (consumes_iff.1 h)
  obtain ⟨event, hevent, rfl⟩ := turns_getElem?.1 hturn
  exact ⟨event, hevent, consumedHash_eq_some.1 htakes⟩

theorem Consumes.one (h : Consumes formatAction cache bundleEvents i c item)
    (h' : Consumes formatAction cache bundleEvents i c' item') : c = c' ∧ item = item' := by
  obtain ⟨event, hevent, -, hchain, -⟩ := h.exists_event
  obtain ⟨event', hevent', -, hchain', -⟩ := h'.exists_event
  obtain rfl : event = event' := Option.some.inj (hevent.symm.trans hevent')
  obtain rfl : c = c' := hchain.symm.trans hchain'
  exact ⟨rfl, Option.some.inj ((consumes_iff.1 h).symm.trans (consumes_iff.1 h'))⟩

theorem Consumes.once (h : Consumes formatAction cache bundleEvents i c item)
    (h' : Consumes formatAction cache bundleEvents j c item) : i = j :=
  Shelf.takenAt_inj (consumes_iff.1 h) (consumes_iff.1 h')

/-- **A consumption takes an entry just when it finds one.** -/
theorem finds_iff (formatAction : Action → ActionDetail) (cache : ActionDetailCache) :
    Finds (orderedEvents bundleEvents) i ↔
    ∃ c item, Consumes formatAction cache bundleEvents i c item := by
  have hcount (c : Chain) (hash : String) :
      ((turns c (orderedEvents bundleEvents)).take i).countP (fun turn ↦ turn.takes = some hash) =
        ((orderedEvents bundleEvents).take i).countP fun e ↦ consumedHash c e = some hash := by
    rw [turns, ← List.map_take, List.countP_map]
    rfl
  have hsome (c : Chain) := (putsFirst_turns c bundleEvents).isSome_takenAt_iff (i := i)
  constructor
  · rintro ⟨event, hash, hevent, hconsumed, hhash, hlt⟩
    have htakes : (turnOf event.chain event).takes = some hash := consumedHash_eq_some.2 ⟨hconsumed, rfl, hhash⟩
    have htaken := (hsome event.chain).2
      ⟨_, hash, turns_getElem?.2 ⟨event, hevent, rfl⟩, htakes, by rwa [hcount, flatMap_puts]⟩
    obtain ⟨item, hitem⟩ := Option.isSome_iff_exists.1 htaken
    exact ⟨event.chain, item, consumes_iff.2 hitem⟩
  · rintro ⟨c, item, h⟩
    obtain ⟨turn, hash, hturn, htakes, hlt⟩ := (hsome c).1 (Option.isSome_iff_exists.2 ⟨item, consumes_iff.1 h⟩)
    obtain ⟨event, hevent, rfl⟩ := turns_getElem?.1 hturn
    obtain ⟨hconsumed, rfl, hhash⟩ := consumedHash_eq_some.1 htakes
    exact ⟨event, hash, hevent, hconsumed, hhash, by rwa [hcount, flatMap_puts] at hlt⟩

theorem Consumes.earliest (h : Consumes formatAction cache bundleEvents i c item) :
    (added c ((orderedEvents bundleEvents).take (i + 1)))[item.1]? = some item.2 ∧
      ∀ n < item.1, (added c ((orderedEvents bundleEvents).take (i + 1)))[n]? = some item.2 →
        ∃ j < i, Consumes formatAction cache bundleEvents j c (n, item.2) := by
  obtain ⟨-, hput, -, hearlier⟩ := Shelf.takenAt_eq_some (consumes_iff.1 h)
  have hadded : ((turns c (orderedEvents bundleEvents)).take (i + 1)).flatMap Shelf.Turn.puts =
      added c ((orderedEvents bundleEvents).take (i + 1)) := by
    rw [turns, ← List.map_take, ← turns, flatMap_puts]
  rw [hadded] at hput hearlier
  refine ⟨hput, fun n hn hhash ↦ ?_⟩
  obtain ⟨j, hj, htaken⟩ := hearlier n hn hhash
  exact ⟨j, hj, consumes_iff.2 htaken⟩

/-! ## The kept steps -/

theorem tableStates_eq :
    (buildBundleArchitecture formatAction cache highlightOf bundleEvents).tableStates =
      kept (mergeInto (orderedEvents bundleEvents))
        (mergedTables (computeTableStates formatAction cache (orderedEvents bundleEvents))
          (mergeInto (orderedEvents bundleEvents))) := by
  rw [mergedTables]
  exact congrArg (kept (mergeInto (orderedEvents bundleEvents))) (foldl_mergeStep_tables _ _)

/-- Where an event is merged there is a call, which is kept. -/
theorem of_mergeInto {target : ℕ} (h : (mergeInto events)[i]? = some (some target)) :
    ∃ event call, events[i]? = some event ∧ event.eventName = .executionConsumed ∧ events[target]? = some call ∧
      call.isCallOf event.transactionHash ∧ (mergeInto events)[target]? = some none := by
  rw [mergeInto_getElem?, Option.map_eq_some_iff] at h
  obtain ⟨event, hevent, htarget⟩ := h
  obtain ⟨hconsumed, call, hcall, hof⟩ := of_mergeTarget_eq_some htarget
  refine ⟨event, call, hevent, hconsumed, hcall, hof, ?_⟩
  rw [mergeInto_getElem?, hcall, Option.map_some, mergeTarget, if_pos]
  intro heq
  exact absurd (lt_priority_of_mem (isCallOf_iff.1 hof).2) (heq ▸ lt_irrefl _)

theorem hasConsumed_iff {state : StepTableState} : state.hasConsumed ↔ ∃ c item, state.ShowsConsumed c item := by
  have hrows (c : Chain) : (state.rows c).any (·.stepStatus = .jc) ↔ ∃ item, state.ShowsConsumed c item := by
    rw [List.any_eq_true]
    constructor
    · rintro ⟨row, hrow, hjc⟩
      exact ⟨row.item, List.mem_map_of_mem (List.mem_filter.2 ⟨hrow, hjc⟩)⟩
    · rintro ⟨item, hitem⟩
      obtain ⟨row, hrow, -⟩ := List.mem_map.1 hitem
      obtain ⟨hmem, hjc⟩ := List.mem_filter.1 hrow
      exact ⟨row, hmem, hjc⟩
  rw [StepTableState.hasConsumed, Bool.or_eq_true]
  constructor
  · rintro (h | h)
    · exact ⟨.l1, (hrows .l1).1 h⟩
    · exact ⟨.l2, (hrows .l2).1 h⟩
  · rintro ⟨_ | _, h⟩
    · exact .inl ((hrows .l1).2 h)
    · exact .inr ((hrows .l2).2 h)

/-- The tables of an event replace those of the call just when it is merged and consumes something. -/
theorem replaces_iff {target : ℕ} :
    Replaces (computeTableStates formatAction cache (orderedEvents bundleEvents))
        (mergeInto (orderedEvents bundleEvents)) i target ↔
      (mergeInto (orderedEvents bundleEvents))[i]? = some (some target) ∧
        ∃ c item, Consumes formatAction cache bundleEvents i c item := by
  refine and_congr_right fun _ ↦ ⟨?_, ?_⟩
  · rintro ⟨state, hstate, hconsumed⟩
    obtain ⟨c, item, h⟩ := hasConsumed_iff.1 hconsumed
    exact ⟨c, item, state, hstate, h⟩
  · rintro ⟨c, item, state, hstate, h⟩
    exact ⟨state, hstate, hasConsumed_iff.2 ⟨c, item, h⟩⟩

/-- What is shown in the end is what the step of one event shows: its own, or the last that replaced it. -/
theorem merged_cases (formatAction : Action → ActionDetail) (cache : ActionDetailCache)
    (bundleEvents : List (EventRecord Action)) (target : ℕ) :
    (∀ i, ¬Replaces (computeTableStates formatAction cache (orderedEvents bundleEvents))
          (mergeInto (orderedEvents bundleEvents)) i target) ∧
        (mergedTables (computeTableStates formatAction cache (orderedEvents bundleEvents))
          (mergeInto (orderedEvents bundleEvents)))[target]? =
            (computeTableStates formatAction cache (orderedEvents bundleEvents))[target]? ∨
      ∃ i, Replaces (computeTableStates formatAction cache (orderedEvents bundleEvents))
          (mergeInto (orderedEvents bundleEvents)) i target ∧
        (∀ j, Replaces (computeTableStates formatAction cache (orderedEvents bundleEvents))
          (mergeInto (orderedEvents bundleEvents)) j target → j ≤ i) ∧
        (mergedTables (computeTableStates formatAction cache (orderedEvents bundleEvents))
          (mergeInto (orderedEvents bundleEvents)))[target]? =
            (computeTableStates formatAction cache (orderedEvents bundleEvents))[i]? := by
  refine mergedTables_cases (fun i target t h ht ↦ ?_) (fun i target h ↦ ?_) target
  · obtain ⟨_, _, -, -, -, -, hnone⟩ := of_mergeInto h
    exact nomatch hnone.symm.trans ht
  · obtain ⟨_, _, -, -, hcall, -, -⟩ := of_mergeInto h
    rw [length_computeTableStates]
    exact (List.getElem?_eq_some_iff.1 hcall).1

theorem added_shown {n : ℕ} {hash : String} (h : (added c (orderedEvents bundleEvents))[n]? = some hash) :
    ∃ state ∈ (buildBundleArchitecture formatAction cache highlightOf bundleEvents).tableStates,
      state.Shows c (n, hash) := by
  rw [← flatMap_puts] at h
  obtain ⟨i, turn, hturn, hputs, hmem⟩ := Shelf.exists_put h
  obtain ⟨event, hevent, rfl⟩ := turns_getElem?.1 hturn
  -- the event that adds the entry is kept and shows its own tables
  have hname : event.eventName ≠ .executionConsumed ∧ event.eventName ∉ MERGE_TARGETS := by
    by_contra! hname
    refine hputs (congrArg (List.map Entry.actionHash) (entriesOf_eq_nil ?_ ?_)) <;> intro heq <;>
      exact absurd (hname (by rw [heq]; decide)) (by rw [heq]; decide)
  have hkept : (mergeInto (orderedEvents bundleEvents))[i]? = some none := by
    rw [mergeInto_getElem?, hevent, Option.map_some, mergeTarget, if_pos hname.1]
  have hlt := (List.getElem?_eq_some_iff.1 hevent).1
  rw [← length_computeTableStates formatAction cache] at hlt
  have hstate := List.getElem?_eq_getElem hlt
  rw [tableStates_eq]
  obtain ⟨-, hown⟩ | ⟨j, ⟨hj, -⟩, -⟩ := merged_cases formatAction cache bundleEvents i
  · exact ⟨_, mem_kept.2 ⟨i, hown.trans hstate, hkept⟩, (shows_iff hstate).2 ⟨_, hturn, hmem⟩⟩
  · obtain ⟨_, call, -, -, hcall, hof, -⟩ := of_mergeInto hj
    obtain rfl : event = call := Option.some.inj (hevent.symm.trans hcall)
    exact absurd (isCallOf_iff.1 hof).2 hname.2

/-- **A consumed entry is shown when the consumptions of a transaction do not overlap.** -/
theorem consumed_shown (hnot : ¬Overlap bundleEvents) (h : Consumes formatAction cache bundleEvents i c item) :
    ∃ state ∈ (buildBundleArchitecture formatAction cache highlightOf bundleEvents).tableStates,
      state.ShowsConsumed c item := by
  obtain ⟨event, hevent, hconsumed, -⟩ := h.exists_event
  have hcases := merged_cases formatAction cache bundleEvents
  have hfinds := (finds_iff formatAction cache).2 ⟨c, item, h⟩
  have hitem := h
  obtain ⟨state, hstate, hshows⟩ := h
  rw [tableStates_eq]
  cases htarget : mergeTarget (orderedEvents bundleEvents) event i with
  | none =>
    -- a kept consumption shows its own tables
    have hkept : (mergeInto (orderedEvents bundleEvents))[i]? = some none := by
      rw [mergeInto_getElem?, hevent, Option.map_some, htarget]
    obtain ⟨-, hown⟩ | ⟨j, ⟨hj, -⟩, -⟩ := hcases i
    · exact ⟨state, mem_kept.2 ⟨i, hown.trans hstate, hkept⟩, hshows⟩
    · obtain ⟨_, call, -, -, hcall, hof, -⟩ := of_mergeInto hj
      obtain rfl : event = call := Option.some.inj (hevent.symm.trans hcall)
      have hnot : event.eventName ∉ MERGE_TARGETS := by
        rw [hconsumed]
        decide
      exact absurd (isCallOf_iff.1 hof).2 hnot
  | some target =>
    have hmerged : (mergeInto (orderedEvents bundleEvents))[i]? = some (some target) := by
      rw [mergeInto_getElem?, hevent, Option.map_some, htarget]
    obtain ⟨event₁, call, hevent₁, -, hcall, hof, hkept⟩ := of_mergeInto hmerged
    obtain rfl : event = event₁ := Option.some.inj (hevent.symm.trans hevent₁)
    have hreplaces := replaces_iff.2 ⟨hmerged, c, item, hitem⟩
    obtain ⟨hnone, -⟩ | ⟨j, hj, hlast, htables⟩ := hcases target
    · exact absurd hreplaces (hnone i)
    · obtain rfl | hlt := (hlast i hreplaces).eq_or_lt
      · exact ⟨state, mem_kept.2 ⟨target, htables.trans hstate, hkept⟩, hshows⟩
      · -- a later consumption of the transaction would overlap with this one
        obtain ⟨hmerged', hconsumes'⟩ := replaces_iff.1 hj
        obtain ⟨event', call', hevent', -, hcall', hof', -⟩ := of_mergeInto hmerged'
        obtain rfl : call = call' := Option.some.inj (hcall.symm.trans hcall')
        have htx := (isCallOf_iff.1 hof).1.symm.trans (isCallOf_iff.1 hof').1
        have hmem := (List.mergeSort_perm _ EventRecord.shownBefore).mem_iff.1 (List.mem_of_getElem? hcall)
        have hfinds' := (finds_iff formatAction cache).2 hconsumes'
        exact absurd ⟨i, j, event, event', hlt, hevent, hevent', hfinds, hfinds', htx, call, hmem, hof⟩ hnot

/-- When they overlap, what the first of them consumes is shown nowhere. -/
theorem Overlap.not_shown (h : Overlap bundleEvents) : ∃ i c item, Consumes formatAction cache bundleEvents i c item ∧
    ∀ state ∈ (buildBundleArchitecture formatAction cache highlightOf bundleEvents).tableStates,
      ¬state.ShowsConsumed c item := by
  obtain ⟨i, j, event, event', hlt, hevent, hevent', hfinds, hfinds', htx, call, hmem, hof⟩ := h
  obtain ⟨c, item, hitem⟩ := (finds_iff formatAction cache).1 hfinds
  have hconsumes' := (finds_iff formatAction cache).1 hfinds'
  have hconsumed : event.eventName = .executionConsumed := by
    obtain ⟨event₁, hevent₁, hconsumed, -⟩ := hitem.exists_event
    exact Option.some.inj (hevent.symm.trans hevent₁) ▸ hconsumed
  have hconsumed' : event'.eventName = .executionConsumed := by
    obtain ⟨_, _, hitem'⟩ := hconsumes'
    obtain ⟨event₁, hevent₁, hconsumed, -⟩ := hitem'.exists_event
    exact Option.some.inj (hevent'.symm.trans hevent₁) ▸ hconsumed
  -- both are merged into the first call of the transaction
  obtain ⟨target, htarget⟩ : ∃ target, mergeTarget (orderedEvents bundleEvents) event i = some target :=
    Option.ne_none_iff_exists'.1 fun hnone ↦ (mergeTarget_eq_none_iff hevent).1 hnone ⟨hconsumed, call, hmem, hof⟩
  have hmerged : (mergeInto (orderedEvents bundleEvents))[i]? = some (some target) := by
    rw [mergeInto_getElem?, hevent, Option.map_some, htarget]
  have hmerged' : (mergeInto (orderedEvents bundleEvents))[j]? = some (some target) := by
    rw [mergeInto_getElem?, hevent', Option.map_some, mergeTarget_eq hevent' hconsumed', ← htx,
      ← mergeTarget_eq hevent hconsumed, htarget]
  refine ⟨i, c, item, hitem, fun state hstate hshows ↦ ?_⟩
  rw [tableStates_eq] at hstate
  obtain ⟨k, hk, hkept⟩ := mem_kept.1 hstate
  obtain ⟨-, hown⟩ | ⟨m, ⟨hm, -⟩, hlast, htables⟩ := merged_cases formatAction cache bundleEvents k
  · obtain rfl := hitem.once ⟨state, hown.symm.trans hk, hshows⟩
    exact nomatch hmerged.symm.trans hkept
  · obtain rfl := hitem.once ⟨state, htables.symm.trans hk, hshows⟩
    obtain rfl : target = k := Option.some.inj (Option.some.inj (hmerged.symm.trans hm))
    exact absurd (hlast j (replaces_iff.2 ⟨hmerged', hconsumes'⟩)) (not_le.2 hlt)

theorem mergedEvents_eq :
    (buildBundleArchitecture formatAction cache highlightOf bundleEvents).mergedEvents =
      (orderedEvents bundleEvents).filter fun event ↦
        ¬(event.eventName = .executionConsumed ∧ ∃ call ∈ bundleEvents, call.isCallOf event.transactionHash) := by
  change kept (mergeInto (orderedEvents bundleEvents)) (orderedEvents bundleEvents) = _
  have hnone (i : ℕ) (event : EventRecord Action) (hevent : (orderedEvents bundleEvents)[i]? = some event) :=
    mergeTarget_eq_none_iff hevent
  generalize orderedEvents bundleEvents = ordered at hnone ⊢
  have hzip : ordered.zip (mergeInto ordered) = ordered.zipIdx.map fun e ↦ (e.1, mergeTarget ordered e.1 e.2) := by
    have hself : ordered.zip (mergeInto ordered) = (ordered.zipIdx.map Prod.fst).zip (mergeInto ordered) := by
      rw [List.zipIdx_map_fst]
    exact hself.trans List.zip_map'
  calc
    kept (mergeInto ordered) ordered =
        (ordered.zipIdx.filter fun e ↦ mergeTarget ordered e.1 e.2 = none).map Prod.fst := by
      rw [kept, hzip, List.filter_map, List.map_map]
      rfl
    _ = (ordered.zipIdx.filter ((fun event ↦ ¬(event.eventName = .executionConsumed ∧
          ∃ call ∈ bundleEvents, call.isCallOf event.transactionHash)) ∘ Prod.fst)).map Prod.fst := by
      refine congrArg _ (List.filter_congr fun e he ↦ decide_eq_decide.2 ?_)
      exact hnone e.2 e.1 (List.mem_zipIdx_iff_getElem?.1 he)
    _ = _ := by rw [← List.filter_map, List.zipIdx_map_fst]

theorem lengths_eq :
    let arch := buildBundleArchitecture formatAction cache highlightOf bundleEvents
    arch.stepHighlights.length = arch.mergedEvents.length ∧ arch.tableStates.length = arch.mergedEvents.length ∧
      arch.contractStates.length = arch.mergedEvents.length := by
  have hlength {α : Type} {l : List α} (h : l.length = (orderedEvents bundleEvents).length) :
      (kept (mergeInto (orderedEvents bundleEvents)) l).length =
        (mergeInto (orderedEvents bundleEvents)).countP fun target ↦ target = none :=
    length_kept (h.trans (length_mergeInto _).symm)
  have hevents := hlength (l := orderedEvents bundleEvents) rfl
  refine ⟨(hlength ?_).trans hevents.symm, (congrArg _ tableStates_eq).trans ((hlength ?_).trans hevents.symm),
    (hlength ?_).trans hevents.symm⟩
  · exact (length_foldl_mergeStep _ _).1.trans (List.length_map _)
  · exact length_mergedTables.trans (length_computeTableStates _ _ _)
  · exact (length_foldl_mergeStep _ _).2.trans (length_computeContractStates _)

/-- **The steps show every change of the tables just when no two consumptions of one transaction overlap.** -/
theorem losesNothing_iff (formatAction : Action → ActionDetail) (cache : ActionDetailCache)
    (highlightOf : EventRecord Action → StepHighlight) (bundleEvents : List (EventRecord Action)) :
    LosesNothing formatAction cache highlightOf bundleEvents ↔ ¬Overlap bundleEvents := by
  constructor
  · intro h hoverlap
    obtain ⟨i, c, item, hconsumes, hnot⟩ := hoverlap.not_shown
    obtain ⟨state, hstate, hshows⟩ := h.consumed_shown i c item hconsumes
    exact hnot state hstate hshows
  · intro hnot
    refine ⟨fun _ _ _ ↦ added_shown, fun _ _ _ h ↦ ⟨h.exists_event, h.earliest⟩, fun _ _ _ _ _ h h' ↦ h.one h',
      fun _ _ _ _ h h' ↦ h.once h', fun _ _ _ ↦ consumed_shown hnot, mergedEvents_eq, ?_⟩
    exact lengths_eq

/-- A call that consumes two entries: only the second of them is shown as consumed. -/
theorem losesNothing_two_consumed :
    let first := String.ofList ('0' :: 'x' :: List.replicate 64 '1')
    let second := String.ofList ('0' :: 'x' :: List.replicate 64 '2')
    let loaded : EventRecord Unit :=
      { id := "l", chain := .l2, eventName := .executionTableLoaded, blockNumber := 7, logIndex := 0,
        transactionHash := "0x0a", entries := some [⟨first, some (), []⟩, ⟨second, some (), []⟩] }
    let consumed (id hash : String) (logIndex : ℕ) : EventRecord Unit :=
      { id, chain := .l2, eventName := .executionConsumed, blockNumber := 7, logIndex, transactionHash := "0x0b",
        actionHash := some hash }
    let call : EventRecord Unit :=
      { id := "c", chain := .l2, eventName := .incomingCrossChainCallExecuted, blockNumber := 7, logIndex := 3,
        transactionHash := "0x0b", actionHash := some first }
    ¬LosesNothing (fun _ ↦ []) [] (fun _ ↦ ⟨[], [], ""⟩)
      [loaded, consumed "a" first 1, consumed "b" second 2, call] := by
  intro first second loaded consumed call h
  have hne : first ≠ second := by
    intro heq
    have hchars := congrArg String.toList heq
    rw [String.toList_ofList, String.toList_ofList] at hchars
    exact absurd hchars (by decide)
  have hordered : orderedEvents [loaded, consumed "a" first 1, consumed "b" second 2, call] =
      [loaded, consumed "a" first 1, consumed "b" second 2, call] :=
    List.mergeSort_of_pairwise (by simp [loaded, consumed, call, EventRecord.shownBefore, EventRecord.before,
      EventName.priority])
  have hoverlap : Overlap [loaded, consumed "a" first 1, consumed "b" second 2, call] := by
    refine ⟨1, 2, consumed "a" first 1, consumed "b" second 2, by decide, ?_, ?_, ?_, ?_, rfl, call, by simp, ?_⟩
    · rw [hordered]
      rfl
    · rw [hordered]
      rfl
    · rw [hordered]
      refine ⟨consumed "a" first 1, first, rfl, rfl, rfl, ?_⟩
      simp [loaded, consumed, call, consumedHash, added, entriesOf]
    · rw [hordered]
      refine ⟨consumed "b" second 2, second, rfl, rfl, rfl, ?_⟩
      simp [loaded, consumed, call, consumedHash, added, entriesOf, hne]
    · rw [isCallOf_iff]
      exact ⟨rfl, by decide⟩
  obtain ⟨i, c, item, hconsumes, hnot⟩ := hoverlap.not_shown
  obtain ⟨state, hstate, hshows⟩ := h.consumed_shown i c item hconsumes
  exact hnot state hstate hshows

end

end Bundles
