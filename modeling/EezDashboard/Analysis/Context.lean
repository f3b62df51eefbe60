import EezDashboard.Flow.Timeline
import EezDashboard.Js.Hex

/-!
# The context of an inspected execution

The transactions of a debug context, without repetitions and in order; the entries they plan; and the events
that name one hash, as `buildExecutionPairs` collects them.
-/

set_option autoImplicit false

namespace Analysis

open Js
open Flow (Chain PlanKind)

/-! ## Transactions -/

inductive EventName
  | executionTableLoaded
  | crossChainCallExecuted
  | incomingCrossChainCallExecuted
  | executionConsumed
  | entryExecuted
  | l2TxSkipped
  | other (name : String)
  deriving DecidableEq, Repr

/-- An event; the entries are those among its arguments. -/
structure DebugEvent where
  name : EventName
  args : Record
  entries : List Record
  staticEntries : List Record
  protocol : Bool

structure DebugPayload where
  method : String
  entries : List Record
  staticEntries : List Record

structure DebugTransaction where
  chain : Chain
  hash : String
  blockNumber : Option ℕ
  transactionIndex : Option ℕ
  events : List DebugEvent
  payload : Option DebugPayload

def txKey (tx : DebugTransaction) : Chain × String := (tx.chain, lowerCase tx.hash)

structure DebugContext where
  blocks : List (List DebugTransaction)
  selected : Option DebugTransaction

/-- A hash of 32 bytes that is not zero, in lower case. -/
def hashValue (value : Option Value) : Option String :=
  match value with
  | some (.text s) => (hexDigits? s).bind fun ds ↦
      if ds.length = 64 ∧ ds.any (· ≠ '0') then some (lowerCase s) else none
  | _ => none

/-- `transactions.set(txKey(tx), tx)` -/
def setTransaction : List DebugTransaction → DebugTransaction → List DebugTransaction
  | [], tx => [tx]
  | t :: txs, tx => if txKey t = txKey tx then tx :: txs else t :: setTransaction txs tx

def DebugTransaction.before (a b : DebugTransaction) : Bool :=
  if a.chain ≠ b.chain then a.chain = .l1 else
    let block (tx : DebugTransaction) := tx.blockNumber.getD 0
    if block a ≠ block b then block a < block b else a.transactionIndex.getD 0 ≤ b.transactionIndex.getD 0

def contextTransactions (context : DebugContext) : List DebugTransaction :=
  let transactions := context.blocks.flatten
  let transactions := match context.selected with
    | some selected =>
      if transactions.any fun tx ↦ txKey tx = txKey selected then transactions else transactions ++ [selected]
    | none => transactions
  (transactions.foldl setTransaction []).mergeSort DebugTransaction.before

def transactionHashes (tx : DebugTransaction) : List String :=
  let entryHash (entry : Record) := hashValue (entry "proxyEntryHash")
  let ofEvent (event : DebugEvent) :=
    (hashValue (event.args "crossChainCallHash")).toList ++
      if event.name = .executionTableLoaded then (event.entries ++ event.staticEntries).filterMap entryHash else []
  let ofPayload (payload : DebugPayload) := (payload.entries ++ payload.staticEntries).filterMap entryHash
  tx.events.flatMap ofEvent ++ tx.payload.elim [] ofPayload

/-- Unrelated L1 transactions do not matter for a selected batch. -/
def executionTransactions (context : DebugContext) : List DebugTransaction :=
  let transactions := contextTransactions context
  match context.selected with
  | none => transactions
  | some selected =>
    if selected.chain ≠ .l1 ∨ selected.payload.map DebugPayload.method ≠ some "postAndVerifyBatch" then transactions else
      let hashes := transactionHashes selected
      transactions.filter fun tx ↦ tx.chain = .l2 || txKey tx = txKey selected ||
        (transactionHashes tx).any (· ∈ hashes)

/-! ## Plans -/

structure EntryPlan where
  tx : DebugTransaction
  entry : Record
  index : ℕ
  kind : PlanKind
  hash : Option String

/-- `${txKey(tx)}:${kind}:${index}` -/
def EntryPlan.id (plan : EntryPlan) : (Chain × String) × PlanKind × ℕ := (txKey plan.tx, plan.kind, plan.index)

/-- The events of the managers. -/
def protocolEvents (tx : DebugTransaction) : List DebugEvent := tx.events.filter DebugEvent.protocol

/-- The entries of the payload if it has any, otherwise those of the loaded table. -/
def plannedEntries (tx : DebugTransaction) (ofPayload : DebugPayload → List Record) (ofTable : DebugEvent → List Record) :
    List Record :=
  let table := (protocolEvents tx).find? fun event ↦ event.name = .executionTableLoaded
  let planned := tx.payload.elim [] ofPayload
  if planned ≠ [] then planned else table.elim [] ofTable

/-- `entries`, or `statics` -/
def plannedOf (tx : DebugTransaction) : PlanKind → List Record
  | .execution => plannedEntries tx DebugPayload.entries DebugEvent.entries
  | .static => plannedEntries tx DebugPayload.staticEntries DebugEvent.staticEntries

def executionPlans (tx : DebugTransaction) : List EntryPlan :=
  let planOf (kind : PlanKind) (entry : Record × ℕ) : EntryPlan :=
    ⟨tx, entry.1, entry.2, kind, hashValue (entry.1 "proxyEntryHash")⟩
  (plannedOf tx .execution).zipIdx.map (planOf .execution) ++ (plannedOf tx .static).zipIdx.map (planOf .static)

/-! ## Occurrences -/

inductive Role
  | outgoing
  | incoming
  | consumed
  deriving DecidableEq, Repr

/-- An event in its place among those of its transaction. -/
structure RecordedEvent where
  tx : DebugTransaction
  event : DebugEvent
  eventIndex : ℕ

/-- `${txKey(tx)}:${eventIndex}` -/
def RecordedEvent.id (e : RecordedEvent) : (Chain × String) × ℕ := (txKey e.tx, e.eventIndex)

structure ExecutionOccurrence extends RecordedEvent where
  entryIndex : String
  role : Role

structure ExecutionPair where
  hash : String
  plans : List EntryPlan
  occurrences : List ExecutionOccurrence

/-- `idx` -/
def entryIndex (event : DebugEvent) : String :=
  textOr "" (event.args "entryQueueIndex" <|> event.args "entryIndex")

def recordedEvents (tx : DebugTransaction) : List RecordedEvent :=
  (protocolEvents tx).zipIdx.map fun (event, i) ↦ ⟨tx, event, i⟩

def roleOf (event : DebugEvent) : Option Role :=
  match event.name with
  | .crossChainCallExecuted => some .outgoing
  | .incomingCrossChainCallExecuted => some .incoming
  | .executionConsumed => some .consumed
  | _ => none

/-- The hash of an event and its occurrence, if it has both. -/
def occurrenceOf (e : RecordedEvent) : Option (String × ExecutionOccurrence) := do
  let hash ← hashValue (e.event.args "crossChainCallHash")
  let role ← roleOf e.event
  pure (hash, { e with entryIndex := entryIndex e.event, role })

/-- `group(hash)`, changed by `change` -/
def updateGroup (hash : String) (change : ExecutionPair → ExecutionPair) : List ExecutionPair → List ExecutionPair
  | [] => [change ⟨hash, [], []⟩]
  | pair :: groups => if pair.hash = hash then change pair :: groups else pair :: updateGroup hash change groups

def addPlan (groups : List ExecutionPair) (plan : EntryPlan) : List ExecutionPair :=
  plan.hash.elim groups fun hash ↦
    updateGroup hash (fun pair ↦ { pair with plans := pair.plans ++ [plan] }) groups

def addOccurrence (groups : List ExecutionPair) (e : RecordedEvent) : List ExecutionPair :=
  (occurrenceOf e).elim groups fun (hash, occurrence) ↦
    updateGroup hash (fun pair ↦ { pair with occurrences := pair.occurrences ++ [occurrence] }) groups

def buildExecutionPairs (context : DebugContext) : List ExecutionPair :=
  (executionTransactions context).foldl
    (fun groups tx ↦ (recordedEvents tx).foldl addOccurrence ((executionPlans tx).foldl addPlan groups)) []

/-! ## What is in a context -/

variable {context : DebugContext} {tx tx' : DebugTransaction} {plan : EntryPlan} {e e' : RecordedEvent}

theorem mem_setTransaction {txs : List DebugTransaction} (h : tx' ∈ setTransaction txs tx) : tx' ∈ txs ∨ tx' = tx := by
  induction txs with
  | nil => exact .inr (List.mem_singleton.1 h)
  | cons t txs ih =>
    rw [setTransaction] at h
    split at h
    · exact (List.mem_cons.1 h).symm.imp_left (List.mem_cons_of_mem _)
    · obtain rfl | h := List.mem_cons.1 h
      · exact .inl List.mem_cons_self
      · exact (ih h).imp_left (List.mem_cons_of_mem _)

theorem nodup_setTransaction {txs : List DebugTransaction} (h : (txs.map txKey).Nodup) (tx : DebugTransaction) :
    ((setTransaction txs tx).map txKey).Nodup := by
  induction txs with
  | nil => exact List.nodup_singleton _
  | cons t txs ih =>
    obtain ⟨ht, htxs⟩ := List.nodup_cons.1 h
    rw [setTransaction]
    split
    next heq => exact List.nodup_cons.2 ⟨heq ▸ ht, htxs⟩
    next hne =>
      refine List.nodup_cons.2 ⟨fun hmem ↦ ?_, ih htxs⟩
      obtain ⟨t', ht', hkey⟩ := List.mem_map.1 hmem
      obtain hmem' | rfl := mem_setTransaction ht'
      · exact ht (List.mem_map.2 ⟨t', hmem', hkey⟩)
      · exact hne hkey.symm

theorem nodup_txKey : ((executionTransactions context).map txKey).Nodup := by
  have hfold (txs set : List DebugTransaction) (hset : (set.map txKey).Nodup) :
      ((txs.foldl setTransaction set).map txKey).Nodup := by
    induction txs generalizing set with
    | nil => exact hset
    | cons tx txs ih => exact ih _ (nodup_setTransaction hset tx)
  have hnodup : ((contextTransactions context).map txKey).Nodup :=
    ((List.mergeSort_perm _ _).map txKey).nodup_iff.2 (hfold _ [] List.nodup_nil)
  have hsub : (executionTransactions context).Sublist (contextTransactions context) := by
    rw [executionTransactions]
    split
    · exact List.Sublist.refl _
    · split
      · exact List.Sublist.refl _
      · exact List.filter_sublist
  exact hnodup.sublist (hsub.map txKey)

theorem nodup_executionTransactions : (executionTransactions context).Nodup := nodup_txKey.of_map

/-- **A transaction is known by its key.** -/
theorem eq_of_txKey_eq (h : tx ∈ executionTransactions context) (h' : tx' ∈ executionTransactions context)
    (hkey : txKey tx = txKey tx') : tx = tx' := List.inj_on_of_nodup_map nodup_txKey h h' hkey

theorem mem_executionPlans (h : plan ∈ executionPlans tx) :
    plan.tx = tx ∧ (plannedOf tx plan.kind)[plan.index]? = some plan.entry ∧
      plan.hash = hashValue (plan.entry "proxyEntryHash") := by
  obtain h | h := List.mem_append.1 h <;> obtain ⟨⟨entry, i⟩, hmem, rfl⟩ := List.mem_map.1 h <;>
    exact ⟨rfl, List.mem_zipIdx_iff_getElem?.1 hmem, rfl⟩

theorem mem_recordedEvents : e ∈ recordedEvents tx ↔ e.tx = tx ∧ (protocolEvents tx)[e.eventIndex]? = some e.event := by
  rw [recordedEvents, List.mem_map]
  constructor
  · rintro ⟨⟨event, i⟩, hmem, rfl⟩
    exact ⟨rfl, List.mem_zipIdx_iff_getElem?.1 hmem⟩
  · rintro ⟨rfl, hevent⟩
    exact ⟨(e.event, e.eventIndex), List.mem_zipIdx_iff_getElem?.2 hevent, rfl⟩

/-- An event is known by its transaction and its place. -/
theorem eq_of_id_eq (h : e ∈ recordedEvents e.tx) (h' : e' ∈ recordedEvents e'.tx)
    (htx : e.tx ∈ executionTransactions context) (htx' : e'.tx ∈ executionTransactions context)
    (hid : e.id = e'.id) : e = e' := by
  obtain ⟨hkey, hindex⟩ := Prod.mk.inj hid
  have heq := eq_of_txKey_eq htx htx' hkey
  have hevent := (mem_recordedEvents.1 h).2
  have hevent' := (mem_recordedEvents.1 h').2
  rw [heq, hindex, hevent'] at hevent
  obtain ⟨tx, event, i⟩ := e
  obtain ⟨tx', event', i'⟩ := e'
  obtain rfl := Option.some.inj hevent
  cases heq
  cases hindex
  rfl

theorem pairwise_recordedEvents (tx : DebugTransaction) :
    (recordedEvents tx).Pairwise fun a b ↦ a.eventIndex < b.eventIndex := by
  have heq : (recordedEvents tx).map RecordedEvent.eventIndex = (protocolEvents tx).zipIdx.map Prod.snd := by
    rw [recordedEvents, List.map_map]
    rfl
  have hsorted : ((recordedEvents tx).map RecordedEvent.eventIndex).Pairwise fun i j ↦ i < j := by
    rw [heq, List.zipIdx_map_snd]
    exact List.pairwise_lt_range'
  exact List.pairwise_map.1 hsorted

theorem nodup_recordedEvents (tx : DebugTransaction) : (recordedEvents tx).Nodup :=
  (pairwise_recordedEvents tx).imp fun hlt heq ↦ (heq ▸ hlt).false

/-! ## What is in a pair -/

/-- The occurrence that an event is for a hash. -/
def occurrenceWith (hash : String) (e : RecordedEvent) : Option ExecutionOccurrence :=
  ((occurrenceOf e).filter fun found ↦ found.1 = hash).map Prod.snd

/-- `pairs.find(pair => pair.hash === hash)?.occurrences ?? []` -/
def occurrencesOf (pairs : List ExecutionPair) (hash : String) : List ExecutionOccurrence :=
  (pairs.find? fun pair ↦ pair.hash = hash).elim [] ExecutionPair.occurrences

variable {groups : List ExecutionPair} {hash hash' : String} {change : ExecutionPair → ExecutionPair}
  {o : ExecutionOccurrence}

theorem occurrencesOf_updateGroup_of_ne (hchange : ∀ pair, (change pair).hash = pair.hash) (hne : hash' ≠ hash) :
    occurrencesOf (updateGroup hash' change groups) hash = occurrencesOf groups hash := by
  induction groups with
  | nil => simp [updateGroup, occurrencesOf, hchange, hne]
  | cons pair groups ih =>
    rw [updateGroup]
    split
    next heq =>
      have hpair : ¬pair.hash = hash := fun h ↦ hne (heq.symm.trans h)
      simp [occurrencesOf, hchange, hpair]
    next =>
      by_cases hpair : pair.hash = hash
      · simp [occurrencesOf, hpair]
      · simpa [occurrencesOf, hpair] using ih

theorem occurrencesOf_updateGroup (added : List ExecutionOccurrence)
    (hchange : ∀ pair, (change pair).hash = pair.hash ∧ (change pair).occurrences = pair.occurrences ++ added) :
    occurrencesOf (updateGroup hash change groups) hash = occurrencesOf groups hash ++ added := by
  induction groups with
  | nil => simp [updateGroup, occurrencesOf, hchange]
  | cons pair groups ih =>
    rw [updateGroup]
    split
    next heq => simp [occurrencesOf, hchange, heq]
    next hne => simpa [occurrencesOf, hne] using ih

@[simp] theorem occurrencesOf_addPlan (groups : List ExecutionPair) (plan : EntryPlan) :
    occurrencesOf (addPlan groups plan) hash = occurrencesOf groups hash := by
  rw [addPlan]
  cases plan.hash with
  | none => rfl
  | some hash' =>
    by_cases h : hash' = hash
    · subst h
      refine (occurrencesOf_updateGroup [] fun pair ↦ ?_).trans (List.append_nil _)
      exact ⟨rfl, (List.append_nil _).symm⟩
    · exact occurrencesOf_updateGroup_of_ne (fun _ ↦ rfl) h

theorem occurrencesOf_addOccurrence (groups : List ExecutionPair) (e : RecordedEvent) :
    occurrencesOf (addOccurrence groups e) hash = occurrencesOf groups hash ++ (occurrenceWith hash e).toList := by
  rw [addOccurrence, occurrenceWith]
  cases occurrenceOf e with
  | none => exact (List.append_nil _).symm
  | some found =>
    obtain ⟨hash', occurrence⟩ := found
    by_cases h : hash' = hash
    · subst h
      refine (occurrencesOf_updateGroup [occurrence] fun pair ↦ ?_).trans ?_
      · exact ⟨rfl, rfl⟩
      · simp [Option.filter]
    · refine (occurrencesOf_updateGroup_of_ne (fun _ ↦ ?_) h).trans ?_
      · rfl
      · simp [h]

/-- **A pair has exactly the events of the context that name its hash, in their order.** -/
theorem occurrencesOf_buildExecutionPairs :
    occurrencesOf (buildExecutionPairs context) hash =
      ((executionTransactions context).flatMap recordedEvents).filterMap (occurrenceWith hash) := by
  have hplans (plans : List EntryPlan) (groups : List ExecutionPair) :
      occurrencesOf (plans.foldl addPlan groups) hash = occurrencesOf groups hash := by
    induction plans generalizing groups with
    | nil => rfl
    | cons plan plans ih => exact (ih _).trans (occurrencesOf_addPlan groups plan)
  have hevents (events : List RecordedEvent) (groups : List ExecutionPair) :
      occurrencesOf (events.foldl addOccurrence groups) hash =
        occurrencesOf groups hash ++ events.filterMap (occurrenceWith hash) := by
    induction events generalizing groups with
    | nil => exact (List.append_nil _).symm
    | cons e events ih =>
      rw [List.foldl_cons, ih, occurrencesOf_addOccurrence, List.append_assoc]
      cases h : occurrenceWith hash e with
      | none => rw [List.filterMap_cons_none h]; rfl
      | some o => rw [List.filterMap_cons_some h]; rfl
  have hall (txs : List DebugTransaction) (groups : List ExecutionPair) :
      occurrencesOf (txs.foldl (fun groups tx ↦ (recordedEvents tx).foldl addOccurrence
        ((executionPlans tx).foldl addPlan groups)) groups) hash =
        occurrencesOf groups hash ++ (txs.flatMap recordedEvents).filterMap (occurrenceWith hash) := by
    induction txs generalizing groups with
    | nil => exact (List.append_nil _).symm
    | cons tx txs ih =>
      rw [List.foldl_cons, ih, hevents, hplans, List.flatMap_cons, List.filterMap_append, List.append_assoc]
  exact hall _ []

theorem occurrenceWith_eq_some (h : occurrenceWith hash e = some o) :
    o.toRecordedEvent = e ∧ o.entryIndex = entryIndex e.event ∧ roleOf e.event = some o.role ∧
      hashValue (e.event.args "crossChainCallHash") = some hash := by
  rw [occurrenceWith, Option.map_eq_some_iff] at h
  obtain ⟨found, hfound, rfl⟩ := h
  obtain ⟨hof, hhash⟩ := Option.filter_eq_some_iff.1 hfound
  simp only [occurrenceOf, Option.pure_def, Option.bind_eq_bind, Option.bind_eq_some_iff, Option.some.injEq] at hof
  obtain ⟨_, hvalue, role, hrole, rfl⟩ := hof
  exact ⟨rfl, rfl, hrole, hvalue.trans (congrArg some (of_decide_eq_true hhash))⟩

/-- The occurrences of a hash in a context. -/
structure Occurs (context : DebugContext) (hash : String) (o : ExecutionOccurrence) : Prop where
  tx : o.tx ∈ executionTransactions context
  recorded : o.toRecordedEvent ∈ recordedEvents o.tx
  index : o.entryIndex = entryIndex o.event
  role : roleOf o.event = some o.role
  names : hashValue (o.event.args "crossChainCallHash") = some hash

theorem mem_occurrencesOf : o ∈ occurrencesOf (buildExecutionPairs context) hash ↔ Occurs context hash o := by
  rw [occurrencesOf_buildExecutionPairs, List.mem_filterMap]
  constructor
  · rintro ⟨e, hmem, hof⟩
    obtain ⟨rfl, hindex, hrole, hnames⟩ := occurrenceWith_eq_some hof
    obtain ⟨tx, htx, he⟩ := List.mem_flatMap.1 hmem
    obtain rfl := (mem_recordedEvents.1 he).1
    exact ⟨htx, he, hindex, hrole, hnames⟩
  · intro h
    refine ⟨o.toRecordedEvent, List.mem_flatMap.2 ⟨o.tx, h.tx, h.recorded⟩, ?_⟩
    simp [occurrenceWith, occurrenceOf, h.names, h.role, ← h.index]

theorem nodup_occurrencesOf : (occurrencesOf (buildExecutionPairs context) hash).Nodup := by
  rw [occurrencesOf_buildExecutionPairs]
  refine List.Nodup.filterMap ?_ ?_
  · intro e e' o ho ho'
    exact (occurrenceWith_eq_some ho).1.symm.trans (occurrenceWith_eq_some ho').1
  · refine List.nodup_flatMap.2 ⟨fun tx _ ↦ nodup_recordedEvents tx, ?_⟩
    refine nodup_executionTransactions.imp fun hne e he he' ↦ hne ?_
    exact (mem_recordedEvents.1 he).1.symm.trans (mem_recordedEvents.1 he').1

end Analysis
