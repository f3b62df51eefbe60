import EezDashboard.Bundles.Events
import EezDashboard.Finite.Shelf

/-!
# Execution tables, step by step

What a view of a bundle shows of both execution tables after each of its events: the entries that are there,
which of them are new and which the event consumed.  Consumed entries are gone in the next step.

Each table is a shelf from which a consumption takes the earliest entry with its hash (`rows_eq`, `consumed_eq`).
-/

set_option autoImplicit false

namespace Bundles

open Js

inductive StepStatus
  | ja
  | ok
  | jc
  | consumed
  deriving DecidableEq, Repr

abbrev ActionDetail := List (String × String)

/-- What was last learned of an action, by its hash. -/
abbrev ActionDetailCache := List (String × ActionDetail)

structure TableEntry where
  id : String
  actionDetail : ActionDetail
  fullActionHash : String

structure ConsumeInfo where
  actionHash : Option String
  actionDetail : ActionDetail

structure TableChanges where
  l1Adds : List TableEntry := []
  l2Adds : List TableEntry := []
  l1Consumes : List ConsumeInfo := []
  l2Consumes : List ConsumeInfo := []

/-- An entry of a table in a step.  Copies of one entry have its number, which is its place in the order in
which the entries of a chain were added. -/
structure TableRow extends TableEntry where
  stepStatus : StepStatus
  serial : ℕ

structure StepTableState where
  l1 : List TableRow
  l2 : List TableRow

/-- The entries of a chain in between two events, and how many were added. -/
structure Table where
  rows : List TableRow
  added : ℕ

section

variable {Action : Type} (formatAction : Action → ActionDetail)

/-! ## Changes of an event -/

def entryToTableEntry (cache : ActionDetailCache) (entry : Entry Action) (eventId : String) : TableEntry where
  id := s!"{eventId}-{entry.actionHash}"
  actionDetail := (cache.lookup (lowerCase entry.actionHash)).getD [("actionHash", entry.actionHash)]
  fullActionHash := entry.actionHash

/-- The changes of the tables, and what the cache is then. -/
def processEventForTables (cache : ActionDetailCache) (event : EventRecord Action) : TableChanges × ActionDetailCache :=
  match event.eventName with
  | .batchPosted =>
    let entries := (event.entries.getD []).filter fun entry ↦ entry.actionHash ≠ ZERO_HASH
    ({ l1Adds := entries.map fun entry ↦ entryToTableEntry cache entry event.id }, cache)
  | .executionTableLoaded =>
    ({ l2Adds := (event.entries.getD []).map fun entry ↦ entryToTableEntry cache entry event.id }, cache)
  | .executionConsumed =>
    let actionDetail := (event.action.map formatAction).getD []
    let cache := if actionDetail = [] then cache else
      event.actionHash.elim cache fun actionHash ↦ (lowerCase actionHash, actionDetail) :: cache
    let info : ConsumeInfo := ⟨event.actionHash, actionDetail⟩
    (if event.chain = .l1 then { l1Consumes := [info] } else { l2Consumes := [info] }, cache)
  | _ => ({}, cache)

/-! ## Steps -/

/-- What was just added is no longer new. -/
def TableRow.settled (row : TableRow) : TableRow := if row.stepStatus = .ja then { row with stepStatus := .ok } else row

/-- What was just consumed is done. -/
def TableRow.finished (row : TableRow) : TableRow :=
  if row.stepStatus = .jc then { row with stepStatus := .consumed } else row

/-- The first entry that is not consumed and has the hash. -/
def consume (rows : List TableRow) (info : ConsumeInfo) : List TableRow :=
  match rows with
  | [] => []
  | row :: rows =>
    if some row.fullActionHash = info.actionHash ∧ row.stepStatus ≠ .consumed then
      { row with
        stepStatus := .jc
        actionDetail := if info.actionDetail = [] then row.actionDetail else info.actionDetail } :: rows
    else row :: consume rows info

def Table.settle (t : Table) : Table where
  rows := (t.rows.map TableRow.settled).filter fun row ↦ row.stepStatus ≠ .consumed
  added := t.added

def Table.add (t : Table) (adds : List TableEntry) : Table where
  rows := t.rows ++ (adds.zipIdx t.added).map fun (te, serial) ↦ { te with stepStatus := .ja, serial }
  added := t.added + adds.length

def Table.consume (t : Table) (consumes : List ConsumeInfo) : Table where
  rows := consumes.foldl Bundles.consume t.rows
  added := t.added

def Table.finish (t : Table) : Table where
  rows := t.rows.map TableRow.finished
  added := t.added

/-- What an event leaves on a chain, which is what its step shows. -/
def Table.step (t : Table) (adds : List TableEntry) (consumes : List ConsumeInfo) : Table :=
  (t.settle.add adds).consume consumes

def tableStatesFrom (cache : ActionDetailCache) (l1 l2 : Table) : List (EventRecord Action) → List StepTableState
  | [] => []
  | event :: events =>
    let (changes, cache) := processEventForTables formatAction cache event
    let l1 := l1.step changes.l1Adds changes.l1Consumes
    let l2 := l2.step changes.l2Adds changes.l2Consumes
    ⟨l1.rows, l2.rows⟩ :: tableStatesFrom cache l1.finish l2.finish events

def computeTableStates (cache : ActionDetailCache) (events : List (EventRecord Action)) : List StepTableState :=
  tableStatesFrom formatAction cache ⟨[], 0⟩ ⟨[], 0⟩ events

end

/-! ## The shelf of a chain -/

section

variable {Action : Type} {formatAction : Action → ActionDetail} {cache : ActionDetailCache}

def StepTableState.rows (state : StepTableState) (c : Chain) : List TableRow :=
  match c with
  | .l1 => state.l1
  | .l2 => state.l2

/-- The entries an event adds to a chain. -/
def entriesOf (c : Chain) (event : EventRecord Action) : List (Entry Action) :=
  match c, event.eventName with
  | .l1, .batchPosted => (event.entries.getD []).filter fun entry ↦ entry.actionHash ≠ ZERO_HASH
  | .l2, .executionTableLoaded => event.entries.getD []
  | _, _ => []

theorem entriesOf_eq_nil {c : Chain} {event : EventRecord Action} (hposted : event.eventName ≠ .batchPosted)
    (hloaded : event.eventName ≠ .executionTableLoaded) : entriesOf c event = [] := by
  cases c <;> cases h : event.eventName <;> simp_all [entriesOf]

/-- The hash an event consumes on a chain. -/
def consumedHash (c : Chain) (event : EventRecord Action) : Option String :=
  if event.eventName = .executionConsumed ∧ event.chain = c then event.actionHash else none

/-- What an event does to a chain. -/
def turnOf (c : Chain) (event : EventRecord Action) : Shelf.Turn String where
  puts := (entriesOf c event).map Entry.actionHash
  takes := consumedHash c event

/-- The number and the hash of an entry. -/
def TableRow.item (row : TableRow) : ℕ × String := (row.serial, row.fullActionHash)

def justConsumed (rows : List TableRow) : List TableRow := rows.filter fun row ↦ row.stepStatus = .jc

def TableChanges.adds (changes : TableChanges) (c : Chain) : List TableEntry :=
  match c with
  | .l1 => changes.l1Adds
  | .l2 => changes.l2Adds

def TableChanges.consumes (changes : TableChanges) (c : Chain) : List ConsumeInfo :=
  match c with
  | .l1 => changes.l1Consumes
  | .l2 => changes.l2Consumes

theorem adds_eq (formatAction : Action → ActionDetail) (cache : ActionDetailCache) (c : Chain) (event : EventRecord Action) :
    ((processEventForTables formatAction cache event).1.adds c).map TableEntry.fullActionHash =
      (turnOf c event).puts := by
  cases c <;> cases h : event.eventName <;>
    simp [processEventForTables, turnOf, entriesOf, TableChanges.adds, h, entryToTableEntry, Function.comp_def]
  all_goals split <;> rfl

theorem consumes_eq (formatAction : Action → ActionDetail) (cache : ActionDetailCache) (c : Chain) (event : EventRecord Action) :
    (processEventForTables formatAction cache event).1.consumes c = [] ∧ (turnOf c event).takes = none ∨
      ∃ info : ConsumeInfo, (processEventForTables formatAction cache event).1.consumes c = [info] ∧
        (turnOf c event).takes = info.actionHash := by
  by_cases hconsumed : event.eventName = .executionConsumed
  · simp only [processEventForTables, turnOf, consumedHash, hconsumed, true_and]
    cases c <;> cases event.chain <;> simp [TableChanges.consumes]
  · left
    refine ⟨?_, if_neg fun h ↦ hconsumed h.1⟩
    rw [processEventForTables]
    split <;> first | contradiction | cases c <;> rfl

/-! ## Consuming -/

theorem item_settled (row : TableRow) : row.settled.item = row.item := by
  rw [TableRow.settled]
  split <;> rfl

/-- A row that a step may show before it consumes: there, and not consumed by the event. -/
def TableRow.Waiting (row : TableRow) : Prop := row.stepStatus = .ja ∨ row.stepStatus = .ok

theorem consume_none {rows : List TableRow} {info : ConsumeInfo} (h : info.actionHash = none) :
    consume rows info = rows := by
  induction rows with
  | nil => rfl
  | cons row rows ih =>
    have hne : ¬(some row.fullActionHash = info.actionHash ∧ row.stepStatus ≠ .consumed) := by
      rw [h]
      exact fun h ↦ nomatch h.1
    rw [consume, if_neg hne, ih]

theorem TableRow.Waiting.ne_jc {row : TableRow} (h : row.Waiting) : row.stepStatus ≠ .jc := by
  obtain h | h := h <;> rw [h] <;> decide

theorem TableRow.Waiting.ne_consumed {row : TableRow} (h : row.Waiting) : row.stepStatus ≠ .consumed := by
  obtain h | h := h <;> rw [h] <;> decide

theorem justConsumed_eq_nil {rows : List TableRow} (h : ∀ row ∈ rows, row.Waiting) : justConsumed rows = [] :=
  List.filter_eq_nil_iff.2 fun row hrow hjc ↦ (h row hrow).ne_jc (of_decide_eq_true hjc)

theorem filter_ne_jc {rows : List TableRow} (h : ∀ row ∈ rows, row.Waiting) :
    rows.filter (fun row ↦ row.stepStatus ≠ .jc) = rows :=
  List.filter_eq_self.2 fun row hrow ↦ decide_eq_true (h row hrow).ne_jc

/-- **A consumption marks the first entry with its hash** and leaves the others as they are. -/
theorem consume_spec {rows : List TableRow} (h : ∀ row ∈ rows, row.Waiting) {info : ConsumeInfo} {hash : String}
    (hhash : info.actionHash = some hash) :
    (consume rows info).map TableRow.item = rows.map TableRow.item ∧
      (justConsumed (consume rows info)).map TableRow.item =
        ((rows.map TableRow.item).find? fun x ↦ x.2 = hash).toList ∧
      ((consume rows info).filter fun row ↦ row.stepStatus ≠ .jc).map TableRow.item =
        (rows.map TableRow.item).eraseP (fun x ↦ x.2 = hash) ∧
      ∀ row ∈ consume rows info, row.stepStatus ≠ .consumed := by
  induction rows with
  | nil => exact ⟨rfl, rfl, rfl, nofun⟩
  | cons row rows ih =>
    obtain ⟨hrow, hrows⟩ := List.forall_mem_cons.1 h
    rw [consume, hhash]
    split
    next heq =>
      have hkey : decide (row.item.2 = hash) = true := decide_eq_true (Option.some.inj heq.1)
      refine ⟨rfl, ?_, ?_, List.forall_mem_cons.2 ⟨nofun, fun row hrow ↦ (hrows row hrow).ne_consumed⟩⟩
      · rw [List.map_cons, List.find?_cons_of_pos (by exact hkey), justConsumed, List.filter_cons_of_pos (by rfl),
          ← justConsumed, justConsumed_eq_nil hrows]
        rfl
      · rw [List.map_cons, List.eraseP_cons_of_pos (by exact hkey), List.filter_cons_of_neg (by simp),
          filter_ne_jc hrows]
    next hdiff =>
      have hkey : ¬decide (row.item.2 = hash) = true :=
        fun heq ↦ hdiff ⟨congrArg some (of_decide_eq_true heq), hrow.ne_consumed⟩
      obtain ⟨hitems, hjust, hrest, hstatus⟩ := ih hrows
      refine ⟨congrArg (row.item :: ·) hitems, ?_, ?_, List.forall_mem_cons.2 ⟨hrow.ne_consumed, hstatus⟩⟩
      · rw [List.map_cons, List.find?_cons_of_neg (by exact hkey), ← hjust, justConsumed,
          List.filter_cons_of_neg (by simpa using hrow.ne_jc), ← justConsumed]
      · rw [List.map_cons, List.eraseP_cons_of_neg (by exact hkey), ← hrest,
          List.filter_cons_of_pos (by simpa using hrow.ne_jc), List.map_cons]

/-! ## Steps and turns -/

/-- Once it settles, the table holds what is on the shelf. -/
structure Represents (t : Table) (shelf : Shelf.State String) : Prop where
  items : t.settle.rows.map TableRow.item = shelf.items
  waiting : ∀ row ∈ t.settle.rows, row.stepStatus = .ok
  added : t.added = shelf.count

/-- What a step of a table does is a turn on the shelf. -/
structure Step (t : Table) (shelf : Shelf.State String) (turn : Shelf.Turn String) (t' : Table) : Prop where
  items : t'.rows.map TableRow.item = shelf.full turn
  taken : (justConsumed t'.rows).map TableRow.item = (shelf.taken turn).toList
  next : Represents t'.finish (shelf.next turn)

theorem represents_finish {t : Table} {shelf : Shelf.State String}
    (hitems : (t.rows.filter fun row ↦ row.stepStatus ≠ .jc).map TableRow.item = shelf.items)
    (hstatus : ∀ row ∈ t.rows, row.stepStatus ≠ .consumed) (hadded : t.added = shelf.count) :
    Represents t.finish shelf := by
  have hsettle : t.finish.settle.rows = (t.rows.filter fun row ↦ row.stepStatus ≠ .jc).map TableRow.settled := by
    have hboth (row : TableRow) (hne : row.stepStatus ≠ .consumed) :
        (row.finished.settled.stepStatus ≠ .consumed ↔ row.stepStatus ≠ .jc) ∧
          (row.stepStatus ≠ .jc → row.finished.settled = row.settled) := by
      rw [TableRow.finished]
      split
      next h => simp [TableRow.settled, h]
      next h =>
        refine ⟨iff_of_true ?_ h, fun _ ↦ rfl⟩
        rw [TableRow.settled]
        split
        · exact StepStatus.noConfusion
        · exact hne
    calc
      _ = (t.rows.filter fun row ↦ row.finished.settled.stepStatus ≠ .consumed).map
          (TableRow.settled ∘ TableRow.finished) := by
        rw [Table.settle, Table.finish, List.map_map, List.filter_map]
        rfl
      _ = (t.rows.filter fun row ↦ row.stepStatus ≠ .jc).map (TableRow.settled ∘ TableRow.finished) := by
        rw [List.filter_congr fun row hrow ↦ decide_eq_decide.2 (hboth row (hstatus row hrow)).1]
      _ = _ := List.map_congr_left fun row hrow ↦ by
        obtain ⟨hmem, hjc⟩ := List.mem_filter.1 hrow
        exact (hboth row (hstatus row hmem)).2 (of_decide_eq_true hjc)
  refine ⟨?_, ?_, hadded⟩
  · rw [hsettle, List.map_map, ← hitems]
    exact List.map_congr_left fun row _ ↦ item_settled row
  · rw [hsettle]
    intro row' hrow'
    obtain ⟨row, hrow, rfl⟩ := List.mem_map.1 hrow'
    obtain ⟨hmem, hjc⟩ := List.mem_filter.1 hrow
    have hne := hstatus row hmem
    have hjc := of_decide_eq_true hjc
    rw [TableRow.settled]
    cases h : row.stepStatus <;> simp_all

/-- A step in which nothing is consumed. -/
theorem step_none {t t' : Table} {shelf : Shelf.State String} {turn : Shelf.Turn String}
    (hitems : t'.rows.map TableRow.item = shelf.full turn) (hadded : t'.added = shelf.count + turn.puts.length)
    (hwaiting : ∀ row ∈ t'.rows, row.Waiting) (htakes : turn.takes = none) : Step t shelf turn (t'.consume []) where
  items := hitems
  taken := by
    rw [Shelf.State.taken, htakes]
    exact congrArg _ (justConsumed_eq_nil hwaiting)
  next := by
    refine represents_finish ?_ (fun row hrow ↦ (hwaiting row hrow).ne_consumed) hadded
    rw [Shelf.State.next, htakes]
    exact (congrArg _ (filter_ne_jc hwaiting)).trans hitems

theorem Represents.step {t : Table} {shelf : Shelf.State String} (h : Represents t shelf)
    (formatAction : Action → ActionDetail) (cache : ActionDetailCache) (event : EventRecord Action) (c : Chain) :
    Step t shelf (turnOf c event)
      (t.step ((processEventForTables formatAction cache event).1.adds c)
        ((processEventForTables formatAction cache event).1.consumes c)) := by
  have hadds := adds_eq formatAction cache c event
  generalize (processEventForTables formatAction cache event).1.adds c = adds at hadds ⊢
  have hitems : (t.settle.add adds).rows.map TableRow.item = shelf.full (turnOf c event) := by
    rw [Table.add, Shelf.State.full, List.map_append, h.items, ← hadds, ← h.added, List.zipIdx_map, List.map_map,
      List.map_map]
    rfl
  have hadded : (t.settle.add adds).added = shelf.count + (turnOf c event).puts.length := by
    rw [← hadds, List.length_map, ← h.added]
    rfl
  have hwaiting : ∀ row ∈ (t.settle.add adds).rows, row.Waiting := by
    intro row hrow
    obtain hrow | hrow := List.mem_append.1 hrow
    · exact .inr (h.waiting row hrow)
    · obtain ⟨_, -, rfl⟩ := List.mem_map.1 hrow
      exact .inl rfl
  rw [Table.step]
  obtain ⟨hconsumes, htakes⟩ | ⟨info, hconsumes, htakes⟩ := consumes_eq formatAction cache c event
  · rw [hconsumes]
    exact step_none hitems hadded hwaiting htakes
  · rw [hconsumes]
    cases hhash : info.actionHash with
    | none =>
      have hsame : (t.settle.add adds).consume [info] = (t.settle.add adds).consume [] := by
        rw [Table.consume, List.foldl_cons, consume_none hhash, Table.consume]
      rw [hsame]
      exact step_none hitems hadded hwaiting (htakes.trans hhash)
    | some hash =>
      obtain ⟨hall, hjust, hrest, hstatus⟩ := consume_spec hwaiting hhash
      have htakes := htakes.trans hhash
      refine ⟨hall.trans hitems, ?_, represents_finish ?_ hstatus hadded⟩
      · rw [Shelf.State.taken, htakes, Option.bind_some, ← hitems]
        exact hjust
      · rw [Shelf.State.next, htakes, Option.elim_some, ← hitems]
        exact hrest

/-! ## All steps -/

def Chain.pick {α : Type} (c : Chain) (l1 l2 : α) : α :=
  match c with
  | .l1 => l1
  | .l2 => l2

/-- What the events do to a chain. -/
def turns (c : Chain) (events : List (EventRecord Action)) : List (Shelf.Turn String) := events.map (turnOf c)

theorem tableStatesFrom_eq (formatAction : Action → ActionDetail) (cache : ActionDetailCache) {l1 l2 : Table}
    {shelf1 shelf2 : Shelf.State String} (h1 : Represents l1 shelf1)
    (h2 : Represents l2 shelf2) (c : Chain) (events : List (EventRecord Action)) :
    (tableStatesFrom formatAction cache l1 l2 events).map (fun state ↦
        ((state.rows c).map TableRow.item, (justConsumed (state.rows c)).map TableRow.item)) =
      (Shelf.history (c.pick shelf1 shelf2) (turns c events)).map fun x ↦ (x.1, x.2.toList) := by
  induction events generalizing cache l1 l2 shelf1 shelf2 with
  | nil => rfl
  | cons event events ih =>
    have hstep1 := h1.step formatAction cache event .l1
    have hstep2 := h2.step formatAction cache event .l2
    have hrest := ih (processEventForTables formatAction cache event).2 hstep1.next hstep2.next
    rw [tableStatesFrom, List.map_cons, turns, List.map_cons, Shelf.history, List.map_cons]
    cases c with
    | l1 => exact congrArg₂ List.cons (Prod.ext hstep1.items hstep1.taken) hrest
    | l2 => exact congrArg₂ List.cons (Prod.ext hstep2.items hstep2.taken) hrest

/-- The hashes of the entries added to a chain, in order. -/
def added (c : Chain) (events : List (EventRecord Action)) : List String :=
  (events.flatMap (entriesOf c)).map Entry.actionHash

/-- The step shows the entry. -/
def StepTableState.Shows (state : StepTableState) (c : Chain) (item : ℕ × String) : Prop :=
  item ∈ (state.rows c).map TableRow.item

/-- The step shows the entry as just consumed. -/
def StepTableState.ShowsConsumed (state : StepTableState) (c : Chain) (item : ℕ × String) : Prop :=
  item ∈ (justConsumed (state.rows c)).map TableRow.item

variable {events : List (EventRecord Action)} {state : StepTableState} {i : ℕ} {c : Chain} {item : ℕ × String}

theorem flatMap_puts (c : Chain) (events : List (EventRecord Action)) :
    (turns c events).flatMap Shelf.Turn.puts = added c events := by
  rw [turns, List.flatMap_map, added, List.map_flatMap]
  rfl

theorem length_computeTableStates (formatAction : Action → ActionDetail) (cache : ActionDetailCache)
    (events : List (EventRecord Action)) :
    (computeTableStates formatAction cache events).length = events.length := by
  have hlength (cache : ActionDetailCache) (l1 l2 : Table) :
      (tableStatesFrom formatAction cache l1 l2 events).length = events.length := by
    induction events generalizing cache l1 l2 with
    | nil => rfl
    | cons event events ih => exact congrArg (· + 1) (ih _ _ _)
  exact hlength _ _ _

theorem state_eq (hstate : (computeTableStates formatAction cache events)[i]? = some state) (c : Chain) :
    ∃ turn, (turns c events)[i]? = some turn ∧
      (state.rows c).map TableRow.item = (Shelf.run ((turns c events).take i)).full turn ∧
      (justConsumed (state.rows c)).map TableRow.item = (Shelf.takenAt (turns c events) i).toList := by
  have hempty : Represents ⟨[], 0⟩ Shelf.start := ⟨rfl, nofun, rfl⟩
  have hall := tableStatesFrom_eq formatAction cache hempty hempty c events
  have hat := congrArg (fun l ↦ l[i]?) hall
  have hpick : c.pick Shelf.start Shelf.start = (Shelf.start : Shelf.State String) := by cases c <;> rfl
  rw [computeTableStates] at hstate
  simp only [List.getElem?_map, hstate, Shelf.history_getElem?, hpick, Option.map_some] at hat
  cases hturn : (turns c events)[i]? with
  | none =>
    rw [hturn] at hat
    exact nomatch hat
  | some turn =>
    rw [hturn] at hat
    obtain ⟨hrows, hjust⟩ := Prod.mk.inj (Option.some.inj hat)
    refine ⟨turn, rfl, hrows, hjust.trans ?_⟩
    rw [Shelf.takenAt, hturn]
    rfl

theorem shows_iff (hstate : (computeTableStates formatAction cache events)[i]? = some state) :
    state.Shows c item ↔ ∃ turn, (turns c events)[i]? = some turn ∧
      item ∈ (Shelf.run ((turns c events).take i)).full turn := by
  obtain ⟨turn, hturn, hrows, -⟩ := state_eq hstate c
  rw [StepTableState.Shows, hrows]
  exact ⟨fun h ↦ ⟨turn, hturn, h⟩, fun ⟨turn', hturn', h⟩ ↦ Option.some.inj (hturn.symm.trans hturn') ▸ h⟩

theorem showsConsumed_iff (hstate : (computeTableStates formatAction cache events)[i]? = some state) :
    state.ShowsConsumed c item ↔ Shelf.takenAt (turns c events) i = some item := by
  obtain ⟨-, -, -, hjust⟩ := state_eq hstate c
  rw [StepTableState.ShowsConsumed, hjust, Option.mem_toList]

end

end Bundles
