import EezDashboard.Finite.Window
import EezDashboard.Js.Hex
import EezDashboard.Monitor.Feed

/-!
# What the dashboard shows

The state of a monitor page in a browser, and what it does with a frame of the feed and with a snapshot
that was fetched.  Heads arrive sooner than snapshots: `mergeHeads` puts the heads the page knows over a
snapshot, unless the snapshot's collection started after them.  A head that does not continue what is
shown leaves a mark, until a snapshot says what happened.

Of a block the page keeps what these functions read.  The rest of a snapshot is drawn as it comes.
-/

set_option autoImplicit false

namespace Monitor

/-- A block as the page keeps it; a block without a hash has an empty one. -/
structure BlockRow where
  hash : String
  number : ℕ
  parentHash : Option String
  transactionCount : Option ℕ
  deriving DecidableEq, Repr

inductive Kind
  | reorg
  | gap
  deriving DecidableEq, Repr

structure ChainView where
  healthy : Bool
  latest : Option BlockRow
  safe : Option BlockRow
  finalized : Option BlockRow
  blocks : List BlockRow
  deriving DecidableEq, Repr

/-- A chain of which nothing is known. -/
def ChainView.empty : ChainView := ⟨false, none, none, none, []⟩

/-- A snapshot, as it is fetched and as it is shown. -/
structure Snapshot where
  stale : Bool
  recentBlockWindows : Name → Option ℕ
  recentBlockWindow : Option ℕ
  /-- whether there is an error of this component -/
  failed : Name → Bool
  historyFailed : Bool
  historyAvailable : Bool
  chains : Name → ChainView
  reconciliation : Name → Option Kind

/-- `{ generatedAt, chains: {} }` -/
def Snapshot.empty : Snapshot where
  stale := false
  recentBlockWindows _ := none
  recentBlockWindow := none
  failed _ := false
  historyFailed := false
  historyAvailable := false
  chains _ := .empty
  reconciliation _ := none

structure Pending where
  sequence : ℕ
  kind : Kind
  deriving DecidableEq, Repr

/-- The socket of a page, and the frames it has processed. -/
structure Socket where
  closing : Bool
  received : List (Frame BlockRow (Option Snapshot))

/-- `state` of a page.  `loading` is the revision at which the request under way was made, `polling`
whether there is a timer for the next one. -/
structure Dashboard where
  loading : Option ℕ
  polling : Bool
  socket : Option Socket
  revision : ℕ
  stopped : Bool
  snapshot : Option Snapshot
  heads : Name → Option Head
  headHistory : Name → List BlockRow
  pendingChains : Name → Option Pending

/-- `Number.MAX_SAFE_INTEGER` -/
def maxSafeInteger : ℕ := 2 ^ 53 - 1

/-- `/^0x[0-9a-fA-F]{64}$/` -/
def isHash (s : String) : Bool := Js.hexOfLength 64 s && s.toList[1]? = some 'x'

/-! ## Rows -/

/-- The block of a head, as a row. -/
def Block.row (block : Block) : BlockRow := ⟨block.hash, block.number, block.parentHash, none⟩

/-- `{ ...block, ...known, ...fields }`, where `fields` is what the block has -/
def BlockRow.merge (block known : BlockRow) : BlockRow where
  hash := block.hash
  number := block.number
  parentHash := block.parentHash.or known.parentHash
  transactionCount := block.transactionCount.or known.transactionCount

/-- `known.get(hash)` -/
def lookup (known : List BlockRow) (hash : String) : Option BlockRow := known.find? fun row ↦ row.hash = hash

/-- `known.set(block.hash, …)`, with what is known of the block -/
def hydrate (known : List BlockRow) (block : BlockRow) : List BlockRow :=
  Window.set BlockRow.hash known (((lookup known block.hash).map block.merge).getD block)

/-- The parent of a block, if it is known and has the number before. -/
def parentRow (known : List BlockRow) (block : BlockRow) : Option BlockRow :=
  (block.parentHash.bind (lookup known)).filter fun parent ↦ parent.number + 1 = block.number

/-- A block and its ancestors, at most so many. -/
def ancestry (known : List BlockRow) : ℕ → Option BlockRow → List BlockRow
  | 0, _ | _, none => []
  | n + 1, some block => block :: ancestry known n (parentRow known block)

/-- The path of `mergeHeads`: the ancestors of a block, above the one with this hash, and the block the
path ends before. -/
def pathTo (known : List BlockRow) (hash : Option String) :
    ℕ → Option BlockRow → List BlockRow × Option BlockRow
  | 0, cursor => ([], cursor)
  | _, none => ([], none)
  | n + 1, some block =>
    if some block.hash = hash then ([], some block)
    else
      let (path, last) := pathTo known hash n (parentRow known block)
      (block :: path, last)

/-- The rows a chain's history keeps. -/
def keepRows (rows : List BlockRow) : List BlockRow :=
  (rows.insertionSort fun a b ↦ b.number ≤ a.number).take 128

/-- `blockWindow`: a window of zero counts as none. -/
def blockWindow (snapshot : Snapshot) (name : Name) : ℕ :=
  (((snapshot.recentBlockWindows name).filter (· ≠ 0)).or
    (snapshot.recentBlockWindow.filter (· ≠ 0))).getD (if name = .l2 then 100 else 20)

/-- The hash of the latest block of a chain, if it has one. -/
def ChainView.latestHash (chain : ChainView) : Option String :=
  (chain.latest.map BlockRow.hash).filter (· ≠ "")

namespace Dashboard

def init : Dashboard where
  loading := none
  polling := false
  socket := none
  revision := 0
  stopped := false
  snapshot := none
  heads _ := none
  headHistory _ := []
  pendingChains _ := none

variable (state : Dashboard)

/-! ## Drawing -/

/-- The rows of one chain in `hydrateBlockRows`. -/
def hydrateChain (window : ℕ) (name : Name) (chain : ChainView) : ChainView :=
  match chain.latest with
  | none => chain
  | some latest =>
    if latest.hash = "" then chain
    else
      let known := (state.headHistory name ++ chain.blocks ++ [latest]).foldl hydrate []
      let rows := ancestry known window (lookup known latest.hash)
      { chain with latest := rows.head?, blocks := rows }

/-- `hydrateBlockRows` -/
def hydrateBlockRows (snapshot : Snapshot) : Snapshot :=
  { snapshot with
    chains := fun name ↦ state.hydrateChain (blockWindow snapshot name) name (snapshot.chains name) }

/-- `render`, as far as the state goes -/
def render (snapshot : Snapshot) : Dashboard :=
  { state with snapshot := some (state.hydrateBlockRows snapshot) }

/-! ## Heads -/

/-- Whether a head has the form of one. -/
def isUpdate (update : Head) : Bool :=
  update.block.number ≤ maxSafeInteger && isHash update.block.hash &&
    update.block.timestamp ≤ maxSafeInteger && update.sequence ≤ maxSafeInteger

/-- Whether a head is newer than the one that is known. -/
def isNew (name : Name) (update : Head) : Bool :=
  (state.heads name).all fun known ↦ known.sequence < update.sequence

/-- The mark a head leaves, if it does not continue what is shown. -/
def markOf (name : Name) (update : Head) : Option Pending :=
  match state.snapshot.bind fun snapshot ↦ (snapshot.chains name).latest with
  | none => none
  | some previous =>
    if previous.hash = "" ∨ previous.hash = update.block.hash then none
    else if update.block.number = previous.number + 1 ∧ update.block.parentHash = some previous.hash then none
    else
      let reorg := update.block.number ≤ previous.number ∨ update.block.number = previous.number + 1
      let marked := (state.pendingChains name).map Pending.kind = some .reorg
      some ⟨update.sequence, if reorg ∨ marked then .reorg else .gap⟩

/-- What `rememberHeads` does with one newer head. -/
def rememberHead (name : Name) (update : Head) : Dashboard :=
  { state with
    pendingChains := Function.update state.pendingChains name
      ((state.markOf name update).or (state.pendingChains name))
    headHistory := Function.update state.headHistory name
      ((update.block.row :: (state.headHistory name).filter (·.hash ≠ update.block.hash)).take 128)
    heads := Function.update state.heads name (some update) }

/-- One round of `rememberHeads`: the state, the heads that changed, and whether nothing was thrown. -/
def rememberNext (heads : Name → Option Head) (name : Name) :
    Dashboard × (Name → Option Head) × Bool → Dashboard × (Name → Option Head) × Bool
  | (state, changed, false) => (state, changed, false)
  | (state, changed, true) =>
    match heads name with
    | none => (state, changed, true)
    | some update =>
      if isUpdate update = false then (state, changed, false)
      else if state.isNew name update then
        (state.rememberHead name update, Function.update changed name (some update), true)
      else (state, changed, true)

/-- `rememberHeads` -/
def rememberHeads (heads : Name → Option Head) : Dashboard × (Name → Option Head) × Bool :=
  rememberNext heads .l2 (rememberNext heads .l1 (state, fun _ ↦ none, true))

/-- Whether a chain of a snapshot stands over a head: the collection started after the head. -/
def isReconciled (stale : Bool) (startedSequence : ℤ) (chain : ChainView) (update : Head) : Bool :=
  !stale && chain.healthy && chain.latestHash.isSome && (update.sequence : ℤ) ≤ startedSequence

/-- A head over one chain: the chain, and the mark it gets. -/
def mergeChain (window : ℕ) (name : Name) (update : Head) (chain : ChainView) : ChainView × Option Kind :=
  let head := update.block.row
  let latest := chain.latest.map BlockRow.hash
  let known := Window.latest BlockRow.hash (state.headHistory name ++ chain.blocks)
  let (path, cursor) := pathTo known latest 128 ((lookup known head.hash).or (some head))
  let connected := cursor.map BlockRow.hash = latest
  let changed := latest ≠ some head.hash
  let pending := state.pendingChains name
  let merged : ChainView :=
    if changed then
      { chain with
        latest := (lookup known head.hash).or (some head)
        blocks := (path ++ if connected then chain.blocks else []).take window }
    else chain
  if pending.isSome ∨ (changed ∧ chain.latestHash.isSome ∧ ¬connected) then
    match (pending.map Pending.kind).getD .gap with
    | .gap =>
      ({ merged with blocks := (Window.firsts BlockRow.number (path ++ chain.blocks)).take window },
        some .gap)
    | .reorg => ({ merged with safe := none, finalized := none }, some .reorg)
  else (merged, none)

/-- One round of `mergeHeads`. -/
def mergeHead (startedSequence : ℤ) (name : Name) (update : Option Head) (snapshot result : Snapshot) :
    Snapshot :=
  match update with
  | none => result
  | some update =>
    if isReconciled snapshot.stale startedSequence (result.chains name) update then result
    else
      let (chain, kind) := state.mergeChain (blockWindow snapshot name) name update (result.chains name)
      let chains := Function.update result.chains name chain
      let l2 := { chains .l2 with safe := none, finalized := none }
      { result with
        chains := if kind = some .reorg ∧ name = .l1 then Function.update chains .l2 l2 else chains
        reconciliation := Function.update result.reconciliation name (kind.or (result.reconciliation name))
        historyAvailable := if kind = some .reorg then false else result.historyAvailable }

/-- `mergeHeads` -/
def mergeHeads (snapshot : Snapshot) (startedSequence : ℤ) (heads : Name → Option Head) : Snapshot :=
  state.mergeHead startedSequence .l2 (heads .l2) snapshot
    (state.mergeHead startedSequence .l1 (heads .l1) snapshot snapshot)

/-- `applyHeads`, and whether nothing was thrown -/
def applyHeads (heads : Name → Option Head) : Dashboard × Bool :=
  match state.rememberHeads heads with
  | (state, _, false) => (state, false)
  | (state, changed, true) =>
    if changed .l1 = none ∧ changed .l2 = none then (state, true)
    else
      let state := { state with revision := state.revision + 1 }
      (state.render (state.mergeHeads (state.snapshot.getD .empty) (-1) changed), true)

/-! ## Snapshots -/

/-- Whether a row has the form of one. -/
def isRow (row : BlockRow) : Bool :=
  isHash row.hash && row.number ≤ maxSafeInteger && row.transactionCount.any (· ≤ maxSafeInteger)

/-- One round of `rememberBlockDetails`, and whether nothing was thrown. -/
def rememberRows (blocks : Name → Option (List BlockRow)) (name : Name) : Dashboard × Bool → Dashboard × Bool
  | (state, false) => (state, false)
  | (state, true) =>
    match blocks name with
    | none => (state, true)
    | some rows =>
      if 128 < rows.length ∨ rows.all isRow = false then (state, false)
      else
        let known := Window.latest BlockRow.hash (state.headHistory name ++ rows)
        ({ state with headHistory := Function.update state.headHistory name (keepRows known) }, true)

/-- `rememberBlockDetails` -/
def rememberBlockDetails (blocks : Name → Option (List BlockRow)) : Dashboard × Bool :=
  rememberRows blocks .l2 (rememberRows blocks .l1 (state, true))

/-- Whether a snapshot clears the mark of a chain. -/
def isCleared (snapshot : Snapshot) (startedSequence : ℤ) (name : Name) (pending : Pending) : Bool :=
  !snapshot.stale && (pending.sequence : ℤ) ≤ startedSequence && (snapshot.chains name).healthy &&
    (snapshot.chains name).latestHash.isSome

/-- The rows a chain's history has with those of a snapshot and of what is shown. -/
def historyWith (snapshot : Snapshot) (name : Name) : List BlockRow :=
  let shown := (state.snapshot.map fun previous ↦ (previous.chains name).blocks).getD []
  let rows := shown ++ (snapshot.chains name).blocks
  keepRows ((rows.filter (·.hash ≠ "")).foldl hydrate (Window.latest BlockRow.hash (state.headHistory name)))

/-- A chain that failed is shown as it was; the record of one that failed says no more than that. -/
def retainChain (previous snapshot : Snapshot) (name : Name) : ChainView :=
  let chain := snapshot.chains name
  if snapshot.failed name ∧ chain.latest.isNone ∧ (previous.chains name).latest.isSome then
    { previous.chains name with healthy := chain.healthy }
  else chain

/-- The components that failed are shown as they were. -/
def retain (previous snapshot : Snapshot) : Snapshot :=
  let retained (name : Name) : Bool :=
    snapshot.failed name && (snapshot.chains name).latest.isNone && (previous.chains name).latest.isSome
  let history := snapshot.historyFailed && previous.historyAvailable
  { snapshot with
    chains := retainChain previous snapshot
    historyAvailable := snapshot.historyAvailable || history
    reconciliation := fun name ↦ if retained name ∨ (name = .l1 ∧ history) then some .gap else none }

/-- `applySnapshot`, and whether nothing was thrown -/
def applySnapshot (snapshot : Snapshot) (heads : Name → Option Head) (startedSequence : ℤ) :
    Dashboard × Bool :=
  match state.rememberHeads heads with
  | (state, _, false) => (state, false)
  | (state, _, true) =>
    let state := { state with
      pendingChains := fun name ↦
        (state.pendingChains name).filter fun pending ↦ !isCleared snapshot startedSequence name pending
      revision := state.revision + 1
      headHistory := state.historyWith snapshot }
    let snapshot := (state.snapshot.map fun previous ↦ retain previous snapshot).getD snapshot
    (state.render (state.mergeHeads snapshot startedSequence state.heads), true)

/-! ## Requests and frames -/

/-- `startPolling` -/
def startPolling : Dashboard := if state.stopped then state else { state with polling := true }

/-- `refresh`, up to the request -/
def refresh : Dashboard :=
  if state.loading.isSome then state else { state with loading := some state.revision }

/-- The rest of `refresh`.  There is no snapshot when the request failed. -/
def finishRefresh (snapshot : Option Snapshot) : Dashboard :=
  let done := { state with loading := none }
  match snapshot with
  | some snapshot =>
    if state.loading = some state.revision ∧ ¬state.stopped then
      (done.applySnapshot snapshot (fun _ ↦ none) maxSafeInteger).1
    else done
  | none => done

/-- What `onmessage` does with a frame, and whether nothing was thrown. -/
def handle (frame : Frame BlockRow (Option Snapshot)) : Dashboard × Bool :=
  match state.rememberBlockDetails frame.blocks with
  | (state, false) => (state, false)
  | (state, true) =>
    match frame.details with
    | none =>
      match state.applyHeads frame.heads with
      | (state, false) => (state, false)
      | (state, true) => ((state.snapshot.map state.render).getD state, true)
    | some (details, startedSequence) =>
      if details.event = "unavailable" then
        match state.applyHeads frame.heads with
        | (state, false) => (state, false)
        | (state, true) => (state.startPolling.refresh, true)
      else
        match details.snapshot.filter fun _ ↦ details.event = "snapshot" with
        | none => (state, false)
        | some snapshot => { state with polling := false }.applySnapshot snapshot frame.heads startedSequence

end Dashboard

end Monitor
