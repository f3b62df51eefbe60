import EezDashboard.Finite.Window

/-!
# The live batch history

`fetchLiveBatchHistory` of the execution debugger, with a configured registry: the posting logs of L1,
read in pages of 512 blocks, the rows kept from the previous refresh with an overlap of 12 blocks, the
cap of 50 rows and the cursor `before` below which nothing was read yet.

Hashes, addresses and quantities are numbers here, so the lower-casing of their texts is not seen.
What is decoded from a log is a parameter, as is the node that answers.
-/

set_option autoImplicit false

namespace Debugger

/-! ## Logs and rows -/

/-- `RawLog`, its topics and data as one value. -/
structure RawLog (δ : Type) where
  address : ℕ
  data : δ
  logIndex : ℕ
  transactionHash : ℕ
  blockHash : ℕ
  blockNumber : ℕ
  removed : Bool
  deriving DecidableEq, Repr

/-- The events of the L1 contracts: whether a log starts with a topic of a `BatchPosted` event, and
the `rollupIds` of a log that `decodeProtocolLog` decodes as one. -/
structure Events (δ ρ : Type) where
  topics : δ → Bool
  batchPosted : δ → Option ρ
  topics_of_batchPosted : ∀ d, (batchPosted d).isSome → topics d = true

/-- `LiveBatch`, as the posting log tells it. -/
structure LiveBatch (ρ : Type) where
  transactionHash : ℕ
  blockHash : ℕ
  blockNumber : ℕ
  logIndex : ℕ
  registryAddress : ℕ
  rollupIds : ρ
  deriving DecidableEq, Repr

structure LiveBatchHistory (ρ : Type) where
  batches : List (LiveBatch ρ)
  l1Head : ℕ
  l2Head : Option ℕ
  before : Option ℕ
  warnings : List String
  registryAddress : Option ℕ
  deriving DecidableEq, Repr

def LIVE_BATCH_LIMIT : ℕ := 50

/-- What the refresh asks of the nodes: the two `eth_blockNumber`, and the `eth_getLogs` of L1 between
two blocks, of one address.  A request may fail. -/
structure Rpc (δ : Type) where
  l1BlockNumber : Except String ℕ
  l2BlockNumber : Except String ℕ
  getLogs : ℕ → ℕ → ℕ → Except String (List (RawLog δ))

/-! ## The refresh -/

section Refresh

variable {δ ρ : Type} (events : Events δ ρ)

/-- The row of a log, if the log is a post of the registry that was not removed. -/
def rowOf (registryAddress : ℕ) (log : RawLog δ) : Option (LiveBatch ρ) :=
  match events.batchPosted log.data with
  | none => none
  | some rollupIds =>
    if log.removed = true ∨ registryAddress ≠ log.address then none
    else some ⟨log.transactionHash, log.blockHash, log.blockNumber, log.logIndex, log.address, rollupIds⟩

/-- `read` -/
def read (rpc : Rpc δ) (registryAddress fromBlock toBlock : ℕ) : Except String (List (LiveBatch ρ)) := do
  let logs ← rpc.getLogs fromBlock toBlock registryAddress
  return logs.filterMap (rowOf events registryAddress)

/-- The comparison `newest` sorts by: whether `a` may stand before `b`. -/
def newer (a b : LiveBatch ρ) : Bool :=
  if a.blockNumber = b.blockNumber then b.logIndex ≤ a.logIndex else a.blockNumber > b.blockNumber

/-- `newest` -/
def newest (batches : List (LiveBatch ρ)) : List (LiveBatch ρ) :=
  Window.newest LiveBatch.transactionHash newer LIVE_BATCH_LIMIT batches

/-- The pages from `toBlock` down to `fromBlock`. -/
def readOverlap (read : ℕ → ℕ → Except String (List (LiveBatch ρ))) (fromBlock toBlock : ℕ) :
    Except String (List (LiveBatch ρ)) :=
  if _h : toBlock < fromBlock then .ok []
  else
    let start := if toBlock - fromBlock ≥ 511 then toBlock - 511 else fromBlock
    match read start toBlock with
    | .error e => .error e
    | .ok page =>
      -- below block 0 the loop is over, as `to` is negative then
      if _h₀ : start = 0 then .ok page
      else
        match readOverlap read fromBlock (start - 1) with
        | .error e => .error e
        | .ok rest => .ok (page ++ rest)
termination_by toBlock
decreasing_by
  have hle : start ≤ toBlock := by
    simp only [start]
    split <;> omega
  omega

/-- Where to go on below an overlap that held the oldest row of a full window. -/
def refill (fromBlock : ℕ) (batches : List (LiveBatch ρ)) : Option ℕ :=
  if fromBlock = 0 then none
  else
    match batches.getLast? with
    | some oldest =>
      some (if oldest.blockNumber < fromBlock then oldest.blockNumber else fromBlock - 1)
    | none => some (fromBlock - 1)

/-- The rows and the cursor the backfill starts with. -/
def resume (read : ℕ → ℕ → Except String (List (LiveBatch ρ))) (previous : Option (LiveBatchHistory ρ))
    (head : ℕ) : Except String (List (LiveBatch ρ) × Option ℕ) :=
  match previous with
  | none => .ok ([], some head)
  | some previous =>
    if head < previous.l1Head then .ok ([], some head)
    else do
      let fromBlock := if previous.l1Head > 12 then previous.l1Head - 12 else 0
      let overlap ← readOverlap read fromBlock head
      let batches := newest (previous.batches.filter (fun b ↦ b.blockNumber < fromBlock) ++ overlap)
      if batches.length < LIVE_BATCH_LIMIT ∧ previous.batches.length = LIVE_BATCH_LIMIT then
        .ok (batches, refill fromBlock previous.batches)
      else .ok (batches, previous.before)

/-- The backfill, with so many pages left. -/
def backfill (read : ℕ → ℕ → Except String (List (LiveBatch ρ))) :
    ℕ → List (LiveBatch ρ) → Option ℕ → Except String (List (LiveBatch ρ) × Option ℕ)
  | 0, batches, before => .ok (batches, before)
  | _ + 1, batches, none => .ok (batches, none)
  | pages + 1, batches, some before =>
    if batches.length < LIVE_BATCH_LIMIT then do
      let fromBlock := if before > 511 then before - 511 else 0
      let page ← read fromBlock before
      backfill read pages (newest (batches ++ page)) (if fromBlock > 0 then some (fromBlock - 1) else none)
    else .ok (batches, some before)

/-- `fetchLiveBatchHistory`, up to the settlement ranges it then looks up for the rows; `registry` is
`config.rollupsAddress`. -/
def fetchLiveBatchHistory (registry : ℕ) (previous : Option (LiveBatchHistory ρ)) (rpc : Rpc δ) :
    Except String (LiveBatchHistory ρ) := do
  let head ← rpc.l1BlockNumber.mapError fun e ↦ s!"L1 batch history unavailable: {e}"
  let (l2Head, warnings) := match rpc.l2BlockNumber with
    | .ok l2Head => (some l2Head, [])
    | .error e => (previous.bind LiveBatchHistory.l2Head,
      [s!"L2 RPC: {e}. L1 batch history remains available."])
  let registryAddress := (previous.bind LiveBatchHistory.registryAddress).getD registry
  let (batches, before) ← resume (read events rpc registryAddress) previous head
  let (batches, before) ← backfill (read events rpc registryAddress) 8 batches before
  return ⟨batches, head, l2Head, before, warnings, some registryAddress⟩

end Refresh

/-! ## The chain that is read -/

/-- The canonical chain of L1, as the logs of its blocks: each block knows its number and numbers its
logs, and a transaction is in one block only. -/
structure Chain (δ : Type) where
  blocks : List (List (RawLog δ))
  genesis : blocks ≠ []
  numbered : ∀ (n : ℕ) (h : n < blocks.length), ∀ log ∈ blocks[n], log.blockNumber = n
  indexed : ∀ logs ∈ blocks, logs.Pairwise fun a b ↦ a.logIndex < b.logIndex
  once : ∀ log ∈ blocks.flatten, ∀ log' ∈ blocks.flatten,
    log.transactionHash = log'.transactionHash → log.blockNumber = log'.blockNumber

section Chain

variable {δ ρ : Type} (events : Events δ ρ) (registry : ℕ)

def Chain.head (chain : Chain δ) : ℕ := chain.blocks.length - 1

/-- The logs of some blocks, in order. -/
def Chain.logs (chain : Chain δ) (fromBlock toBlock : ℕ) : List (RawLog δ) :=
  ((chain.blocks.take (toBlock + 1)).drop fromBlock).flatten

/-- The posts of the whole chain, newest first, one row for each transaction. -/
def Chain.posts (chain : Chain δ) : List (LiveBatch ρ) :=
  Window.firsts LiveBatch.transactionHash (chain.blocks.flatten.filterMap (rowOf events registry)).reverse

/-- The answers of a node that sees this chain, when it answers. -/
structure Rpc.Reads (rpc : Rpc δ) (chain : Chain δ) : Prop where
  head : ∀ head, rpc.l1BlockNumber = .ok head → head = chain.head
  logs : ∀ fromBlock toBlock address logs, rpc.getLogs fromBlock toBlock address = .ok logs →
    toBlock ≤ chain.head → logs = (chain.logs fromBlock toBlock).filter fun log ↦
      events.topics log.data ∧ log.address = address

/-- What the chain may become between two refreshes: shorter, or one that was replaced no further than
12 blocks below the head that was seen. -/
def Chain.Follows (old chain : Chain δ) : Prop :=
  chain.head < old.head ∨ chain.blocks.take (old.head - 12) = old.blocks.take (old.head - 12)

/-- One poll; a refresh that fails leaves the history as it is. -/
def poll (state : Option (LiveBatchHistory ρ × Chain δ)) (rpc : Rpc δ) (chain : Chain δ) :
    Option (LiveBatchHistory ρ × Chain δ) :=
  match fetchLiveBatchHistory events registry (state.map Prod.fst) rpc with
  | .ok history => some (history, chain)
  | .error _ => state

/-- The histories that polling arrives at, each with the chain it was read from. -/
inductive Reached : Option (LiveBatchHistory ρ × Chain δ) → Prop
  | start : Reached none
  | poll {state : Option (LiveBatchHistory ρ × Chain δ)} {rpc : Rpc δ} {chain : Chain δ}
      (before : Reached state) (reads : rpc.Reads events chain)
      (follows : ∀ seen ∈ state, seen.2.Follows chain) : Reached (poll events registry state rpc chain)

end Chain

end Debugger
