import EezDashboard.Links.Records

/-!
# Checking a link

A link only says which transactions belong together.  `validateTransactionLinks` reads the transactions and their
receipts, and checks that the posting posts a batch and that the table the source ran under was loaded for it; the
same goes for the range of blocks a settlement names.
-/

set_option autoImplicit false

namespace TransactionLinks

open TraceDecoder (Hex Chain RawCall same)

/-- What calldata asks of the manager on L2. -/
inductive L2Call
  | loadExecutionTable
  | executeIncomingCrossChainCall
  | other
  deriving DecidableEq, Repr

/-! ## Settlements -/

/-- `l2Range` -/
structure RawRange where
  firstBlockNumber : Quantity
  lastBlockNumber : Quantity
  blockCount : Quantity
  firstBlockHash : Option Hex
  lastBlockHash : Option Hex
  deriving DecidableEq, Repr

/-- A block a settlement names. -/
structure RawBlock where
  number : Quantity
  hash : Option Hex
  deriving DecidableEq, Repr

structure RawSettlement where
  canonicalL2 : Bool
  l1BlockNumber : Quantity
  l1BlockHash : Option Hex
  l1TransactionIndex : Quantity
  l1TransactionHash : Option Hex
  l2Range : Option RawRange
  l2Blocks : List RawBlock
  matchedL2Block : Option RawBlock
  deriving DecidableEq, Repr

/-- What `validateSettlement` returns. -/
structure SettledRange where
  l1BlockNumber : ℕ
  l1TransactionHash : Hex
  firstL2Block : ℕ
  lastL2Block : ℕ
  deriving DecidableEq, Repr

/-- Everything the decoder is given: the nodes, the composer's endpoint, and what it knows of the chains. -/
structure Decoder where
  l1 : Reader
  l2 : Reader
  manager : Manager
  managerL2 : Hex
  parseL2 : Hex → Option L2Call
  rollupL2 : Option ℕ
  chainIds : Chain → ℕ
  /-- `eez_getCrossChainTransaction`, and the same once more in the end -/
  record : Hex → Except String Raw
  recordAgain : Hex → Except String Raw
  /-- `eez_getSettlementByL2Block` -/
  settlement : Option Hex → Except String (Option RawSettlement)

/-- A block that a settlement names must be in its range, and named once. -/
def addCheck (first last : ℕ) (checks : List (ℕ × Hex)) (b : RawBlock) (message : String) :
    Except String (List (ℕ × Hex)) := do
  let n ← number b.number
  require (first ≤ n ∧ n ≤ last) message
  match checks.find? fun c ↦ c.1 == n with
  | some c => do
    require (b.hash = some c.2) message
    return checks
  | none =>
    let some hash := b.hash | throw "Noncanonical L2 block hash"
    return checks ++ [(n, hash)]

/-- `validateSettlement`, for a block of L2 -/
def validateSettlement (d : Decoder) (raw : Option RawSettlement) (requested : Option ℕ) (blockHash : Option Hex) :
    Except String SettledRange := do
  let some raw := raw | throw "Settlement does not attest canonical L2 blocks"
  require raw.canonicalL2 "Settlement does not attest canonical L2 blocks"
  let l1Number ← number raw.l1BlockNumber
  let some range := raw.l2Range | throw "Invalid block/index"
  let first ← number range.firstBlockNumber
  let last ← number range.lastBlockNumber
  require (first ≤ last) "Invalid settlement L2 range"
  if range.blockCount ≠ .absent then
    require ((← number range.blockCount) = last - first + 1) "Invalid settlement L2 range"
  require (∀ n ∈ requested, first ≤ n ∧ n ≤ last) "Settlement excludes requested L2 block"
  if blockHash.isSome then
    require ((raw.matchedL2Block.bind RawBlock.hash) = blockHash) "Settlement does not match the requested block hash"
    let n ← number ((raw.matchedL2Block.map RawBlock.number).getD .absent)
    require (requested = some n) "Settlement does not match the requested block hash"
  let some l1 ← d.l1.block l1Number | throw "Noncanonical L1 settlement block hash"
  require (raw.l1BlockHash = some l1.hash) "Noncanonical L1 settlement block hash"
  let index ← number raw.l1TransactionIndex
  let some item := l1.transactions[index]? | throw "Settlement transaction inclusion/index mismatch"
  require (raw.l1TransactionHash = some item.hash) "Settlement transaction inclusion/index mismatch"
  let some firstHash := range.firstBlockHash | throw "Settlement is missing range boundary hashes"
  let some lastHash := range.lastBlockHash | throw "Settlement is missing range boundary hashes"
  require (first = last → firstHash = lastHash) "Inconsistent single-block settlement boundary hashes"
  let checks ← raw.l2Blocks.foldlM
    (fun checks b ↦ addCheck first last checks b "Inconsistent settlement L2 block list")
    (if first = last then [(first, firstHash)] else [(first, firstHash), (last, lastHash)])
  let checks ← match raw.matchedL2Block with
    | some b => addCheck first last checks b "Inconsistent matched L2 block"
    | none => pure checks
  d.l2.prefetchBlocks (checks.map Prod.fst)
  checks.forM fun c ↦ do
    let block ← d.l2.block c.1
    require (block.map Block.hash = some c.2) "Noncanonical L2 block hash"
  return ⟨l1Number, item.hash, first, last⟩

/-! ## Transactions -/

/-- A record with a transaction and a receipt that belong to it. -/
structure Included where
  record : Record
  blockNumber : ℕ
  blockHash : Hex
  transaction : Tx
  receipt : Receipt
  deriving DecidableEq, Repr

/-- `checkInclusion` -/
def checkInclusion (record : Option Record) (chainId : ℕ) (hash : Hex) (successful : Bool) :
    Except String Included := do
  let some record := record | throw "Linked transaction unavailable"
  let some tx := record.transaction | throw "Linked transaction unavailable"
  let some receipt := record.receipt | throw "Linked transaction unavailable"
  let some blockHash := record.blockHash | throw "Linked transaction unavailable"
  require (tx.hash = some hash ∧ receipt.transactionHash = some hash)
    "Linked transaction/receipt identity or success mismatch"
  let status ← quantity receipt.status
  require (status ≤ 1 ∧ (successful → status = 1)) "Linked transaction/receipt identity or success mismatch"
  require (tx.blockHash = some blockHash ∧ receipt.blockHash = some blockHash) "Linked block hash mismatch"
  let blockNumber ← quantity tx.blockNumber
  require (record.blockNumber = some blockNumber) "Linked transaction/receipt coordinates mismatch"
  require ((← quantity receipt.blockNumber) = blockNumber) "Linked transaction/receipt coordinates mismatch"
  require ((← quantity tx.transactionIndex) = record.transactionIndex)
    "Linked transaction/receipt coordinates mismatch"
  require ((← quantity receipt.transactionIndex) = record.transactionIndex)
    "Linked transaction/receipt coordinates mismatch"
  if tx.chainId ≠ .absent then require ((← quantity tx.chainId) = chainId) "Linked signed chain ID mismatch"
  receipt.logs.forM fun log ↦ do
    require (!log.removed ∧ log.blockHash = some blockHash ∧ log.transactionHash = some hash)
      "Linked receipt log inclusion mismatch"
    require ((← quantity log.blockNumber) = blockNumber) "Linked receipt log inclusion mismatch"
  return ⟨record, blockNumber, blockHash, tx, receipt⟩

/-- `events(record, manager, name).length`: the logs are sorted by index, so two of them need one. -/
def eventCount (r : Included) (manager : Hex) (name : String) : Except String ℕ := do
  let logs := r.receipt.logs.filter fun l ↦ !l.removed && same l.address (some manager)
  if 1 < logs.length then logs.forM fun l ↦ do discard (quantity l.logIndex)
  return (logs.filter fun l ↦ l.event == some name).length

mutual

/-- `hasManagerCall`, for a batch that is posted and not undone -/
def postsBatch (manager : Manager) (context : Option Hex) : RawCall → Bool
  | .mk type _ target input _ _ error calls =>
    let address := if type.delegate then context else target
    !(error.any (· ≠ "")) &&
      ((match manager.parsed address input with
        | some (.postAndVerifyBatch _) => true
        | _ => false) || anyPostsBatch manager address calls)

def anyPostsBatch (manager : Manager) (context : Option Hex) : List RawCall → Bool
  | [] => false
  | raw :: calls => postsBatch manager context raw || anyPostsBatch manager context calls

end

section Links

variable (d : Decoder)

/-- `readers[chain]` -/
def Decoder.reader : Chain → Reader
  | .l1 => d.l1
  | .l2 => d.l2

/-- `parseCall(protocol.L2, input)?.name` of a transaction to the manager -/
def Decoder.calls (tx : Tx) : Option L2Call := if tx.target = some d.managerL2 then d.parseL2 tx.input else none

/-- `records.get(key)` -/
def getRecord (records : List Included) (chain : Chain) (hash : Hex) : Except String Included :=
  match records.find? fun r ↦ r.record.chain == chain && r.record.hash == hash with
  | some r => .ok r
  | none => .error "Linked transaction unavailable"

/-- The transactions that a link refers to, each read once. -/
def readRecords : List Reference → List Included → Except String (List Included)
  | [], records => .ok records
  | ref :: refs, records =>
    match records.find? fun r ↦ r.record.chain == ref.chain && r.record.hash == ref.hash with
    | some r => do
      discard (checkInclusion (some r.record) (d.chainIds ref.chain) ref.hash true)
      readRecords refs records
    | none => do
      let record ← recover ref.chain (d.reader ref.chain) ref.hash none
      let r ← checkInclusion record (d.chainIds ref.chain) ref.hash true
      readRecords refs (records ++ [r])

/-- `references.find(r => r.role === role)` -/
def Link.find (link : Link) (role : Role) : Except String Reference :=
  match link.references.find? fun r ↦ r.role == role with
  | some r => .ok r
  | none => .error "Missing source or unsupported L1 execution layout"

/-- `validateTransactionLinks`, for a source on L2 -/
def validateTransactionLinks (link : Link) : Except String (List Included) := do
  let records ← readRecords d link.references []
  let source ← getRecord records .l2 link.sourceHash
  require (link.raw.sender.isNone ∨ link.raw.sender = source.transaction.sender) "Linked source sender mismatch"
  if link.raw.nonce ≠ .absent then
    require ((← quantity link.raw.nonce) = (← quantity source.transaction.nonce)) "Linked source nonce mismatch"
  let some l1Reference := link.references.head? | throw "Linked transaction unavailable"
  let l1 ← getRecord records .l1 l1Reference.hash
  match link.raw.ownership.bind Ownership.canonical with
  | some canonical =>
    require (canonical.hash = some l1.blockHash) "Ownership L1 inclusion mismatch"
    if canonical.number ≠ .absent then
      require ((← quantity canonical.number) = l1.blockNumber) "Ownership L1 block number mismatch"
  | none => pure ()
  let post ← getRecord records .l1 (← link.find .l1PostBatch).hash
  require (post.blockNumber = l1.blockNumber ∧ post.record.transactionIndex ≤ l1.record.transactionIndex)
    "Batch post must precede L1 execution in the same block"
  let direct := match d.manager.parsed post.transaction.target post.transaction.input with
    | some (.postAndVerifyBatch _) => true
    | _ => false
  require (direct || (d.l1.trace post.record).any (postsBatch d.manager none))
    "Linked posting transaction does not post an EEZ batch"
  let loader ← getRecord records .l2 (← link.find .l2TableLoad).hash
  require (loader.transaction.target = some d.managerL2 ∧ loader.receipt.target = some d.managerL2)
    "Linked L2 table targets another manager"
  require (d.parseL2 loader.transaction.input = some .loadExecutionTable) "Linked L2 table has the wrong function"
  require (loader.blockHash = source.blockHash ∧ loader.record.transactionIndex < source.record.transactionIndex)
    "L2 loader must precede source in the same block"
  require ((← eventCount loader d.managerL2 "ExecutionTableLoaded") = 1) "Expected one loader event"
  let some block ← d.l2.block source.blockNumber | throw "canonical transaction block unavailable"
  -- no other table was loaded between the two
  (List.range' (loader.record.transactionIndex + 1)
      (source.record.transactionIndex - loader.record.transactionIndex)).forM fun i ↦ do
    let some item := block.transactions[i]? | throw "canonical transaction block unavailable"
    let record ← recover .l2 d.l2 item.hash (some source.blockNumber)
    let r ← checkInclusion record (d.chainIds .l2) item.hash false
    require ((← eventCount r d.managerL2 "ExecutionTableLoaded") = 0) "Intervening L2 table replacement"
  return records

/-! ## Once more in the end -/

/-- What `identity` spells out, but for the references. -/
structure Identity where
  sourceHash : Hex
  direction : Option String
  sender : Option Hex
  nonce : Option ℕ
  basis : Option String
  attemptGeneration : Option ℕ
  state : Option String
  reason : Option String
  replacementHash : Option Hex
  rejection : Option String
  canonical : Option (Hex × Option ℕ)
  deriving DecidableEq, Repr

/-- `value == null ? null : quantity(value)` -/
def optionalQuantity (value : Quantity) : Except String (Option ℕ) :=
  match value with
  | .absent => .ok none
  | value => do return some (← quantity value)

/-- `identity` -/
def identity (link : Link) : Except String Identity := do
  let o := link.raw.ownership
  let canonical ← match o.bind Ownership.canonical with
    | some c => pure (some (← checkHash c.hash, ← optionalQuantity c.number))
    | none => pure none
  return {
    sourceHash := link.sourceHash
    direction := link.raw.direction
    sender := link.raw.sender
    nonce := ← optionalQuantity link.raw.nonce
    basis := link.links.basis
    attemptGeneration := ← optionalQuantity link.links.attemptGeneration
    state := o.bind Ownership.state
    reason := o.bind Ownership.reason
    replacementHash := o.bind Ownership.replacementHash
    rejection := o.bind Ownership.rejection
    canonical }

/-- `recheckTransactionLinks` -/
def recheckTransactionLinks (link : Link) (records : List Included) : Except String Unit := do
  let .complete fresh ← normalizeTransactionLinks d.chainIds (← d.recordAgain link.sourceHash) link.sourceChain
      link.sourceHash
    | throw "Transaction links changed during decoding"
  -- the references are sorted before they are compared
  require ((← identity fresh) = (← identity link) ∧ fresh.references.isPerm link.references)
    "Transaction links changed during decoding"
  records.forM fun r ↦ do
    let block ← (d.reader r.record.chain).fresh r.blockNumber
    require (block.any fun b ↦ b.hash == r.blockHash &&
        (b.transactions[r.record.transactionIndex]?).any fun item ↦ item.hash == r.record.hash)
      "Linked transaction changed canonical inclusion during decoding"

end Links

end TransactionLinks
