import EezDashboard.Codec.Except
import EezDashboard.Links.Posting

/-!
# Records of linked transactions

The composer records which transactions belong to a cross-chain transaction: `normalizeTransactionLinks` reads such a
record, `validateTransactionLinks` compares it with the transactions it names, and `recheckTransactionLinks` reads both
once more in the end.  Only sources on L2 are followed here.  What the nodes and the composer answer is arbitrary.
-/

set_option autoImplicit false

namespace TransactionLinks

open TraceDecoder (Hex Chain RawCall same)

/-- A number as it is reported. -/
inductive Quantity
  | absent
  | invalid
  | inexact
  | exact (n : ℕ)
  deriving DecidableEq, Repr

/-- `require` -/
def require (ok : Prop) [Decidable ok] (message : String) : Except String Unit :=
  if ok then .ok () else .error message

@[simp] theorem require_eq_ok {ok : Prop} [Decidable ok] {message : String} {u : Unit} :
    require ok message = .ok u ↔ ok := by
  rw [require]
  split <;> simp [*]

/-- `quantity` -/
def quantity : Quantity → Except String ℕ
  | .exact n => .ok n
  | .inexact => .error "Inexact link quantity"
  | .absent | .invalid => .error "Invalid link quantity"

/-- `number` -/
def number : Quantity → Except String ℕ
  | .exact n => .ok n
  | .absent | .invalid | .inexact => .error "Invalid block/index"

/-! ## Transactions -/

structure Tx where
  hash : Option Hex
  blockHash : Option Hex
  blockNumber : Quantity
  transactionIndex : Quantity
  sender : Option Hex
  target : Option Hex
  input : Hex
  nonce : Quantity
  chainId : Quantity
  deriving DecidableEq, Repr

/-- A log, with the name of the event it parses to. -/
structure Log where
  address : Option Hex
  removed : Bool
  blockHash : Option Hex
  transactionHash : Option Hex
  blockNumber : Quantity
  logIndex : Quantity
  event : Option String
  deriving DecidableEq, Repr

structure Receipt where
  transactionHash : Option Hex
  blockHash : Option Hex
  blockNumber : Quantity
  transactionIndex : Quantity
  target : Option Hex
  status : Quantity
  logs : List Log
  deriving DecidableEq, Repr

/-- A transaction of a block: its hash, and the transaction where the node sends it along. -/
structure Item where
  hash : Hex
  transaction : Option Tx
  deriving DecidableEq, Repr

structure Block where
  number : ℕ
  hash : Hex
  transactions : List Item
  deriving DecidableEq, Repr

/-- What is known of a transaction. -/
structure Record where
  chain : Chain
  hash : Hex
  transaction : Option Tx
  receipt : Option Receipt
  blockNumber : Option ℕ
  blockHash : Option Hex
  transactionIndex : ℕ
  deriving DecidableEq, Repr

/-- `ChainReader`: what the nodes of one chain answer.  Blocks are cached; `fresh` reads them again. -/
structure Reader where
  transaction : Hex → Option Tx
  receipt : Hex → Option Receipt
  block : ℕ → Except String (Option Block)
  receipts : Block → List Receipt
  prefetchBlocks : List ℕ → Except String Unit
  trace : Record → Option RawCall
  fresh : ℕ → Except String (Option Block)

/-- Whether a block hash that is reported is that of the block. -/
def unlike (reported : Option Hex) (b : Block) : Bool := reported.any (· ≠ b.hash)

/-- Whether an index that is reported is another one. -/
def misplaced (reported : Quantity) (index : ℕ) : Except String Bool :=
  match reported with
  | .absent => .ok false
  | reported => do return decide ((← number reported) ≠ index)

/-- `recover` -/
def recover (chain : Chain) (reader : Reader) (hash : Hex) (hint : Option ℕ) : Except String (Option Record) := do
  let transaction := reader.transaction hash
  let receipt := reader.receipt hash
  let blockNumber ← match hint, receipt.map Receipt.blockNumber, transaction.map Tx.blockNumber with
    | some n, _, _ => pure (some n)
    | none, some (.exact n), _ => pure (some n)
    | none, none, some (.exact n) | none, some .absent, some (.exact n) => pure (some n)
    | none, none, none | none, some .absent, none | none, none, some .absent | none, some .absent, some .absent =>
      pure none
    | _, _, _ => throw "invalid BigNumberish value"
  match blockNumber with
  | some n =>
    let some block ← reader.block n | throw "canonical transaction block unavailable"
    let some index := block.transactions.findIdx? fun item ↦ item.hash == hash
      | throw "transaction is not included in the canonical block"
    require (!((transaction.any fun t ↦ unlike t.blockHash block) || (receipt.any fun r ↦ unlike r.blockHash block)))
      "transaction is not included in the canonical block"
    let transaction := transaction.or ((block.transactions[index]?.bind Item.transaction).map fun t ↦
      { t with
        blockHash := some block.hash, blockNumber := .exact block.number, transactionIndex := .exact index })
    let receipt := receipt.or ((reader.receipts block).find? fun r ↦ same r.transactionHash (some hash))
    require (!(receipt.any fun r ↦ unlike r.blockHash block))
      "recovered transaction/receipt disagrees with canonical inclusion"
    let receiptMisplaced ← misplaced ((receipt.map Receipt.transactionIndex).getD .absent) index
    let transactionMisplaced ← misplaced ((transaction.map Tx.transactionIndex).getD .absent) index
    require (!(receiptMisplaced || transactionMisplaced))
      "recovered transaction/receipt disagrees with canonical inclusion"
    if transaction.isNone && receipt.isNone then return none
    return some ⟨chain, hash, transaction, receipt, some block.number, some block.hash, index⟩
  | none =>
    if transaction.isNone && receipt.isNone then return none
    let index ← match (transaction.map Tx.transactionIndex).getD .absent,
        (receipt.map Receipt.transactionIndex).getD .absent with
      | .absent, .absent => pure 0
      | .absent, index | index, _ => number index
    return some ⟨chain, hash, transaction, receipt, none, none, index⟩

/-! ## Links -/

/-- A transaction as a record refers to it; without a hash where it is not one. -/
structure RawReference where
  chainId : Quantity
  hash : Option Hex
  deriving DecidableEq, Repr

/-- The `transactions` of a record. -/
structure RawLinks where
  complete : Bool
  l1 : Option RawReference
  postBatch : Option RawReference
  l2 : Option (List (Option RawReference))
  basis : Option String
  attemptGeneration : Quantity
  deriving DecidableEq, Repr

structure Canonical where
  hash : Option Hex
  number : Quantity
  deriving DecidableEq, Repr

structure Ownership where
  state : Option String
  reason : Option String
  replacementHash : Option Hex
  rejection : Option String
  canonical : Option Canonical
  deriving DecidableEq, Repr

/-- A cross-chain transaction record.  An older record has no `transactions`; others have some that are not links. -/
structure RawRecord where
  hash : Option Hex
  direction : Option String
  sender : Option Hex
  nonce : Quantity
  ownership : Option Ownership
  transactions : Option (Option RawLinks)
  deriving DecidableEq, Repr

/-- What the composer answers. -/
inductive Raw
  | null
  | invalid
  | record (raw : RawRecord)
  deriving DecidableEq, Repr

inductive Role
  | source
  | l1Execution
  | l1PostBatch
  | l2Delivery
  | l2TableLoad
  deriving DecidableEq, Repr

structure Reference where
  chain : Chain
  hash : Hex
  role : Role
  deriving DecidableEq, Repr

structure Link where
  sourceChain : Chain
  sourceHash : Hex
  references : List Reference
  raw : RawRecord
  links : RawLinks
  deriving DecidableEq, Repr

inductive LinkState
  | pending
  | legacy
  | complete (link : Link)
  deriving DecidableEq, Repr

/-- `hash` -/
def checkHash (hash : Option Hex) : Except String Hex :=
  match hash with
  | some hash => .ok hash
  | none => .error "Invalid transaction link hash"

section Normalize

variable (chainIds : Chain → ℕ)

/-- `reference` -/
def reference (value : Option RawReference) (chain : Chain) (role : Role) : Except String Reference :=
  match value with
  | none => .error "Transaction link chain ID mismatch"
  | some value => do
    require ((← quantity value.chainId) = chainIds chain) "Transaction link chain ID mismatch"
    return ⟨chain, ← checkHash value.hash, role⟩

/-- `normalizeTransactionLinks` -/
def normalizeTransactionLinks (raw : Raw) (chain : Chain) (hash : Hex) : Except String LinkState :=
  match raw with
  | .null => .ok .pending
  | .invalid => .error "Invalid cross-chain transaction record"
  | .record raw => do
    require (raw.hash = some hash ∧ raw.direction = some (if chain = .l1 then "inbound" else "outbound"))
      "Cross-chain source identity/direction mismatch"
    require ((raw.ownership.bind Ownership.rejection).isNone) "Cross-chain transaction was rejected"
    match raw.transactions with
    | none => return .legacy
    | some none => throw "Invalid transaction links completeness"
    | some (some t) =>
      if !t.complete then return .pending
      let l1 ← reference chainIds t.l1 .l1 (if chain = .l1 then .source else .l1Execution)
      let post ← reference chainIds t.postBatch .l1 .l1PostBatch
      let some rows := t.l2 | throw "Missing L2 transaction links"
      let l2 ← rows.mapM fun r ↦ reference chainIds r .l2
        (if chain = .l1 then .l2Delivery else if r.bind RawReference.hash = some hash then .source else .l2TableLoad)
      require ((l2.map Reference.hash).Nodup) "Duplicate L2 transaction links"
      require (if chain = .l1 then l1.hash = hash else l1.hash = post.hash ∧ ∃ r ∈ l2, r.role = .source)
        "Missing source or unsupported L1 execution layout"
      require (chain = .l1 ∨ (l2.filter fun r ↦ r.role = .l2TableLoad).length = 1) "Expected one L2 table loader"
      return .complete ⟨chain, hash, l1 :: post :: l2, raw, t⟩

end Normalize

end TransactionLinks
