import EezDashboard.Blob.Wire
import EezDashboard.Codec.RunLength

/-!
# The direct operations format

`_decode_direct_operations` of `src/monitor/blob_decoder.py`: a block count, a column of
transaction counts per block, a column of beneficiaries, a column of extra data, a column of
transaction lengths, and the transactions themselves.  The first three columns are run-length
encoded and are never expanded by the decoder, so that four billion empty blocks stay one run.

There is one definition for each loop of the source; a loop whose rounds each take at least a byte
is given the length of the payload as fuel.
-/

set_option autoImplicit false

open Codec

namespace BlobDecoder

/-! ## The decoder -/

/-- The record of a run: where it starts, how many blocks it covers, and their common value. -/
structure ColumnRun (α : Type) where
  position : ℕ
  blocks : ℕ
  value : α
  deriving DecidableEq, Repr

/-- What `_decode_direct_operations` returns, less the constants `tag`, `format` and the `None`
fields that stand for what this format does not carry. -/
structure DirectV0 where
  bytes : ℕ
  blockCount : ℕ
  countRuns : List (ColumnRun ℕ)
  implicitEmptyBlockCount : ℕ
  beneficiaryRuns : List (ColumnRun String)
  extraDataRuns : List (ColumnRun String)
  transactionCount : ℕ
  transactionBytes : List ℕ
  deriving DecidableEq, Repr

/-- `number()`: a base-128 number that does not end in a wasted byte. -/
def number (payload : Bytes) (position : ℕ) : Decoded (ℕ × ℕ) := do
  let start := position
  let (value, position) ← varint payload position
  raiseIf (position - start > 1 ∧ payload.getD (position - 1) 0 = 0)
    "non-canonical operations u32 varint"
  return (value, position)

/-- `take(1, field)[0]`. -/
def takeByte (payload : Bytes) (position : ℕ) (field : String) : Decoded (ℕ × ℕ) := do
  let (raw, position) ← fixed payload position 1 field
  return ((raw.getD 0 0).toNat, position)

/-- One token of the transaction-count column: how many blocks, and how many transactions each. -/
def countToken (payload : Bytes) (position : ℕ) : Decoded ((ℕ × ℕ) × ℕ) := do
  let (token, position) ← takeByte payload position "transaction-count token"
  if token = 0 then return ((1, 0), position)
  else if token < 128 then return ((1, token), position)
  else if token < 192 then do
    let (low, position) ← takeByte payload position "transaction-count token"
    let txs := ((token &&& 63) <<< 8) ||| low
    raiseIf (txs < 128) "non-canonical two-byte transaction count"
    return ((1, txs), position)
  else if token < 255 then return ((token - 192 + 2, 0), position)
  else do
    let (blocks, position) ← number payload position
    raiseIf (blocks < 65) "non-canonical extended empty run"
    return ((blocks, 0), position)

/-- The variables of the transaction-count loop. -/
structure CountState where
  covered : ℕ := 0
  transactions : ℕ := 0
  emptyBlocks : ℕ := 0
  previousEmpty : Bool := false
  runs : List (ColumnRun ℕ) := []
  deriving DecidableEq, Repr

def CountState.append (st : CountState) (blocks txs : ℕ) : CountState where
  covered := st.covered + blocks
  transactions := st.transactions + txs
  emptyBlocks := st.emptyBlocks + if txs = 0 then blocks else 0
  previousEmpty := txs = 0
  runs := st.runs ++ [⟨st.covered, blocks, txs⟩]

/-- `while covered < count` over the transaction-count column. -/
def countLoop (payload : Bytes) (count : ℕ) : ℕ → ℕ → CountState → Decoded (CountState × ℕ)
  | 0, _, _ => .error "transaction-count token is truncated"
  | fuel + 1, position, st =>
    if st.covered < count then do
      let ((blocks, txs), position) ← countToken payload position
      raiseIf (txs = 0 ∧ st.previousEmpty = true) "adjacent empty count runs must be merged"
      raiseIf (st.covered + blocks > count) "transaction-count coverage exceeds block count"
      countLoop payload count fuel position (st.append blocks txs)
    else return (st, position)

/-- The variables of the loop of `metadata`. -/
structure MetadataState where
  covered : ℕ := 0
  previous : Option Bytes := none
  result : List (ColumnRun String) := []
  deriving DecidableEq, Repr

def MetadataState.append (st : MetadataState) (blocks : ℕ) (value : Bytes) : MetadataState where
  covered := st.covered + blocks
  previous := some value
  result := st.result ++ [⟨st.covered, blocks, "0x" ++ hex value⟩]

/-- The value of one metadata run: 20 bytes, or a length of at most 32 and that many bytes. -/
def metadataValue (payload : Bytes) (isVariable : Bool) (position : ℕ) : Decoded (Bytes × ℕ) :=
  if isVariable then do
    let (size, position) ← takeByte payload position "extraData length"
    raiseIf (size > 32) "extraData exceeds 32 bytes"
    fixed payload position size "extraData"
  else
    fixed payload position 20 "beneficiary"

/-- `metadata(variable)`: the loop over one metadata column. -/
def metadataLoop (payload : Bytes) (count : ℕ) (isVariable : Bool) :
    ℕ → ℕ → MetadataState → Decoded (MetadataState × ℕ)
  | 0, _, _ => .error "blob message stream is truncated"
  | fuel + 1, position, st =>
    if st.covered < count then do
      let (blocks, position) ← number payload position
      raiseIf (blocks = 0 ∨ st.covered + blocks > count)
        "metadata runs must be positive and cover every block"
      let (value, position) ← metadataValue payload isVariable position
      raiseIf (some value = st.previous) "adjacent equal metadata runs must be merged"
      metadataLoop payload count isVariable fuel position (st.append blocks value)
    else return (st, position)

def metadata (payload : Bytes) (count : ℕ) (isVariable : Bool) (position : ℕ) :
    Decoded (List (ColumnRun String) × ℕ) := do
  let (st, position) ← metadataLoop payload count isVariable (payload.length + 1) position {}
  return (st.result, position)

/-- The transaction lengths. -/
def sizesLoop (payload : Bytes) : ℕ → ℕ → Decoded (List ℕ × ℕ)
  | 0, position => return ([], position)
  | left + 1, position => do
    let (size, position) ← number payload position
    raiseIf (size = 0) "transaction length must be positive"
    let (sizes, position) ← sizesLoop payload left position
    return (size :: sizes, position)

/-- The types of the envelopes that hold an RLP list behind one byte. -/
def isTyped (raw : Bytes) : Bool := [1, 2, 4].contains (raw.getD 0 0).toNat

/-- The bytes of a transaction that have to be a list. -/
def envelopeBody (raw : Bytes) : Bytes := if isTyped raw then raw.drop 1 else raw

/-- What is checked of one transaction. -/
def checkTransaction (raw : Bytes) : Decoded PUnit := do
  let lead := (raw.getD 0 0).toNat
  raiseIf (lead = 3 ∨ lead = 0x76)
    "blob and native transactions cannot appear in the pure L2 column"
  raiseIf (isTyped raw = false ∧ lead < 192) "unsupported pure L2 transaction envelope"
  let (root, budget) ← decodeRlpExact (envelopeBody raw)
  (validateList (maxRlpDepth + 1) root).run' budget

/-- The transactions themselves. -/
def transactionsLoop (payload : Bytes) : List ℕ → ℕ → Decoded ℕ
  | [], position => return position
  | size :: sizes, position => do
    let (raw, position) ← fixed payload position size "pure L2 transaction"
    checkTransaction raw
    transactionsLoop payload sizes position

def decodeDirectOperations (payload : Bytes) : Decoded DirectV0 := do
  let (count, position) ← number payload 1
  raiseIf (count = 0) "direct operations must cover at least one block"
  let (st, position) ← countLoop payload count (payload.length + 1) position {}
  let (beneficiaries, position) ← metadata payload count false position
  let (extraData, position) ← metadata payload count true position
  raiseIf (st.transactions > (payload.length - position) / 2)
    "pure L2 transaction count exceeds remaining-byte bound"
  let (sizes, position) ← sizesLoop payload st.transactions position
  raiseIf (sizes.sum ≠ payload.length - position)
    "transaction lengths do not match remaining operations bytes"
  let _ ← transactionsLoop payload sizes position
  return {
    bytes := payload.length
    blockCount := count
    countRuns := st.runs
    implicitEmptyBlockCount := st.emptyBlocks
    beneficiaryRuns := beneficiaries
    extraDataRuns := extraData
    transactionCount := st.transactions
    transactionBytes := sizes }

end BlobDecoder
