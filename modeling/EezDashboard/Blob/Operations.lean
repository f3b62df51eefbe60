import Mathlib
import EezDashboard.Blob.Direct

/-!
# The payload of a `ChainOperation`

`decode_operations` of `src/monitor/blob_decoder.py`.  The first byte of the payload is a tag.  Tags
1, 2 and 3 stand in front of an RLP list of fields; tag 0 is the direct format, and only when that
is refused and an RLP list follows it, the historical envelope that used to have this tag.

The reader is the lazy one of `BlobDecoder.rlpItem`, and fields are read in the order in which the
source reads them, because all of them are paid from the budget of one root.  An encoded block is a
root of its own.
-/

set_option autoImplicit false

namespace BlobDecoder

/-! ## Fields -/

/-- `_as_list`: the children of a list, none of them read any further. -/
def asList (value : RlpValue) (field : String) : RlpM (List RlpValue) :=
  iterList value field [] fun acc child ↦ return acc ++ [child]

def asBytes (value : RlpValue) (field : String) : Decoded Bytes :=
  match value with
  | .bytes w => return w
  | .list _ => throw s!"{field} must be an RLP byte string"

def integer (value : RlpValue) (field : String) (maximum : Option ℕ := none) : Decoded ℕ := do
  let raw ← asBytes value field
  raiseIf (raw.head? = some 0) s!"{field} is a non-canonical integer"
  let number := Codec.ofBig raw
  match maximum with
  | some maximum => raiseIf (number > maximum) s!"{field} exceeds {maximum}"
  | none => pure ⟨⟩
  return number

/-- A byte string, or a list of integers that are each a byte. -/
def asByteVector (value : RlpValue) (field : String) : RlpM Bytes :=
  match value with
  | .bytes w => return w
  | .list l => iterList (.list l) field [] fun output item ↦ do
    let byte ← integer item s!"{field}[{output.length}]" (some 255)
    return output ++ [UInt8.ofNat byte]

def byteList (value : RlpValue) (field : String) : RlpM (List Bytes) := do
  let items ← asList value field
  items.zipIdx.mapM fun (item, index) ↦ asByteVector item s!"{field}[{index}]"

def integerList (value : RlpValue) (field : String) (maximum : ℕ) : RlpM (List ℕ) := do
  let items ← asList value field
  items.zipIdx.mapM fun (item, index) ↦ integer item s!"{field}[{index}]" (some maximum)

def hexField (header : List RlpValue) (index : ℕ) (field : String) (expected : ℕ) :
    Decoded String := do
  let raw ← asBytes (header.getD index (.bytes [])) field
  raiseIf (raw.length ≠ expected) s!"{field} must contain {expected} bytes"
  return "0x" ++ hex raw

/-- `_fixed_list`: exactly `size` children, and not one more read. -/
def fixedList (value : RlpValue) (field : String) (size : ℕ) : RlpM (List RlpValue) := do
  let result ← iterList value field [] fun result item ↦ do
    raiseIf (result.length = size) s!"{field} must contain {size} fields"
    return result ++ [item]
  raiseIf (result.length ≠ size) s!"{field} must contain {size} fields"
  return result

/-- `_legacy_bytes`: a byte vector that is always spelled as a list of integers. -/
def legacyBytes (value : RlpValue) (field : String) : RlpM Bytes :=
  iterList value field [] fun output item ↦ do
    let byte ← integer item field (some 255)
    return output ++ [UInt8.ofNat byte]

def maxU64 : ℕ := 2 ^ 64 - 1

def maxU16 : ℕ := 2 ^ 16 - 1

/-! ## Blocks -/

structure BlockSummary where
  index : ℕ
  number : ℕ
  parentHash : String
  stateRoot : String
  gasLimit : ℕ
  gasUsed : ℕ
  timestamp : ℕ
  transactionCount : ℕ
  ommerCount : ℕ
  withdrawalCount : Option ℕ
  requestCount : Option ℕ
  rlpBytes : ℕ
  deriving DecidableEq, Repr

/-- `len(_as_list(block[i], field)) if len(block) > i else None`. -/
def optionalLength (block : List RlpValue) (i : ℕ) (field : String) : RlpM (Option ℕ) :=
  match block[i]? with
  | some value => return some (← asList value field).length
  | none => return none

/-- The fields of a block whose root has been found. -/
def blockFields (root : RlpValue) (index rlpBytes : ℕ) : RlpM BlockSummary := do
  let block ← asList root s!"blocks[{index}]"
  raiseIf (block.length < 3) s!"blocks[{index}] has fewer than three body fields"
  let header ← asList (block.getD 0 (.bytes [])) s!"blocks[{index}].header"
  raiseIf (header.length < 12) s!"blocks[{index}].header is truncated"
  let transactions ← asList (block.getD 1 (.bytes [])) s!"blocks[{index}].transactions"
  let ommers ← asList (block.getD 2 (.bytes [])) s!"blocks[{index}].ommers"
  let withdrawals ← optionalLength block 3 s!"blocks[{index}].withdrawals"
  let requests ← optionalLength block 4 s!"blocks[{index}].requests"
  let number ← integer (header.getD 8 (.bytes [])) s!"blocks[{index}].number" (some maxU64)
  let parentHash ← hexField header 0 s!"blocks[{index}].parentHash" 32
  let stateRoot ← hexField header 3 s!"blocks[{index}].stateRoot" 32
  let gasLimit ← integer (header.getD 9 (.bytes [])) s!"blocks[{index}].gasLimit" (some maxU64)
  let gasUsed ← integer (header.getD 10 (.bytes [])) s!"blocks[{index}].gasUsed" (some maxU64)
  let timestamp ← integer (header.getD 11 (.bytes [])) s!"blocks[{index}].timestamp" (some maxU64)
  return {
    index := index
    number := number
    parentHash := parentHash
    stateRoot := stateRoot
    gasLimit := gasLimit
    gasUsed := gasUsed
    timestamp := timestamp
    transactionCount := transactions.length
    ommerCount := ommers.length
    withdrawalCount := withdrawals
    requestCount := requests
    rlpBytes := rlpBytes }

def blockSummary (encoded : Bytes) (index : ℕ) : Decoded BlockSummary := do
  let (root, budget) ← decodeRlpExact encoded
  (blockFields root index encoded.length).run' budget

/-! ## Tag 3 -/

structure Environment where
  timestampStepSeconds : ℕ
  feeRecipient : String
  prevRandao : String
  gasLimit : ℕ
  extraData : String
  parentBeaconBlockRoot : String
  deriving DecidableEq, Repr

def environment (value : RlpValue) : RlpM Environment := do
  let fields ← fixedList value "environment" 6
  let step ← integer (fields.getD 0 (.bytes [])) "timestampStepSeconds" (some maxU64)
  let gas ← integer (fields.getD 3 (.bytes [])) "gasLimit" (some maxU64)
  raiseIf (step = 0 ∨ gas = 0) "environment timestamp step and gas limit must be positive"
  let extra ← asBytes (fields.getD 4 (.bytes [])) "extraData"
  raiseIf (extra.length > 32) "environment extraData exceeds 32 bytes"
  let feeRecipient ← hexField fields 1 "feeRecipient" 20
  let prevRandao ← hexField fields 2 "prevRandao" 32
  let parentBeaconBlockRoot ← hexField fields 5 "parentBeaconBlockRoot" 32
  return {
    timestampStepSeconds := step
    feeRecipient := feeRecipient
    prevRandao := prevRandao
    gasLimit := gas
    extraData := "0x" ++ hex extra
    parentBeaconBlockRoot := parentBeaconBlockRoot }

def transactionSizes (value : RlpValue) : RlpM (List ℕ) :=
  iterList value "transactions" [] fun sizes item ↦ do
    raiseIf (sizes.length = 65535) "transactions exceeds 65535"
    let raw ← asBytes item "transaction"
    raiseIf (raw = []) "transaction bytes must not be empty"
    return sizes ++ [raw.length]

/-- One entry of `records`; a full block has no `transactionBytes`, and only a record of kind 2 has
an `environment`. -/
structure OrdinaryRecord where
  position : ℕ
  number : ℕ
  emptyGap : ℕ
  kind : ℕ
  transactionCount : ℕ
  environment : Option Environment := none
  transactionBytes : Option (List ℕ) := none
  deriving DecidableEq, Repr

/-- The variables of the loop over `ordinaryRecords`. -/
structure RecordState where
  position : ℕ := 0
  active : Environment
  transactionCount : ℕ
  fullCount : ℕ := 0
  blocks : List BlockSummary := []
  records : List OrdinaryRecord := []
  deriving DecidableEq, Repr

/-- What comes of one record: what is listed of it, the block it holds in full if it does, and the
environment from then on. -/
def ordinaryRecord (first position gap kind : ℕ) (data : RlpValue) (active : Environment) :
    RlpM (OrdinaryRecord × Option BlockSummary × Environment) := do
  if kind = 1 then
    let encoded ← asBytes data "fullBlock"
    let block ← blockSummary encoded position
    raiseIf (block.number ≠ first + position) "full block number disagrees with record position"
    raiseIf (block.transactionCount > 65535) "full block transaction count exceeds 65535"
    return ({
      position := position
      number := first + position
      emptyGap := gap
      kind := kind
      transactionCount := block.transactionCount }, some block, active)
  else if kind = 0 then
    let sizes ← transactionSizes data
    raiseIf (sizes = []) "transaction record must contain transactions"
    return ({
      position := position
      number := first + position
      emptyGap := gap
      kind := kind
      transactionCount := sizes.length
      transactionBytes := some sizes }, none, active)
  else if kind = 2 then
    let fields ← fixedList data "environmentChange" 2
    let updated ← environment (fields.getD 0 (.bytes []))
    raiseIf (updated = active) "environment change must change the active environment"
    let sizes ← transactionSizes (fields.getD 1 (.bytes []))
    return ({
      position := position
      number := first + position
      emptyGap := gap
      kind := kind
      transactionCount := sizes.length
      environment := some updated
      transactionBytes := some sizes }, none, updated)
  else throw s!"unsupported record kind {kind}"

/-- The body of the loop over `ordinaryRecords`. -/
def recordStep (first count : ℕ) (st : RecordState) (item : RlpValue) : RlpM RecordState := do
  let fields ← fixedList item "record" 3
  let gap ← integer (fields.getD 0 (.bytes [])) "emptyGap" (some maxU64)
  let position := st.position + gap
  raiseIf (position ≥ count) "record position exceeds ordinary block count"
  let kind ← integer (fields.getD 1 (.bytes [])) "recordKind" (some 255)
  let (record, block, active) ←
    ordinaryRecord first position gap kind (fields.getD 2 (.bytes [])) st.active
  return {
    position := position + 1
    active := active
    transactionCount := st.transactionCount + record.transactionCount
    fullCount := st.fullCount + block.toList.length
    blocks := st.blocks ++ block.toList
    records := st.records ++ [record] }

structure Derivable where
  profileId : ℕ
  bytes : ℕ
  blockCount : ℕ
  ordinaryBlockCount : ℕ
  firstBlockNumber : ℕ
  terminalBlockNumber : ℕ
  derivedBlockCount : ℤ
  implicitEmptyBlockCount : ℤ
  initialEnvironment : Environment
  records : List OrdinaryRecord
  transactionCount : ℕ
  transactionBytes : List ℕ
  l2EntryCount : ℕ
  l2EntryBytes : List ℕ
  outboundGroupSizes : List ℕ
  blocks : List BlockSummary
  deriving DecidableEq, Repr

def decodeDerivable (body : List RlpValue) (payloadSize : ℕ) : RlpM Derivable := do
  raiseIf (body.length ≠ 7) "tag-3 payload must contain seven fields"
  let profile ← integer (body.getD 0 (.bytes [])) "profileId" (some 255)
  raiseIf (profile ≠ 1) s!"unsupported tag-3 profile {profile}"
  let count ← integer (body.getD 1 (.bytes [])) "ordinaryBlockCount" (some 65535)
  let initial ← environment (body.getD 2 (.bytes []))
  let encoded ← legacyBytes (body.getD 4 (.bytes [])) "terminalBlock"
  let terminal ← blockSummary encoded count
  raiseIf (terminal.number ≤ count) "terminal block number must exceed ordinary block count"
  let first := terminal.number - count
  raiseIf (terminal.transactionCount > 65535) "terminal transaction count exceeds 65535"
  let st ← iterList (body.getD 3 (.bytes [])) "ordinaryRecords"
    { active := initial, transactionCount := terminal.transactionCount } (recordStep first count)
  let entries ← iterList (body.getD 5 (.bytes [])) "l2Entries" [] fun entries item ↦ do
    return entries ++ [← legacyBytes item "l2Entry"]
  let groups ← integerList (body.getD 6 (.bytes [])) "outboundGroupSizes" 65535
  return {
    profileId := profile
    bytes := payloadSize
    blockCount := count + 1
    ordinaryBlockCount := count
    firstBlockNumber := first
    terminalBlockNumber := terminal.number
    derivedBlockCount := count - st.fullCount
    implicitEmptyBlockCount := count - st.records.length
    initialEnvironment := initial
    records := st.records
    transactionCount := st.transactionCount
    transactionBytes := st.records.flatMap fun record ↦ record.transactionBytes.getD []
    l2EntryCount := entries.length
    l2EntryBytes := entries.map List.length
    outboundGroupSizes := groups
    blocks := st.blocks ++ [terminal] }

/-! ## Tags 0, 1 and 2 -/

structure Envelope where
  tag : ℕ
  format : String
  bytes : ℕ
  blockCount : ℕ
  blockTxCounts : List ℕ
  transactionCount : ℕ
  transactionBytes : List ℕ
  l2EntryCount : ℕ
  l2EntryBytes : List ℕ
  outboundGroupSizes : List ℕ
  blocks : List BlockSummary
  deriving DecidableEq, Repr

/-- What the three branches set before the common end of `decode_operations`. -/
structure EnvelopeFields where
  format : String
  counts : List ℕ
  transactions : List Bytes
  entries : List Bytes
  groups : List ℕ := []
  blocks : List BlockSummary := []

def legacyCalldata (body : List RlpValue) : RlpM EnvelopeFields := do
  raiseIf (body.length ≠ 3) "tag-0 payload must contain three fields"
  let counts ← integerList (body.getD 0 (.bytes [])) "blockTxCounts" maxU16
  let transactions ← byteList (body.getD 1 (.bytes [])) "transactions"
  let entries ← byteList (body.getD 2 (.bytes [])) "l2Entries"
  return {
    format := "legacy-calldata"
    counts := counts
    transactions := transactions
    entries := entries }

def groupedCalldata (body : List RlpValue) : RlpM EnvelopeFields := do
  raiseIf (body.length ≠ 4) "tag-1 payload must contain four fields"
  let counts ← integerList (body.getD 0 (.bytes [])) "blockTxCounts" maxU16
  let transactions ← byteList (body.getD 1 (.bytes [])) "transactions"
  let entries ← byteList (body.getD 2 (.bytes [])) "l2Entries"
  let groups ← integerList (body.getD 3 (.bytes [])) "outboundGroupSizes" maxU16
  return {
    format := "grouped-calldata"
    counts := counts
    transactions := transactions
    entries := entries
    groups := groups }

def selfContainedBlocks (body : List RlpValue) : RlpM EnvelopeFields := do
  raiseIf (body.length ≠ 3) "tag-2 payload must contain three fields"
  let encodedBlocks ← byteList (body.getD 0 (.bytes [])) "blocks"
  let blocks ← encodedBlocks.zipIdx.mapM fun (encoded, index) ↦ blockSummary encoded index
  let entries ← byteList (body.getD 1 (.bytes [])) "l2Entries"
  let groups ← integerList (body.getD 2 (.bytes [])) "outboundGroupSizes" maxU16
  let numbers := blocks.map BlockSummary.number
  raiseIf ((numbers.zip numbers.tail).any fun (previous, current) ↦ current ≠ previous + 1)
    "self-contained block numbers are not contiguous"
  return {
    format := "self-contained-blocks"
    counts := blocks.map BlockSummary.transactionCount
    transactions := []
    entries := entries
    groups := groups
    blocks := blocks }

/-- `f"{tag:02x}"`. -/
def hexByte (n : ℕ) : String := String.ofList [hexDigit (n / 16), hexDigit (n % 16)]

def envelopeFields (tag : ℕ) (body : List RlpValue) : RlpM EnvelopeFields :=
  if tag = 0 then legacyCalldata body
  else if tag = 1 then groupedCalldata body
  else if tag = 2 then selfContainedBlocks body
  else throw ("unsupported ChainOperation payload tag 0x" ++ hexByte tag)

def decodeEnvelope (tag : ℕ) (body : List RlpValue) (payloadSize : ℕ) : RlpM Envelope := do
  let fields ← envelopeFields tag body
  raiseIf ((tag = 0 ∨ tag = 1) ∧ fields.counts.sum ≠ fields.transactions.length)
    "transaction count does not match the sum of blockTxCounts"
  return {
    tag := tag
    format := fields.format
    bytes := payloadSize
    blockCount := fields.counts.length
    blockTxCounts := fields.counts
    transactionCount := fields.counts.sum
    transactionBytes := fields.transactions.map List.length
    l2EntryCount := fields.entries.length
    l2EntryBytes := fields.entries.map List.length
    outboundGroupSizes := fields.groups
    blocks := fields.blocks }

/-! ## All of them -/

inductive Operations
  | direct (operations : DirectV0)
  | derivable (operations : Derivable)
  | envelope (operations : Envelope)
  deriving DecidableEq, Repr

/-- The payload behind its tag is an RLP list. -/
def decodeTagged (tag : ℕ) (payload : Bytes) : Decoded Operations := do
  let (root, budget) ← decodeRlpExact (payload.drop 1)
  let read : RlpM Operations := do
    let body ← asList root "payload"
    if tag = 3 then return .derivable (← decodeDerivable body payload.length)
    else return .envelope (← decodeEnvelope tag body payload.length)
  read.run' budget

def decodeOperations (payload : Bytes) : Decoded Operations := do
  raiseIf (payload = []) "ChainOperation payload is empty"
  let tag := (payload.getD 0 0).toNat
  if tag = 0 then
    match decodeDirectOperations payload with
    | .ok operations => return .direct operations
    | .error directError =>
      match decodeRlpExact (payload.drop 1) with
      | .ok (.list _, _) => decodeTagged tag payload
      | _ => throw directError
  else decodeTagged tag payload

end BlobDecoder
