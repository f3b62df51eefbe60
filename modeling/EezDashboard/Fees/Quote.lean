import EezDashboard.Codec.Except
import EezDashboard.Js.Hex
import EezDashboard.Js.Json

/-!
# Quoted fees

A server quotes the fee of a transaction and fills in what the caller left open; the app accepts one option of
the quote and asks the wallet to send the transaction with it.  Quote, transaction, type, chain and clock are
values of any shape; `keccak256` is injected.
-/

set_option autoImplicit false

namespace Fees

open Js

/-! ## Quantities -/

/-- `quantity` -/
def quantity (value : Option Json) : Except String ℕ :=
  match (string? value).bind fun s ↦ (hexDigits? s).map fun ds ↦ (s, ds) with
  | some (s, ds) =>
    if (ds = ['0'] ∨ ds ≠ [] ∧ ds.head? ≠ some '0') ∧ s.length ≤ 66 then .ok (hexValue ds)
    else .error "Expected a canonical hex quantity"
  | none => .error "Expected a canonical hex quantity"

/-- `walletQuantity` -/
def walletQuantity (value : Option Json) (name : String) : Except String ℕ :=
  let invalid := "Invalid wallet " ++ name ++ ": expected a hex quantity or non-negative safe integer"
  match value with
  | some (.str s) =>
    match hexDigits? s with
    | some ds => if 1 ≤ ds.length ∧ ds.length ≤ 64 then .ok (hexValue ds) else .error invalid
    | none => .error invalid
  | value =>
    match safeInteger? value with
    | some n => if 0 ≤ n then .ok n.toNat else .error invalid
    | none => .error invalid

/-! ## Transactions -/

inductive Key
  | type
  | chainId
  | sender
  | to_
  | nonce
  | gas
  | value
  | data
  deriving DecidableEq, Repr

def Key.name : Key → String
  | .type => "type"
  | .chainId => "chainId"
  | .sender => "from"
  | .to_ => "to"
  | .nonce => "nonce"
  | .gas => "gas"
  | .value => "value"
  | .data => "data"

def transactionKeys : List Key := [.type, .chainId, .sender, .to_, .nonce, .gas, .value, .data]

/-- `quantityKeys.includes(key)` -/
def Key.isQuantity : Key → Bool
  | .type | .chainId | .nonce | .gas | .value => true
  | .sender | .to_ | .data => false

/-- The transaction that everything is compared with: its eight fields, all of them texts. -/
structure Tx where
  type : String
  chainId : String
  sender : String
  to_ : String
  nonce : String
  gas : String
  value : String
  data : String
  deriving DecidableEq, Repr

def Tx.get (tx : Tx) : Key → String
  | .type => tx.type
  | .chainId => tx.chainId
  | .sender => tx.sender
  | .to_ => tx.to_
  | .nonce => tx.nonce
  | .gas => tx.gas
  | .value => tx.value
  | .data => tx.data

/-- The fields of a transaction object, seen from outside. -/
def Tx.fields (tx : Tx) (key : Key) : Option Json := some (.str (tx.get key))

/-- `exactKeys` -/
def exactKeys (value : Option Json) (keys : List String) : Except String Unit :=
  raiseIf (¬truthy value ∨ (value.bind Json.items?).isSome ∨
    (value.map Json.entries).any (fun entries ↦ entries.length ≠ keys.length) ∨
    keys.any fun key ↦ (get value key).isNone) "Unexpected transaction fields"

/-- `/^0x(?:[0-9a-f]{2})*$/i`, and at most 64 KiB -/
def isCalldata (s : String) : Bool :=
  ((hexDigits? s).any fun ds ↦ ds.length % 2 = 0) && s.length ≤ 2 + 2 * 64 * 1024

/-- `validateTransaction`, of an object that has no other fields. -/
def validateTransaction (fields : Key → Option Json) : Except String Unit := do
  raiseIf (transactionKeys.any fun key ↦ (fields key).isNone) "Unexpected transaction fields"
  let type ← quantity (fields .type)
  let chainId ← quantity (fields .chainId)
  let _ ← quantity (fields .nonce)
  let gas ← quantity (fields .gas)
  let _ ← quantity (fields .value)
  raiseIf (type ∉ [0, 2] ∨ chainId = 0) "Expected a legacy or type-2 chain-specific transaction"
  raiseIf (¬hexOfLength 40 (text (fields .sender))) "Invalid address"
  raiseIf (¬hexOfLength 40 (text (fields .to_))) "Invalid address"
  raiseIf (¬(string? (fields .data)).any isCalldata) "Invalid calldata"
  raiseIf (gas < 21000 ∨ gas > 16777216) "Gas outside quote profile"

/-- What is sent when the caller says nothing. -/
def defaultOf : Key → Option Json
  | .type => some (.str "0x2")
  | .chainId => some (.str "0x1")
  | .nonce => some (.str "0x0")
  | .gas => some (.str "0x1000000")
  | .value => some (.str "0x0")
  | .data => some (.str "0x")
  | .sender | .to_ => none

/-- What the caller says, or the default. -/
def supplied (transaction : Option Json) (key : Key) : Option Json :=
  (get transaction key.name).or (defaultOf key)

/-- A normalized field: a quantity without leading zeros, or a text in lower case. -/
def normalField (fields : Key → Option Json) (key : Key) : Except String String :=
  if key.isQuantity then (quantity (fields key)).map toHex
  else match string? (fields key) with
    | some s => .ok (lowerCase s)
    | none => .error "value.toLowerCase is not a function"

/-- `normalizeTransaction` -/
def normalizeTransaction (transaction : Option Json) : Except String Tx := do
  raiseIf (¬truthy transaction ∨ (transaction.bind Json.items?).isSome ∨
    (transaction.map Json.entries).any fun entries ↦
      entries.any fun (name, _) ↦ !(transactionKeys.map Key.name).contains name) "Unexpected transaction fields"
  let fields := supplied transaction
  validateTransaction fields
  let type ← normalField fields .type
  let chainId ← normalField fields .chainId
  let sender ← normalField fields .sender
  let to_ ← normalField fields .to_
  let nonce ← normalField fields .nonce
  let gas ← normalField fields .gas
  let value ← normalField fields .value
  let data ← normalField fields .data
  return { type, chainId, sender, to_, nonce, gas, value, data }

/-- `JSON.stringify` of the eight fields in the order of their names; none of them needs an escape. -/
def canonical (tx : Tx) : String :=
  let keys := transactionKeys.mergeSort fun a b ↦ decide (a.name ≤ b.name)
  let quoted (s : String) := "\"" ++ s ++ "\""
  "\x7b" ++ ",".intercalate (keys.map fun key ↦ quoted key.name ++ ":" ++ quoted (tx.get key)) ++ "\x7d"

/-! ## Quotes -/

/-- What a quote is checked against; `maxTotalFee` is a bigint and `keccak256` a function. -/
structure QuoteArgs where
  quote : Option Json
  transaction : Option Json
  type : Option Json
  chainId : Option Json
  keccak256 : String → String
  maxTotalFee : ℤ

/-- The transaction with the fee fields of the option. -/
structure Quoted where
  tx : Tx
  fees : List (String × Option Json)
  deriving DecidableEq

def Quoted.fee (quoted : Quoted) (key : String) : Option Json := (quoted.fees.lookup key).join

def quoteTypes : List String := ["0x0", "0x2"]

/-- `feeKeys`, of one of the two types -/
def feeKeys (type : String) : List String :=
  if type = "0x0" then ["gasPrice"] else ["maxPriorityFeePerGas", "maxFeePerGas"]

/-- The field that bounds the price of gas. -/
def capKey (type : String) : String := if type = "0x0" then "gasPrice" else "maxFeePerGas"

/-- `value && quantity(value) !== n`, or rather that it does not hold. -/
def unchanged (value : Option Json) (n : ℕ) : Except String Bool :=
  if truthy value then (quantity value).map fun m ↦ decide (m = n) else .ok true

/-- What the server resolves, which must be what the caller supplied. -/
def resolve (name : String) (value resolved : Option Json) : Except String ℕ := do
  let n ← quantity resolved
  if value = none ∨ value = some .null then return n
  let m ← quantity value
  raiseIf (m ≠ n) ("Quote changed " ++ name)
  return n

/-- What a type-2 transaction pays for its place; a legacy one has no such field. -/
def priorityOf (type : String) (option : Option Json) : Except String ℕ :=
  if type = "0x2" then quantity (get option "maxPriorityFeePerGas") else .ok 0

/-- `quote.options.find(option => option.type === type)` -/
def optionOf (args : QuoteArgs) : Option Json :=
  (((get args.quote "options").bind Json.items?).getD []).find? fun option ↦ get (some option) "type" = args.type

/-- What `feeQuoteTransaction` checks first: the caller's transaction, which it normalizes, and the quote.  The
chain is that which the app expects. -/
def checkQuote (args : QuoteArgs) (now : Option Json) : Except String (Tx × ℕ) := do
  let normalized ← normalizeTransaction args.transaction
  raiseIf (get args.quote "version" ≠ some (.num 1)) "Unsupported fee quote"
  raiseIf (args.maxTotalFee < 0) "A bigint maxTotalFee is required"
  let chainId ← quantity args.chainId
  let quotedChain ← quantity (get args.quote "chainId")
  let sameChain ← unchanged (get args.transaction "chainId") chainId
  raiseIf (chainId ≠ quotedChain ∨ ¬sameChain) "Quote chain mismatch"
  let expiresAt ← quantity (get args.quote "expiresAt")
  raiseIf (¬(safeInteger? now).any fun now ↦
    decide (now < (expiresAt * 1000 : ℤ) ∧ (expiresAt * 1000 : ℤ) ≤ now + 31000)) "Quote expired or invalid clock"
  raiseIf (¬(string? args.type).any fun type ↦ quoteTypes.contains type) "Quote type mismatch"
  let requested ← quantity args.type
  let sameType ← unchanged (get args.transaction "type") requested
  raiseIf (¬sameType) "Quote type mismatch"
  raiseIf (¬((get args.quote "options").bind Json.items?).any fun options ↦
    let types := options.map fun option ↦ get (some option) "type"
    decide (1 ≤ options.length ∧ options.length ≤ 2 ∧ types.Nodup) &&
      types.all fun type ↦ (string? type).any fun type ↦ quoteTypes.contains type) "Invalid quote options"
  return (normalized, chainId)

/-- What it does next: fill in what the server resolved, and compare the hash of all of it. -/
def bindOption (args : QuoteArgs) (normalized : Tx) (chainId : ℕ) : Except String Tx := do
  let option := optionOf args
  let type := text args.type
  raiseIf (option = none ∨ truthy (get option "error"))
    ("Fee option unavailable: " ++ text (some (orElse (get (get option "error") "code") (.str "missing"))))
  exactKeys option (["type", "gas", "requestHash", "estimatedFee"] ++ feeKeys type)
  let gas ← resolve "gas" (get args.transaction "gas") (get option "gas")
  let nonce ← resolve "nonce" (get args.transaction "nonce") (get args.quote "nonce")
  let tx : Tx := { normalized with gas := toHex gas, nonce := toHex nonce, type, chainId := toHex chainId }
  validateTransaction tx.fields
  let nonce ← quantity (tx.fields .nonce)
  let chainId ← quantity (tx.fields .chainId)
  raiseIf (nonce > 2 ^ 64 - 1 ∨ chainId > 2 ^ 64 - 1) "Quantity exceeds u64"
  raiseIf (¬(string? (get option "requestHash")).any fun hash ↦
    hexOfLength 64 hash && decide (lowerCase (args.keccak256 (canonical tx)) = lowerCase hash))
    "Quote transaction binding mismatch"
  return tx

/-- What it does last: check the fee and add its fields. -/
def priceOption (args : QuoteArgs) (tx : Tx) : Except String Quoted := do
  let option := optionOf args
  let type := text args.type
  let cap ← quantity (get option (capKey type))
  let priority ← priorityOf type option
  raiseIf (cap > 2 ^ 128 - 1 ∨ priority > cap) "Invalid fee fields"
  let gas ← quantity (get option "gas")
  let estimatedFee ← quantity (get option "estimatedFee")
  raiseIf (estimatedFee > gas * cap) "Inconsistent estimated fee"
  raiseIf ((gas * cap : ℤ) > args.maxTotalFee) "Quoted maximum fee exceeds app limit"
  return { tx, fees := (feeKeys type).map fun key ↦ (key, get option key) }

/-- `feeQuoteTransaction` -/
def feeQuoteTransaction (args : QuoteArgs) (now : Option Json) : Except String Quoted := do
  let (normalized, chainId) ← checkQuote args now
  let tx ← bindOption args normalized chainId
  priceOption args tx

/-! ## Sending -/

/-- What the wallet is asked for. -/
inductive WalletRequest
  | chainId
  | accounts
  | transactionCount (address : String)
  | sendTransaction (transaction : Quoted)
  deriving DecidableEq

/-- What must still hold of the wallet. -/
def checkWallet (wallet : WalletRequest → Except String Json) (tx : Tx) : Except String Unit := do
  let chain ← wallet .chainId
  let accounts ← wallet .accounts
  let nonce ← wallet (.transactionCount tx.sender)
  let walletChain ← walletQuantity (some chain) "chain ID"
  let chainId ← quantity (tx.fields .chainId)
  raiseIf (walletChain ≠ chainId) "Wallet is on a different chain"
  raiseIf (¬accounts.items?.any fun accounts ↦ accounts.any fun account ↦
    (string? (some account)).any fun account ↦ lowerCase account = tx.sender) "Wallet account changed"
  let walletNonce ← walletQuantity (some nonce) "pending nonce"
  let nonce ← quantity (tx.fields .nonce)
  raiseIf (walletNonce ≠ nonce) "Wallet nonce changed; request a new quote"

/-- `sendFeeQuotedTransaction`: what it asks the wallet for, and how it ends.  The clock is read twice. -/
def sendFeeQuotedTransaction (wallet : WalletRequest → Except String Json) (args : QuoteArgs)
    (now now' : Option Json) : List WalletRequest × Except String Json :=
  match feeQuoteTransaction args now with
  | .error e => ([], .error e)
  | .ok quoted =>
    let asked := [.chainId, .accounts, .transactionCount quoted.tx.sender]
    match checkWallet wallet quoted.tx with
    | .error e => (asked, .error e)
    | .ok _ =>
      match feeQuoteTransaction args now' with
      | .error e => (asked, .error e)
      | .ok quoted => (asked ++ [.sendTransaction quoted], wallet (.sendTransaction quoted))

end Fees
