import EezDashboard.Remote.Dialogue
import EezDashboard.Setup.Journal

/-!
# Tracking a pending request

`trackPending` of the deployment journals: it looks for the transaction that consumed the nonce of a
saved request, in the last 512 blocks, by a binary search over the sender's transaction counts.  The
node is asked over and over, and its chain may be another one at every question, so the search is a
`Dialogue`; its last question is whether the head is still the one the search started from.

Of the saved state only the pending request is read; the rest is carried along.
-/

set_option autoImplicit false

namespace Tracking

open Js Setup Dialogue

/-! ## Requests -/

inductive Chain
  | l1
  | l2
  deriving DecidableEq, Repr

def Chain.toText : Chain → String
  | .l1 => "l1"
  | .l2 => "l2"

/-- A text that `digest` accepts. -/
abbrev Digest := { s : String // hexOfLength 64 s = true }

/-- `DeploymentPending`, as the journal has checked it: the parts the search reads.  `target` is `to`. -/
structure DeploymentPending where
  chain : Chain
  sender : String
  nonce : String
  data : String
  target : Option String
  hash : Option Digest
  sender_hex : hexOfLength 40 sender = true
  nonce_hex : isHexNumber nonce = true
  target_hex : ∀ a ∈ target, hexOfLength 40 a = true
  deriving DecidableEq

/-- A saved state. -/
structure State (τ : Type) where
  pending : Option DeploymentPending
  rest : τ

/-- What the node is asked. -/
inductive Request
  | getTransactionReceipt (chain : Chain) (hash : String)
  | getBlockByNumber (chain : Chain) (tag : String) (full : Bool)
  | getTransactionCount (chain : Chain) (address tag : String)
  deriving DecidableEq, Repr

/-- `recoveryLookup` -/
structure Lookup where
  key : String
  hash : Option Digest
  deriving DecidableEq

/-- Code that asks the node; an answer may be `undefined`. -/
abbrev TrackM := Dialogue Request (Option Json) String

def RECOVERY_BLOCKS : ℕ := 512

def headUnavailable : String := "The network's current block is unavailable. Automatic tracking will retry."
def historyUnavailable : String :=
  "The network's transaction history is unavailable. Automatic tracking will retry."
def differentTransaction : String :=
  "This wallet nonce was used for a different transaction. Setup has not advanced."

/-! ## Reading answers -/

/-- `digest(value)`, and the text -/
def digest? (value : Option Json) : Option Digest :=
  (string? value).bind fun s ↦ if h : hexOfLength 64 s = true then some ⟨s, h⟩ else none

/-- `BigInt` of a hexadecimal text -/
def numberOf? (s : String) : Option ℕ := ((hexDigits? s).filter (· ≠ [])).map hexValue

/-- `quantity(value)`, and the number -/
def quantity? (value : Option Json) : Option ℕ := (string? value).bind numberOf?

/-- The latest block, if it has a number and a hash: the text of the number, the number, the hash. -/
def headOf (head : Option Json) : Option (String × ℕ × Digest) := do
  let tag ← string? (get head "number")
  let number ← numberOf? tag
  let hash ← digest? (get head "hash")
  return (tag, number, hash)

/-- The transactions of the block that was asked for. -/
def transactionsOf (number : ℕ) (block : Option Json) : Option (List Json) :=
  if quantity? (get block "number") = some number ∧ (digest? (get block "hash")).isSome then
    items (get block "transactions")
  else none

section Track

variable (env : Environment) (keccak256 : String → Digest) (pending : DeploymentPending)

/-- `BigInt(pending.nonce)` -/
def DeploymentPending.number : ℕ := (numberOf? pending.nonce).getD 0

/-- Whether a transaction is the sender's, with the pending nonce. -/
def isConsumer (tx : Json) : Bool :=
  env.isAddress (get (some tx) "from") && same (get (some tx) "from") (some (.str pending.sender)) &&
    quantity? (get (some tx) "nonce") = some pending.number

/-- Whether a transaction has the pending target; a creation has none. -/
def isTarget (tx : Json) : Bool :=
  match pending.target with
  | some target => env.isAddress (get (some tx) "to") && same (get (some tx) "to") (some (.str target))
  | none => get (some tx) "to" = some .null

/-- Whether a transaction has the pending target and data, and no value. -/
def isRequested (tx : Json) : Bool :=
  isTarget env pending tx && same (get (some tx) "input") (some (.str pending.data)) &&
    quantity? (get (some tx) "value") = some 0

/-! ## The search -/

/-- `nonceAt` -/
def nonceAt (number : ℕ) : TrackM ℕ := do
  let value ← request (.getTransactionCount pending.chain pending.sender (toHex number))
  match quantity? value with
  | some count => pure count
  | none => fail historyUnavailable

/-- The loop: `low` precedes the consumption and `high` includes it. -/
def search (low high : ℕ) : TrackM ℕ :=
  if _h : 1 < high - low then do
    let count ← nonceAt pending ((high + low) / 2)
    if count > pending.number then search low ((high + low) / 2)
    else search ((high + low) / 2) high
  else pure high
termination_by high - low

/-- The transaction that consumed the nonce in a block, if the block shows it. -/
def examine (number : ℕ) : TrackM (Option Digest) := do
  let block ← request (.getBlockByNumber pending.chain (toHex number) true)
  match transactionsOf number block with
  | none => fail historyUnavailable
  | some transactions =>
    match transactions.find? (isConsumer env pending) with
    | none => pure none
    | some tx =>
      match digest? (get (some tx) "hash") with
      | none => fail differentTransaction
      | some hash => do
        Dialogue.check (isRequested env pending tx = true) differentTransaction
        pure (some hash)

/-- What is found below a head. -/
def discover (head : ℕ) : TrackM (Option Digest) := do
  let low := if head > RECOVERY_BLOCKS then head - RECOVERY_BLOCKS else 0
  let highCount ← nonceAt pending head
  if highCount > pending.number then do
    let lowCount ← nonceAt pending low
    if lowCount ≤ pending.number then do
      let high ← search pending low head
      examine env pending high
    else pure none
  else pure none

/-- Whether the request is known to be executed. -/
def receipted : TrackM Bool :=
  match pending.hash with
  | none => pure false
  | some hash => do
    let receipt ← request (.getTransactionReceipt pending.chain hash.val)
    pure (truthy receipt)

/-- `parts.join(":")` -/
def join : List String → String
  | [] => ""
  | [part] => part
  | part :: parts => part ++ ":" ++ join parts

/-- The key a lookup is kept under. -/
def lookupKey (head : Digest) : String :=
  join [pending.chain.toText, lowerCase pending.sender, pending.nonce,
    (pending.target.map lowerCase).getD "", (keccak256 pending.data).val, head.val]

variable {τ : Type}

/-- `{ ...state, pending: { ...pending, hash } }`, if there is a hash and it is a new one -/
def record (state : State τ) : Option Digest → State τ
  | none => state
  | some hash =>
    if some hash ≠ pending.hash then { state with pending := some { pending with hash := some hash } }
    else state

/-- `trackPending`, with the lookup that is cached before and after. -/
def trackPending (lookup : Option Lookup) (state : State τ) : TrackM (State τ × Option Lookup) :=
  match state.pending with
  | none => pure (state, lookup)
  | some pending => do
    let known ← receipted pending
    if known = true then pure (state, lookup)
    else do
      let head ← request (.getBlockByNumber pending.chain "latest" false)
      match headOf head with
      | none => fail headUnavailable
      | some (tag, number, hash) =>
        match lookup.filter (·.key = lookupKey keccak256 pending hash) with
        | some found => pure (record pending state found.hash, lookup)
        | none => do
          let found ← discover env pending number
          let current ← request (.getBlockByNumber pending.chain tag false)
          if get current "hash" ≠ some (.str hash.val) then pure (state, lookup)
          else pure (record pending state found, some ⟨lookupKey keccak256 pending hash, found⟩)

/-- One call on a deployment object: a call that fails leaves the cache as it was. -/
def call (answer : ℕ → Request → Except String (Option Json)) (lookup : Option Lookup)
    (state : State τ) : Except String (State τ) × Option Lookup :=
  match (trackPending env keccak256 lookup state).run answer [] with
  | (.ok (state', lookup'), _) => (.ok state', lookup')
  | (.error e, _) => (.error e, lookup)

end Track

end Tracking
