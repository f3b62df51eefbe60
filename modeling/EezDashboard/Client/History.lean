import EezDashboard.Client.Payments
import EezDashboard.Finite.Keyed
import EezDashboard.Js.Hex

/-!
# The payment history

`history.ts` keeps the payments of a treasury in the browser: what was submitted, under an id that is made of the
Safe transaction, the sender, its nonce and the block it starts at, and what was rejected before it was signed.
Every operation reads the whole history, checks it, and writes it as a whole.
-/

set_option autoImplicit false

namespace Client

open Js

/-! ## What is saved -/

/-- A payment that is recorded, which may have the property `funding` of an old format; `funding` is its text. -/
structure RecordedPayment extends Payment where
  funding : String
  deriving DecidableEq, Repr

structure Intent where
  submissionChain : Option String
  version : ℕ
  instanceId : String
  value : String
  nonce : String
  safeHash : String
  data : String
  sender : String
  sourceNonce : String
  startBlock : String
  l2StartBlock : Option String
  hash : Option String
  payment : Option RecordedPayment
  deriving DecidableEq, Repr

/-- What an entry has for its kind; a detail is a text of UTF-16 code units. -/
inductive Content
  | submitted (intent : Intent)
  | preparation (payment : RecordedPayment) (detail : List UInt16)
  deriving DecidableEq, Repr

/-- An entry as it may be stored; `others` are the properties that it has besides those of its kind, with the texts of
their values.  An intent and a payment are kept with all that they have. -/
structure HistoryEntry where
  id : String
  recordedAt : String
  content : Content
  others : List (String × String)
  deriving DecidableEq, Repr

/-- A history that is saved; an entry that does not have the fields of one is none. -/
structure Saved where
  version : ℕ
  instanceId : String
  entries : List (Option HistoryEntry)
  deriving DecidableEq, Repr

/-- What the storage has, if anything; a text that is no history is none. -/
abbrev Stored := Option (Option Saved)

/-- The fields of a deployment that decide how an intent is read; `D` is a deployment of the payment policy. -/
structure TreasuryConfig (D : Type) where
  instanceId : String
  payments : Option D
  previousPayments : Option D
  olderPayments : List D

/-- What the module is given: `viem`, the hash of the Safe transaction of a payment or of an owner action, which may
throw, and the language's dates and texts. -/
structure Recorder (D : Type) extends Viem where
  /-- `bridgeKind === "standard"` -/
  isStandard : D → Bool
  /-- `safeTransactionHash(recordedPaymentTransaction(c, payment, nonce))` -/
  paymentHash : TreasuryConfig D → RecordedPayment → ℕ → Except String String
  /-- `safeTransactionHash(actionTransaction(c, value, nonce))` -/
  actionHash : TreasuryConfig D → String → ℕ → Except String String
  /-- `Number.isFinite(Date.parse(text))` -/
  isDate : String → Bool
  /-- `JSON.stringify(a) === JSON.stringify(b)`, which also compares the order of the fields -/
  sameText : HistoryEntry → HistoryEntry → Bool

variable {D : Type} (r : Recorder D) (c : TreasuryConfig D)

/-! ## Reading -/

/-- The payment without `funding`. -/
def RecordedPayment.plain (p : RecordedPayment) : Payment :=
  { p.toPayment with others := p.others.filter (· ≠ "funding") }

def checkedRecordedPayment (viem : Viem) (p : RecordedPayment) : Except String RecordedPayment :=
  if "funding" ∈ p.others then
    if p.funding = "split" ∨ (p.kind = some "transfer" ∧ p.funding = "local") ∨
        (p.kind = some "invoice" ∧ p.funding = "combined") then do
      let _ ← checkedPayment viem p.plain
      pure p
    else if (p.kind = none ∨ p.kind = some "fixed") ∧ p.funding ∈ ["local", "combined"] ∧ p.fromL1 = none then do
      let _ ← checkedPayment viem { p.plain with fromL1 := some "0" }
      pure p
    else throw "Invalid saved payment review"
  else do
    let payment ← checkedPayment viem p.toPayment
    pure ⟨payment, p.funding⟩

/-- The hash of an intent, if it is not empty. -/
def Intent.known (i : Intent) : Option String := i.hash.filter (· ≠ "")

/-- `/^0x(?:[\da-f]{2})+$/i` -/
def isData (text : String) : Bool := (hexDigits? text).any fun ds ↦ ds ≠ [] ∧ ds.length % 2 = 0

/-- The network that an intent is submitted to. -/
def transport (i : Intent) : String :=
  if c.payments.any r.isStandard then "l1" else (i.payment.bind fun p ↦ p.source).getD "l2"

/-- The hash of the Safe transaction that an intent is for. -/
def reviewedHash (i : Intent) : Except String String :=
  match i.payment with
  | some p => r.paymentHash c p (Client.bigInt i.nonce)
  | none => r.actionHash c i.value (Client.bigInt i.nonce)

def readIntent (i : Intent) : Except String Intent := do
  raiseIf (i.version ≠ 1 ∨ i.instanceId ≠ c.instanceId ∨ ¬hexOfLength 64 i.safeHash ∨
    ¬i.known.all (hexOfLength 64) ∨ ¬r.isAddress i.sender ∨ ¬isHexNumber i.sourceNonce ∨
    ¬isHexNumber i.startBlock ∨ ¬isData i.data ∨ ¬digits 1 78 i.nonce)
    "Saved submission is invalid; keep its wallet transaction hash for recovery"
  let safeHash ← reviewedHash r c i
  raiseIf (safeHash ≠ i.safeHash) "Saved Safe transaction does not match this treasury deployment"
  raiseIf ((i.payment.any (fun p ↦ p.source = some "l1") ∨ c.payments.any r.isStandard) ∧
    ¬i.l2StartBlock.any isHexNumber) "Missing L2 observation for the saved L1 payment"
  raiseIf (i.submissionChain.any (· ≠ transport r c i))
    "Saved submission network does not match this treasury"
  raiseIf (c.payments.any r.isStandard ∧ i.submissionChain ≠ some "l1") "Missing Ethereum relay identity"
  pure i

/-- The policy before the current one. -/
def TreasuryConfig.previous (previousPayments : D) : TreasuryConfig D :=
  { c with
    payments := some previousPayments
    previousPayments := c.olderPayments.head?
    olderPayments := c.olderPayments.tail }

/-- How many policies there were before. -/
def TreasuryConfig.depth : ℕ := if c.previousPayments.isSome then c.olderPayments.length + 1 else 0

theorem TreasuryConfig.depth_previous {previousPayments : D} (h : c.previousPayments = some previousPayments) :
    (c.previous previousPayments).depth < c.depth := by
  cases holder : c.olderPayments <;> simp [depth, previous, h, holder]

/-- The configuration that an intent was made under. -/
def historyConfig (c : TreasuryConfig D) (i : Intent) : Except String (TreasuryConfig D) :=
  match readIntent r c i with
  | .ok _ => .ok c
  | .error e =>
    match _ : c.previousPayments with
    | none => .error e
    | some previousPayments => historyConfig (c.previous previousPayments) i
termination_by c.depth
decreasing_by exact c.depth_previous ‹_›

def attemptId (i : Intent) : Except String String := do
  let sourceNonce ← (Js.bigInt i.sourceNonce).elim (throw "Cannot convert to a BigInt") pure
  let startBlock ← (Js.bigInt i.startBlock).elim (throw "Cannot convert to a BigInt") pure
  pure (i.safeHash ++ ":" ++ lowerCase i.sender ++ ":" ++ toString sourceNonce ++ ":" ++ toString startBlock)

/-- `/^[a-f0-9-]{36}$/i` -/
def isUuid (text : String) : Bool := text.length = 36 && text.toList.all fun c ↦ isHexDigit c || c = '-'

def readContent (id : String) : Content → Except String Content
  | .submitted intent => do
    let c' ← historyConfig r c intent
    let intent ← readIntent r c' intent
    raiseIf (intent.payment = none) "Payment history identity mismatch"
    let attempt ← attemptId intent
    raiseIf (attempt ≠ id) "Payment history identity mismatch"
    pure (.submitted intent)
  | .preparation payment detail => do
    raiseIf (¬isUuid id ∨ detail.length > 2000) "Invalid preparation history entry"
    let payment ← checkedRecordedPayment r.toViem payment
    pure (.preparation payment detail)

/-- The entries, when `ids` are those before them. -/
def readEntries (ids : List String) : List (Option HistoryEntry) → Except String (List HistoryEntry)
  | [] => pure []
  | none :: _ => throw "Invalid payment history entry"
  | some e :: rest => do
    raiseIf (e.id ∈ ids ∨ ¬r.isDate e.recordedAt) "Invalid payment history entry"
    let content ← readContent r c e.id e.content
    let entries ← readEntries (e.id :: ids) rest
    -- an entry is built again from the properties of its kind
    pure (⟨e.id, e.recordedAt, content, []⟩ :: entries)

def read (stored : Stored) : Except String (List HistoryEntry) :=
  match stored with
  | none => pure []
  | some none => throw "Unexpected token"
  | some (some saved) => do
    raiseIf (saved.version ≠ 1 ∨ saved.instanceId ≠ c.instanceId) "Invalid payment history for this devnet"
    readEntries r c [] saved.entries

/-! ## Writing -/

/-- What an operation does in the end. -/
inductive Next
  | keep (entries : List HistoryEntry)
  | write (entries : List HistoryEntry)

/-- The hash that an entry has. -/
def HistoryEntry.hash (e : HistoryEntry) : Option String :=
  match e.content with
  | .submitted intent => intent.known
  | .preparation _ _ => none

def remember (stored : Stored) (intent : Intent) (now : String) : Except String Next := do
  let entries ← read r c stored
  if intent.payment = none then pure (.keep entries) else do
    let c' ← historyConfig r c intent
    let _ ← readIntent r c' intent
    let id ← attemptId intent
    let old := Keyed.find HistoryEntry.id id entries
    let hash := old.bind HistoryEntry.hash
    raiseIf (hash.any fun hash ↦ intent.known.any (hash ≠ ·))
      "Conflicting transaction hashes for a saved payment attempt"
    let next : HistoryEntry :=
      ⟨id, (old.map HistoryEntry.recordedAt).getD now, .submitted { intent with hash := hash.or intent.hash }, []⟩
    if old.any (r.sameText · next) then pure (.keep entries)
    else pure (.write (Keyed.put HistoryEntry.id entries next))

def reject (stored : Stored) (payment : Payment) (detail : List UInt16) (uuid now : String) :
    Except String Next := do
  let entries ← read r c stored
  let payment ← checkedPayment r.toViem payment
  pure (.write (entries ++ [⟨uuid, now, .preparation ⟨payment, ""⟩ (detail.take 2000), []⟩]))

def cancel (stored : Stored) (intent : Intent) : Except String Next := do
  let entries ← read r c stored
  let id ← attemptId intent
  let entry := Keyed.find HistoryEntry.id id entries
  raiseIf (intent.known.isSome ∨ (entry.bind HistoryEntry.hash).isSome) "Cannot remove a submitted payment"
  pure (.write (Keyed.others HistoryEntry.id id entries))

/-- A call of the store; the browser gives the time and a new id. -/
inductive Operation
  | remember (intent : Intent) (now : String)
  | reject (payment : Payment) (detail : List UInt16) (uuid now : String)
  | cancel (intent : Intent)

def Operation.next (stored : Stored) : Operation → Except String Next
  | .remember intent now => Client.remember r c stored intent now
  | .reject payment detail uuid now => Client.reject r c stored payment detail uuid now
  | .cancel intent => Client.cancel r c stored intent

/-- What a call returns, and what is stored after it; `full` when the storage has no room for what is written. -/
def Operation.apply (op : Operation) (full : Bool) (stored : Stored) :
    Except String (List HistoryEntry) × Stored :=
  match op.next r c stored with
  | .error e => (.error e, stored)
  | .ok (.keep entries) => (.ok entries, stored)
  | .ok (.write entries) =>
    if full then (.error "QuotaExceededError", stored)
    else (.ok entries, some (some ⟨1, c.instanceId, entries.map some⟩))

end Client
