import EezDashboard.Client.History
import EezDashboard.Remote.Ensures

/-!
# Following a payment to its settlement

`TreasuryClient.outcome` and what it calls: a payment that was submitted is looked for on both chains, and
is reported as settled, rejected or pending.  There are three routes: a Safe transaction on EEZ-X, one of
the Safe on L1 (`l1Payments.ts`, and `transfers.ts` for a transfer between the two Safes), and a relay
through Ethereum to the Safe on EEZ-X (`mirrorRelay.ts`).

The nodes are asked over and over, and their chains may be others at every question, so all of it is a
`Dialogue`; the reads of a `Promise.all` are asked in the order they are written in.  Addresses, hashes and
calldata are the texts that the nodes answer, quantities are numbers, and a null answer is none.  What
encodes and decodes is a parameter, and so is the Safe transaction of a payment.
-/

set_option autoImplicit false

namespace Settlement

open Client Dialogue Js

/-! ## What the nodes answer -/

inductive Side
  | l1
  | l2
  deriving DecidableEq, Repr

structure Log where
  address : String
  data : String
  topics : List String
  transactionHash : String
  blockHash : String
  blockNumber : ℕ
  deriving DecidableEq, Repr

structure Receipt where
  status : String
  blockNumber : ℕ
  blockHash : String
  transactionIndex : ℕ
  logs : List Log
  deriving DecidableEq, Repr

structure Block where
  number : ℕ
  hash : String
  deriving DecidableEq, Repr

/-- A block that is read with its timestamp. -/
structure Anchor extends Block where
  timestamp : ℕ
  deriving DecidableEq, Repr

/-- `sender` and `target` are `from` and `to`. -/
structure Transaction where
  sender : String
  target : String
  input : String
  nonce : ℕ
  value : ℕ
  deriving DecidableEq, Repr

/-- What the Composer says of a request; `reason` is that of its `ownership`. -/
structure Status where
  lifecycle : Option String
  reason : Option String
  deriving DecidableEq, Repr

/-- What the Composer says of the settlement of a block. -/
structure Record where
  canonicalL2 : Bool
  l1BlockHash : String
  l1BlockNumber : ℕ
  l2Blocks : List Block
  deriving DecidableEq, Repr

/-- The methods that are called at a block. -/
inductive Method
  | balanceOf (holder : String)
  | totalSupply
  | nonce
  | spent (epoch : ℕ)
  | allowance (owner spender : String)
  | getTokenAllowance (safe delegate token : String)
  | invoices (id : String)
  deriving DecidableEq, Repr

/-- What they return. -/
inductive Value
  | uint (n : ℕ)
  | tokenAllowance (a : Treasury.TokenAllowance)
  | invoice (recipient : String) (amount status : ℕ)
  deriving DecidableEq, Repr

/-- A call of a transaction, and the calls it makes; `sender` and `target` are `from` and `to`. -/
structure CallFrame where
  sender : Option String
  target : Option String
  input : Option String
  output : Option String
  error : Option String
  calls : List CallFrame

/-- `opened` is `open`. -/
inductive Phase
  | opened
  | armed
  | executing
  | verified
  | unverified
  | cancelled
  deriving DecidableEq, Repr

inductive Mode
  | preparation
  | settlement
  deriving DecidableEq, Repr

/-- A block of each chain. -/
structure Anchors where
  l1 : Block
  l2 : Block
  deriving DecidableEq, Repr

/-- What the invoice fixture reports of an invoice. -/
structure InvoiceEvidence where
  phase : Phase
  detail : String
  mode : Option Mode
  id : Option String
  recipient : Option String
  amount : Option String
  intent : Intent
  postHash : Option String
  closeHash : Option String
  l1BlockHash : Option String
  before : Option Anchors
  after : Option Anchors
  deriving DecidableEq, Repr

/-- The blocks that logs are taken from: a range, up to the latest one where there is no end, or one block. -/
inductive Blocks
  | range (fromBlock : ℕ) (toBlock : Option ℕ)
  | block (hash : String)
  deriving DecidableEq, Repr

/-- The argument of `eth_getLogs`; a position without alternatives takes any topic. -/
structure Filter where
  address : String
  blocks : Blocks
  topics : List (List String)
  deriving DecidableEq, Repr

inductive Request
  | getLogs (side : Side) (filter : Filter)
  | getTransactionReceipt (side : Side) (hash : String)
  | getTransactionByHash (side : Side) (hash : String)
  | getBlockByNumber (side : Side) (number : ℕ)
  /-- the block of EEZ-X with the tag `safe` -/
  | getSafeBlock
  | getCrossChainTransaction (side : Side) (hash : String)
  | getSettlementByL2Block (hash : String)
  /-- the methods of the Safe on L1, called at a block -/
  | getOwners (number : ℕ)
  | getThreshold (number : ℕ)
  | getNonce (number : ℕ)
  /-- `eth_getBlockByNumber`, of a block that is read with its timestamp -/
  | getAnchor (side : Side) (number : ℕ)
  /-- a method of a contract, called at a block -/
  | call (side : Side) (address : String) (method : Method) (number : ℕ)
  | getTransactionCount (side : Side) (address : String) (number : ℕ)
  /-- the calls of a transaction on L1 -/
  | traceTransaction (hash : String)
  /-- the report of the invoice fixture -/
  | getInvoice (id : String)
  deriving DecidableEq, Repr

inductive Answer
  | logs (logs : List Log)
  | receipt (receipt : Option Receipt)
  | transaction (transaction : Option Transaction)
  | block (block : Option Block)
  | status (status : Option Status)
  | settlement (record : Option Record)
  | addresses (addresses : List String)
  | uint (n : ℕ)
  | anchor (anchor : Option Anchor)
  | value (value : Value)
  | trace (trace : Option CallFrame)
  | report (report : Option InvoiceEvidence)

/-- Code that asks the nodes. -/
abbrev ClientM := Dialogue Request Answer String

/-- What a field of something that is missing leads to. -/
def undefinedValue : String := "undefined"

/-- Ask, and read the answer; an answer of another kind cannot be read. -/
def query {α : Type} (q : Request) (read : Answer → Option α) : ClientM α := do
  match read (← request q) with
  | some a => pure a
  | none => fail undefinedValue

def getLogs (side : Side) (filter : Filter) : ClientM (List Log) :=
  query (.getLogs side filter) fun | .logs logs => some logs | _ => none

def getTransactionReceipt (side : Side) (hash : String) : ClientM (Option Receipt) :=
  query (.getTransactionReceipt side hash) fun | .receipt receipt => some receipt | _ => none

def getTransactionByHash (side : Side) (hash : String) : ClientM (Option Transaction) :=
  query (.getTransactionByHash side hash) fun | .transaction transaction => some transaction | _ => none

def getBlockByNumber (side : Side) (number : ℕ) : ClientM (Option Block) :=
  query (.getBlockByNumber side number) fun | .block block => some block | _ => none

def getSafeBlock : ClientM (Option Block) :=
  query .getSafeBlock fun | .block block => some block | _ => none

def getCrossChainTransaction (side : Side) (hash : String) : ClientM (Option Status) :=
  query (.getCrossChainTransaction side hash) fun | .status status => some status | _ => none

def getSettlementByL2Block (hash : String) : ClientM (Option Record) :=
  query (.getSettlementByL2Block hash) fun | .settlement record => some record | _ => none

def getOwners (number : ℕ) : ClientM (List String) :=
  query (.getOwners number) fun | .addresses addresses => some addresses | _ => none

def getThreshold (number : ℕ) : ClientM ℕ :=
  query (.getThreshold number) fun | .uint n => some n | _ => none

def getNonce (number : ℕ) : ClientM ℕ :=
  query (.getNonce number) fun | .uint n => some n | _ => none

def getAnchor (side : Side) (number : ℕ) : ClientM (Option Anchor) :=
  query (.getAnchor side number) fun | .anchor anchor => some anchor | _ => none

/-- `contractRead` -/
def contractRead (side : Side) (address : String) (method : Method) (number : ℕ) : ClientM Value :=
  query (.call side address method number) fun | .value value => some value | _ => none

def getTransactionCount (side : Side) (address : String) (number : ℕ) : ClientM ℕ :=
  query (.getTransactionCount side address number) fun | .uint n => some n | _ => none

def traceTransaction (hash : String) : ClientM (Option CallFrame) :=
  query (.traceTransaction hash) fun | .trace trace => some trace | _ => none

def getInvoice (id : String) : ClientM (Option InvoiceEvidence) :=
  query (.getInvoice id) fun | .report report => some report | _ => none

/-! ## Events -/

/-- An `ExecutionSuccess` or an `ExecutionFailure` of a Safe. -/
structure SafeExecution where
  success : Bool
  txHash : String
  deriving DecidableEq, Repr

/-- The arguments of `Paid`. -/
structure Paid where
  token : String
  recipient : String
  onL1 : Bool
  amount : ℕ
  fromL1 : ℕ
  fromL2 : ℕ
  epoch : ℕ
  deriving DecidableEq, Repr

/-- The events of `paymentAbi`. -/
inductive PaymentEvent
  | paid (args : Paid)
  | invoicePaid (invoiceId : String)
  | l1PaymentAuthorized
  deriving DecidableEq, Repr

/-- The arguments of `CrossChainCallExecuted`. -/
structure Outgoing where
  crossChainCallHash : String
  proxy : String
  sourceAddress : String
  callData : String
  value : ℕ
  deriving DecidableEq, Repr

/-- The arguments of `IncomingCrossChainCallExecuted`, without the gas. -/
structure Incoming where
  crossChainCallHash : String
  isStatic : Bool
  sourceAddress : String
  sourceRollup : ℕ
  destination : String
  value : ℕ
  data : String
  deriving DecidableEq, Repr

/-- The events of `transferAbi`. -/
inductive TransferEvent
  | crossChainCallExecuted (args : Outgoing)
  | incomingCrossChainCallExecuted (args : Incoming)
  | transfer (sender recipient : String) (value : ℕ)
  | tokensBridged (token sender : String) (rollupId amount : ℕ)
  | wrappedTokensMinted (wrappedToken recipient : String) (amount : ℕ)
  deriving DecidableEq, Repr

/-- The arguments of `receiveTokens` that are read. -/
structure ReceiveTokens where
  token : String
  origin : ℕ
  recipient : String
  value : ℕ
  source : ℕ
  deriving DecidableEq, Repr

/-- What is used of the Safe transaction of a payment: its hash, and the hash of its calldata. -/
structure Reviewed where
  safeHash : String
  callHash : String

/-- The calls that an invoice is paid, refused and closed by. -/
inductive InvoiceCall
  | transfer (recipient : String) (amount : ℕ)
  | accept (id token recipient : String) (amount : ℕ)
  | close (id : String)

/-- What is used of viem: the checks of addresses, decoders, which find nothing in other logs, the topics of
events and the calldata of calls. -/
structure Abi extends Viem where
  safeExecutionTopics : List String
  /-- `decodeEventLog` with the events of a Safe, of version 1.3.0 or of a later one -/
  decodeExecution : (legacy : Bool) → Log → Option SafeExecution
  decodePayment : Log → Option PaymentEvent
  decodeTransfer : Log → Option TransferEvent
  decodeReceiveTokens : String → Option ReceiveTokens
  /-- the topics of `L1PaymentAuthorized` -/
  authorizedTopics : ℕ → String → List String
  /-- the topics of `CrossChainCallExecuted`, with a call hash or a proxy -/
  outgoingTopics : (callHash proxy : Option String) → List (List String)
  /-- the topics of `IncomingCrossChainCallExecuted`, with a call hash -/
  incomingTopics : String → List (List String)
  /-- `encodeFunctionData` -/
  encode : InvoiceCall → Except String String
  /-- `recordedPaymentTransaction` -/
  reviewed : RecordedPayment → ℕ → Except String Reviewed

/-- The part of a payment deployment that is read; `invoiceControl` says whether there is a fixture. -/
structure PaymentDeployment where
  /-- `bridgeKind === "standard"` -/
  standard : Bool
  policy : String
  tokenL1 : String
  tokenL2 : String
  bridgeL1 : String
  bridgeL2 : String
  safeL2Alias : Option String
  /-- `alias` -/
  policyAlias : String
  moduleL1 : String
  moduleL2 : String
  invoiceMerchant : Option String
  invoiceControl : Bool

/-- The part of a treasury's configuration that is read; `frontL1` says whether `l1.front` is there. -/
structure Config where
  safeL1 : String
  safeL2 : String
  registry : String
  manager : String
  frontL1 : Bool
  payments : Option PaymentDeployment

def same (a b : String) : Bool := lowerCase a = lowerCase b

/-- `zeroAddress` -/
def zeroAddress : String := "0x0000000000000000000000000000000000000000"

section Events

variable (abi : Abi)

/-- A Safe of version 1.3.0 has the hash in the data, a later one in a topic. -/
def decodeSafeExecution (log : Log) : Option SafeExecution :=
  let legacy := decide (log.topics.length = 1)
  let dataBytes := if legacy then 64 else 32
  if log.topics.length ∉ [1, 2] ∨ ¬log.topics.all (hexOfLength 64) ∨ ¬hexOfLength (2 * dataBytes) log.data then none
  else abi.decodeExecution legacy log

/-- Whether a log is of the Safe, for the Safe transaction. -/
def isExecution (safe safeHash : String) (log : Log) : Bool :=
  same log.address safe && (decodeSafeExecution abi log).any fun event ↦ event.txHash = safeHash

/-- Whether the Safe transaction succeeded. -/
def succeeded (safe safeHash : String) (logs : List Log) : Bool :=
  logs.any fun log ↦ same log.address safe &&
    (decodeSafeExecution abi log).any fun event ↦ event.success && event.txHash = safeHash

/-- An event of `transferAbi`, of one address. -/
def protocol (log : Log) (address : String) : Option TransferEvent :=
  if same log.address address then abi.decodeTransfer log else none

def outgoing (log : Log) (address : String) : Option Outgoing :=
  match protocol abi log address with
  | some (.crossChainCallExecuted args) => some args
  | _ => none

def incoming (log : Log) (address : String) : Option Incoming :=
  match protocol abi log address with
  | some (.incomingCrossChainCallExecuted args) => some args
  | _ => none

end Events

/-! ## `settledPayment` -/

section Payments

variable (abi : Abi)

/-- The events of the policy. -/
def paymentEvents (d : PaymentDeployment) (logs : List Log) : List PaymentEvent :=
  logs.flatMap fun log ↦ if lowerCase log.address ≠ lowerCase d.policy then [] else (abi.decodePayment log).toList

def invoices (events : List PaymentEvent) : List String :=
  events.filterMap fun | .invoicePaid id => some id | _ => none

def payments (events : List PaymentEvent) : List Paid :=
  events.filterMap fun | .paid args => some args | _ => none

/-- Whether the invoices are those of the payment. -/
def invoiced (p : RecordedPayment) (ids : List String) : Bool :=
  if p.kind = some "invoice" then ids.length = 1 && ids.head? = p.invoiceId else ids.length = 0

/-- `identity` -/
def Paid.identity (d : PaymentDeployment) (p : RecordedPayment) (event : Paid) : Bool :=
  lowerCase event.token = lowerCase d.tokenL1 && lowerCase event.recipient = lowerCase p.recipient &&
    event.onL1 = decide (p.destination = "l1") && event.epoch = Client.bigInt p.epoch

/-- Whether the event is that of the payment. -/
def Paid.isOf (d : PaymentDeployment) (p : RecordedPayment) (a : Paid) : Bool :=
  a.identity d p && a.amount ≠ 0 && a.amount ≤ 150000000 && a.fromL1 + a.fromL2 = a.amount &&
    p.fromL1.all (fun fromL1 ↦ a.fromL1 = Client.bigInt fromL1) && a.amount = Client.bigInt p.amount

/-- Without a deployment its policy is asked for at the first log. -/
def settledPayment (deployment : Option PaymentDeployment) (p : RecordedPayment) (logs : List Log) :
    Except String (Option Contributions) := do
  let p ← checkedRecordedPayment abi.toViem p
  match deployment with
  | none => if logs = [] then return none else throw undefinedValue
  | some d =>
    let events := paymentEvents abi d logs
    if invoiced p (invoices events) = false then return none
    match payments events with
    | [a] => return if a.isOf d p then some ⟨a.fromL1, a.fromL2⟩ else none
    | _ => return none

end Payments

/-! ## Outcomes -/

inductive Kind
  | unknown
  | pending
  | rejected
  | settled
  deriving DecidableEq, Repr

/-- The two transactions of an invoice that was refused, their block, and what was read before and after it. -/
structure Rollback where
  postHash : String
  closeHash : String
  block : ℕ
  before : List (String × Value)
  after : List (String × Value)
  deriving DecidableEq, Repr

/-- `Outcome`, with numbers where it has their decimal texts. -/
structure Outcome where
  kind : Kind
  hash : Option String
  executionL1 : Option String
  executionL2 : Option String
  sourceBlock : Option ℕ
  block : Option ℕ
  contributions : Option Contributions
  rejectionStage : Option String
  rollback : Option Rollback
  detail : String
  deriving DecidableEq, Repr

def Outcome.unknown (detail : String) : Outcome :=
  ⟨.unknown, none, none, none, none, none, none, none, none, detail⟩

def Outcome.pending (hash detail : String) : Outcome :=
  ⟨.pending, some hash, none, none, none, none, none, none, none, detail⟩

def Outcome.rejected (hash : String) (sourceBlock : Option ℕ) (rejectionStage : Option String) (detail : String) :
    Outcome :=
  ⟨.rejected, some hash, none, none, sourceBlock, none, none, rejectionStage, none, detail⟩

def Outcome.settled (l1 l2 : String) (sourceBlock block : ℕ) (contributions : Contributions) (detail : String) :
    Outcome :=
  ⟨.settled, some l1, some l1, some l2, some sourceBlock, some block, some contributions, none, none, detail⟩

/-- The reason for which the Composer has ended a request. -/
def disposal (status : Option Status) : Option String :=
  match status with
  | some ⟨some "terminal", some reason⟩ =>
    if reason ∈ ["PoolDiscarded", "AttemptsExhausted", "NonceGap"] then some reason else none
  | _ => none

/-- Whether a record of the Composer settles the block of a log with the block of a receipt. -/
def Record.settles (record : Record) (receipt : Receipt) (log : Log) : Bool :=
  record.canonicalL2 && same record.l1BlockHash receipt.blockHash && record.l1BlockNumber = receipt.blockNumber &&
    record.l2Blocks.any fun b ↦ same b.hash log.blockHash && b.number = log.blockNumber

/-- The last reads of a payment that is about to be reported: both blocks are as they were, and the second one is
still safe. -/
def unchanged (receipt : Receipt) (log : Log) : ClientM Bool := do
  let l1Again ← getBlockByNumber .l1 receipt.blockNumber
  let l2Again ← getBlockByNumber .l2 log.blockNumber
  let safeAgain ← getSafeBlock
  return decide (l1Again.map Block.hash = some receipt.blockHash) &&
    decide (l2Again.map Block.hash = some log.blockHash) && safeAgain.any fun safe ↦ log.blockNumber ≤ safe.number

/-- `intent.l2StartBlock`, and the number -/
def l2Start (intent : Intent) : Option ℕ := (intent.l2StartBlock.filter (· ≠ "")).map Client.bigInt

/-- The transaction has the sender, the calldata, the nonce and no value. -/
def isSubmission (intent : Intent) (target : String) (transaction : Transaction) : Bool :=
  same transaction.sender intent.sender && same transaction.target target && same transaction.input intent.data &&
    transaction.nonce = Client.bigInt intent.sourceNonce && transaction.value = 0

end Settlement
