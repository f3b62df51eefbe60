import EezDashboard.Client.Retained
import EezDashboard.Client.RolledBack

/-!
# What an outcome has behind it

What was true of the chains when a payment is reported as settled (`Evidence`), on each of the three routes, and
when one is reported as rejected (`Refusal`); and how the code decodes it from the logs it reads.
-/

set_option autoImplicit false

namespace Settlement

open Client Dialogue Js

/-! ## Evidence -/

/-- The transaction of a hash is the one of the intent. -/
structure Submits (ledger : Ledger) (side : Side) (intent : Intent) (target hash : String) (tx : Transaction) :
    Prop where
  transaction : ledger.transaction side hash = some tx
  sender : same tx.sender intent.sender = true
  target : same tx.target target = true
  input : same tx.input intent.data = true

/-- The Safe has executed the Safe transaction. -/
def Executed (abi : Abi) (safe safeHash : String) (logs : List Log) : Prop :=
  ∃ log ∈ logs, same log.address safe = true ∧
    ∃ event, decodeSafeExecution abi log = some event ∧ event.success = true ∧ event.txHash = safeHash

/-- The policy has made the payment, once. -/
structure PaidOnce (abi : Abi) (d : PaymentDeployment) (p : RecordedPayment) (logs : List Log) (a : Paid) :
    Prop where
  only : payments (paymentEvents abi d logs) = [a]
  invoice : p.kind = some "invoice" → ∃ id, p.invoiceId = some id ∧ invoices (paymentEvents abi d logs) = [id]
  noInvoice : p.kind ≠ some "invoice" → invoices (paymentEvents abi d logs) = []
  token : same a.token d.tokenL1 = true
  recipient : same a.recipient p.recipient = true ∨ same a.recipient (abi.getAddress p.recipient) = true
  destination : a.onL1 = true ↔ p.destination = "l1"
  epoch : a.epoch = Client.bigInt p.epoch
  amount : a.amount = Client.bigInt p.amount
  parts : a.fromL1 + a.fromL2 = a.amount
  fromL1 : ∀ fromL1 ∈ p.fromL1, a.fromL1 = Client.bigInt fromL1

/-- The contributions are those of the one payment that the logs show. -/
def Contributed (abi : Abi) (c : Config) (p : RecordedPayment) (logs : List Log)
    (contributions : Option Contributions) : Prop :=
  ∃ d a, c.payments = some d ∧ PaidOnce abi d p logs a ∧ contributions = some ⟨a.fromL1, a.fromL2⟩

section Evidence

variable {ledger : Ledger} (history : ℕ → World ledger) (abi : Abi) (c : Config) (intent : Intent)

/-- A transaction on EEZ-X: its block was canonical at read `k + 1`, and not above the safe head of read `k`. -/
structure L2Settled (k : ℕ) (txHash : String) (receipt : Receipt) (o : Outcome) : Prop where
  reported : o.hash = some txHash
  execution : o.executionL2 = some txHash
  block : o.block = some receipt.blockNumber
  included : ledger.Includes .l2 txHash receipt
  safe : ∃ n, (history k).safe = some n ∧ receipt.blockNumber ≤ n
  canonical : (history (k + 1)).canonical .l2 receipt.blockNumber = some receipt.blockHash
  submitted : ∃ tx, Submits ledger .l2 intent c.safeL2 txHash tx
  status : receipt.status = "0x1"
  executed : Executed abi c.safeL2 intent.safeHash receipt.logs
  paid : ∀ p, intent.payment = some p → Contributed abi c p receipt.logs o.contributions

/-- A transaction on L1 and what it did on EEZ-X: at the reads `k`, `k + 1` and `k + 2` both blocks were canonical
and the second one was not above the safe head. -/
structure Stands (target : String) (k : ℕ) (hash l2 : String) (receipt destination : Receipt) (o : Outcome) :
    Prop where
  reported : o.hash = some hash
  source : o.executionL1 = some hash
  execution : o.executionL2 = some l2
  sourceBlock : o.sourceBlock = some receipt.blockNumber
  block : o.block = some destination.blockNumber
  includedL1 : ledger.Includes .l1 hash receipt
  includedL2 : ledger.Includes .l2 l2 destination
  canonicalL1 : (history k).canonical .l1 receipt.blockNumber = some receipt.blockHash
  canonicalL2 : (history (k + 1)).canonical .l2 destination.blockNumber = some destination.blockHash
  safe : ∃ n, (history (k + 2)).safe = some n ∧ destination.blockNumber ≤ n
  submitted : ∃ tx, Submits ledger .l1 intent target hash tx ∧
    tx.nonce = Client.bigInt intent.sourceNonce ∧ tx.value = 0
  statusL1 : receipt.status = "0x1"
  statusL2 : destination.status = "0x1"

/-- The policy's marker was the only one of its kind in the safe blocks of EEZ-X since the intent. -/
def MarkedOnce (p : RecordedPayment) (k : ℕ) (destination : Receipt) : Prop :=
  ∃ reviewed d start safe event, ∃ j < k,
    abi.reviewed p (Client.bigInt intent.nonce) = .ok reviewed ∧ reviewed.safeHash = intent.safeHash ∧
    c.payments = some d ∧ l2Start intent = some start ∧ event ∈ destination.logs ∧
    (history j).logs .l2 ⟨d.policy, .range start (some safe),
      (abi.authorizedTopics (Client.bigInt intent.nonce + 1) reviewed.callHash).map fun topic ↦ [topic]⟩ = [event]

/-- The Composer has said that the block of the second transaction is settled with the block of the first one. -/
def SaidToSettle (receipt destination : Receipt) (t : Transcript Request Answer) : Prop :=
  ∃ record, (Request.getSettlementByL2Block destination.blockHash, Answer.settlement (some record)) ∈ t ∧
    record.canonicalL2 = true ∧ same record.l1BlockHash receipt.blockHash = true ∧
    record.l1BlockNumber = receipt.blockNumber ∧
    ∃ b ∈ record.l2Blocks, same b.hash destination.blockHash = true ∧ b.number = destination.blockNumber

/-- A payment of the Safe on L1. -/
structure L1Settled (p : RecordedPayment) (k : ℕ) (hash l2 : String) (receipt destination : Receipt) (o : Outcome) :
    Prop extends Stands history intent c.safeL1 k hash l2 receipt destination o where
  executed : Executed abi c.safeL1 intent.safeHash receipt.logs
  marked : MarkedOnce history abi c intent p k destination
  paid : Contributed abi c p destination.logs o.contributions

/-- A transfer of the Safe on L1 to the Safe on EEZ-X: one lock, one deposit and one call of the bridge, which no
other transaction of the block made, and the delivery of that call. -/
structure TransferSettled (p : RecordedPayment) (k : ℕ) (hash l2 : String) (receipt destination : Receipt)
    (o : Outcome) (t : Transcript Request Answer) :
    Prop extends Stands history intent c.safeL1 k hash l2 receipt destination o where
  executed : Executed abi c.safeL1 intent.safeHash receipt.logs
  bridged : ∃ d call, c.payments = some d ∧
    (receipt.logs.filter (isLock abi c d p)).length = 1 ∧ (receipt.logs.filter (isDeposit abi c d p)).length = 1 ∧
    (receipt.logs.filterMap (outgoing abi · c.registry)).filter (isBridgeCall abi c d p) = [call] ∧
    (∃ j < k, sourceHashes abi c call.crossChainCallHash receipt ((history j).logs .l1
      ⟨c.registry, .block receipt.blockHash, abi.outgoingTopics (some call.crossChainCallHash) none⟩) =
        [lowerCase hash]) ∧
    (∃ log ∈ destination.logs, isDelivery abi c d call log = true) ∧
    (∃ log ∈ destination.logs, isCreation abi c d p log = true) ∧
    ∃ log ∈ destination.logs, isMint abi c d p log = true
  said : SaidToSettle receipt destination t
  contributions : o.contributions = some ⟨Client.bigInt p.amount, 0⟩

/-- A relay through Ethereum: one call of the Safe's alias, which no other transaction of the block made, and the
execution of the Safe that it was relayed to. -/
structure MirrorSettled (p : RecordedPayment) (safeL2Alias : String) (k : ℕ) (hash l2 : String)
    (receipt destination : Receipt) (o : Outcome) (t : Transcript Request Answer) :
    Prop extends Stands history intent safeL2Alias k hash l2 receipt destination o where
  relayed : ∃ call, ((receipt.logs.filterMap (outgoing abi · c.registry)).filter fun e ↦
      same e.proxy safeL2Alias && isRelay intent e) = [call] ∧
    (∃ j < k, ∃ origin, (history j).logs .l1
      ⟨c.registry, .block receipt.blockHash, abi.outgoingTopics (some call.crossChainCallHash) none⟩ = [origin] ∧
        same origin.transactionHash hash = true) ∧
    ∃ log ∈ destination.logs, isRelayed abi c intent call.crossChainCallHash log = true
  executed : Executed abi c.safeL2 intent.safeHash destination.logs
  said : SaidToSettle receipt destination t
  paid : Contributed abi c p destination.logs o.contributions

/-- What an outcome has behind it, on the route that the intent takes. -/
def Evidence (o : Outcome) (t : Transcript Request Answer) : Prop :=
  ∃ k, t.length = k + 3 ∧
    if intent.payment.any fun p ↦ p.source = some "l1" then
      ∃ p hash l2 receipt destination, intent.payment = some p ∧
        if p.kind = some "transfer" then TransferSettled history abi c intent p k hash l2 receipt destination o t
        else L1Settled history abi c intent p k hash l2 receipt destination o
    else if c.payments.any PaymentDeployment.standard then
      ∃ p d safeL2Alias hash l2 receipt destination, intent.payment = some p ∧ c.payments = some d ∧
        d.safeL2Alias = some safeL2Alias ∧
          MirrorSettled history abi c intent p safeL2Alias k hash l2 receipt destination o t
    else ∃ txHash receipt, L2Settled history abi c intent k txHash receipt o

/-- The Composer has ended a request that has no receipt. -/
def Disposed (hash : String) (t : Transcript Request Answer) : Prop :=
  ∃ t₀ status reason, disposal status = some reason ∧
    t = t₀ ++ [(.getTransactionReceipt .l1 hash, .receipt none), (.getCrossChainTransaction .l1 hash, .status status)]

/-- The wallet's transaction on L1 is in a block that was canonical at read `k`. -/
structure IncludedAt (target : String) (k : ℕ) (hash : String) (receipt : Receipt) : Prop where
  included : ledger.Includes .l1 hash receipt
  canonical : (history k).canonical .l1 receipt.blockNumber = some receipt.blockHash
  submitted : ∃ tx, Submits ledger .l1 intent target hash tx ∧
    tx.nonce = Client.bigInt intent.sourceNonce ∧ tx.value = 0

/-- A transaction on EEZ-X has failed in a block that was canonical at read `k + 1` and safe at read `k`. -/
structure L2Failed (k : ℕ) (hash : String) (receipt : Receipt) : Prop where
  included : ledger.Includes .l2 hash receipt
  safe : ∃ n, (history k).safe = some n ∧ receipt.blockNumber ≤ n
  canonical : (history (k + 1)).canonical .l2 receipt.blockNumber = some receipt.blockHash
  submitted : ∃ tx, Submits ledger .l2 intent c.safeL2 hash tx
  failed : ¬(receipt.status = "0x1" ∧ Executed abi c.safeL2 intent.safeHash receipt.logs)

/-- A request on EEZ-X that had no receipt, and that the Composer has ended; or the nonces are past, and a rollback is
reported. -/
def Unexecuted (hash : String) (o : Outcome) (t : Transcript Request Answer) : Prop :=
  ∃ t₁ t₂ status, t = t₁ ++ [(.getTransactionReceipt .l2 hash, .receipt none),
      (.getCrossChainTransaction .l2 hash, .status status)] ++ t₂ ∧
    ((disposal status).isSome = true ∨ o.rollback.isSome = true ∧ Retired history c intent (t₁.length + 3))

/-- What a rejection has behind it; a rollback that is reported has its own evidence. -/
def Refusal (o : Outcome) (t : Transcript Request Answer) : Prop :=
  (∀ rollback ∈ o.rollback, ∃ k, t.length = k + 43 ∧ RolledBack history abi c intent rollback k) ∧
  ∃ hash, o.hash = some hash ∧
    if intent.payment.any fun p ↦ p.source = some "l1" then
      Disposed hash t ∨ ∃ k receipt, t.length = k + 1 ∧ IncludedAt history intent c.safeL1 k hash receipt ∧
        ¬(receipt.status = "0x1" ∧ Executed abi c.safeL1 intent.safeHash receipt.logs)
    else if c.payments.any PaymentDeployment.standard then
      Disposed hash t ∨ ∃ d safeL2Alias k receipt, c.payments = some d ∧ d.safeL2Alias = some safeL2Alias ∧
        t.length = k + 1 ∧ IncludedAt history intent safeL2Alias k hash receipt ∧ receipt.status ≠ "0x1"
    else Unexecuted history c intent hash o t ∨
      ∃ k receipt, t.length = k + 3 ∧ L2Failed history abi c intent k hash receipt

end Evidence

/-! ## What is decoded -/

section Decoded

variable {abi : Abi} {c : Config} {intent : Intent} {p q : RecordedPayment} {d : PaymentDeployment} {logs : List Log}
  {safe safeHash target : String} {log : Log}

theorem succeeded_iff : succeeded abi safe safeHash logs = true ↔ Executed abi safe safeHash logs := by
  simp only [succeeded, Executed, List.any_eq_true, Bool.and_eq_true, Option.any_eq_true, decide_eq_true_eq]

/-- A saved payment is checked as it is, or with its recipient in the checksum form. -/
theorem checkedRecordedPayment_cases {viem : Viem} (h : checkedRecordedPayment viem p = .ok q) :
    q = p ∨ q = { p with recipient := viem.getAddress p.recipient } := by
  by_cases hsame : q = p
  · exact .inl hsame
  · right
    rw [checkedRecordedPayment_eq h, not_or] at hsame
    rw [checkedRecordedPayment, if_neg hsame.1, Except.bind_eq_ok] at h
    obtain ⟨payment, hpayment, h⟩ := h
    rw [Except.pure_eq_ok] at h
    rw [← h, checkedPayment_eq hpayment]

theorem invoiced_eq_true {ids : List String} (h : invoiced p ids = true) :
    (p.kind = some "invoice" → ∃ id, p.invoiceId = some id ∧ ids = [id]) ∧ (p.kind ≠ some "invoice" → ids = []) := by
  rw [invoiced] at h
  split at h
  next hkind =>
    rw [Bool.and_eq_true, decide_eq_true_eq, decide_eq_true_eq] at h
    obtain ⟨hlength, hhead⟩ := h
    obtain ⟨id, rfl⟩ := List.length_eq_one_iff.1 hlength
    exact ⟨fun _ ↦ ⟨id, hhead.symm, rfl⟩, fun hne ↦ absurd hkind hne⟩
  next hkind =>
    rw [decide_eq_true_eq, List.length_eq_zero_iff] at h
    exact ⟨fun heq ↦ absurd heq hkind, fun _ ↦ h⟩

theorem paidOnce_of_checked {a : Paid} (hq : checkedRecordedPayment abi.toViem p = .ok q)
    (hinvoiced : invoiced q (invoices (paymentEvents abi d logs)) = true)
    (honly : payments (paymentEvents abi d logs) = [a]) (hof : a.isOf d q = true) : PaidOnce abi d p logs a := by
  simp only [Paid.isOf, Paid.identity, Bool.and_eq_true, decide_eq_true_eq] at hof
  obtain ⟨⟨⟨⟨⟨⟨⟨⟨htoken, hrecipient⟩, hside⟩, hepoch⟩, -⟩, -⟩, hparts⟩, hfrom⟩, hamount⟩ := hof
  have hfields : q.kind = p.kind ∧ q.invoiceId = p.invoiceId ∧ q.destination = p.destination ∧ q.epoch = p.epoch ∧
      q.amount = p.amount ∧ q.fromL1 = p.fromL1 ∧
      (q.recipient = p.recipient ∨ q.recipient = abi.getAddress p.recipient) := by
    cases checkedRecordedPayment_cases hq with
    | inl h => exact h ▸ ⟨rfl, rfl, rfl, rfl, rfl, rfl, .inl rfl⟩
    | inr h => exact h ▸ ⟨rfl, rfl, rfl, rfl, rfl, rfl, .inr rfl⟩
  obtain ⟨hkind, hinvoice, hdestination, hepoch', hamount', hfrom', hrecipient'⟩ := hfields
  obtain ⟨hone, hnone⟩ := invoiced_eq_true hinvoiced
  rw [hkind, hinvoice] at hone
  rw [hkind] at hnone
  rw [hdestination] at hside
  rw [hepoch'] at hepoch
  rw [hamount'] at hamount
  rw [hfrom'] at hfrom
  refine ⟨honly, hone, hnone, decide_eq_true htoken, ?_, ?_, hepoch, hamount, hparts, fun f hf ↦ ?_⟩
  · cases hrecipient' with
    | inl h => exact .inl (decide_eq_true (h ▸ hrecipient))
    | inr h => exact .inr (decide_eq_true (h ▸ hrecipient))
  · rw [hside, decide_eq_true_eq]
  · rw [hf] at hfrom
    exact of_decide_eq_true hfrom

/-- **Contributions are those of a payment that the policy made once.** -/
theorem settledPayment_eq_some {contributions : Contributions}
    (h : settledPayment abi c.payments p logs = .ok (some contributions)) :
    Contributed abi c p logs (some contributions) := by
  rw [settledPayment, Except.bind_eq_ok] at h
  obtain ⟨q, hq, h⟩ := h
  split at h
  next => split at h <;> cases h
  next d hd =>
    dsimp only at h
    split at h
    next => cases h
    next hinvoiced =>
      split at h
      next a honly =>
        rw [Except.pure_eq_ok] at h
        split at h
        next hof =>
          rw [Bool.not_eq_false] at hinvoiced
          exact ⟨d, a, hd, paidOnce_of_checked hq hinvoiced honly hof, h.symm⟩
        next => cases h
      next => cases h

theorem isSubmission_eq_true {tx : Transaction} (h : isSubmission intent target tx = true) :
    (same tx.sender intent.sender = true ∧ same tx.target target = true ∧ same tx.input intent.data = true) ∧
      tx.nonce = Client.bigInt intent.sourceNonce ∧ tx.value = 0 := by
  simpa only [isSubmission, Bool.and_eq_true, decide_eq_true_eq, and_assoc] using h

theorem Record.settles_eq_true {record : Record} {receipt : Receipt} (h : record.settles receipt log = true) :
    record.canonicalL2 = true ∧ same record.l1BlockHash receipt.blockHash = true ∧
      record.l1BlockNumber = receipt.blockNumber ∧
      ∃ b ∈ record.l2Blocks, same b.hash log.blockHash = true ∧ b.number = log.blockNumber := by
  simpa only [Record.settles, Bool.and_eq_true, decide_eq_true_eq, List.any_eq_true, and_assoc] using h

end Decoded

end Settlement
