import EezDashboard.Client.Invoices

/-!
# The three routes of a payment

`l1PaymentOutcome`, `transferOutcome`, `mirrorRelayOutcome` and `TreasuryClient.outcome`.  Each looks for the
transaction on the chain it was submitted to, then for what it did on EEZ-X, and last whether both blocks
are still there.  Where a transaction on EEZ-X has no receipt, the Composer's status decides, and for an
invoice first what its fixture reports.
-/

set_option autoImplicit false

namespace Settlement

open Client Dialogue Js

variable (abi : Abi) (c : Config) (intent : Intent)

/-! ## `transferOutcome` -/

section Transfers

variable (d : PaymentDeployment) (p : RecordedPayment)

/-- The Safe's tokens go to the bridge. -/
def isLock (log : Log) : Bool :=
  match protocol abi log d.tokenL1 with
  | some (.transfer sender recipient value) =>
    same sender c.safeL1 && same recipient d.bridgeL1 && value = Client.bigInt p.amount
  | _ => false

/-- The bridge has taken them in for the rollup. -/
def isDeposit (log : Log) : Bool :=
  match protocol abi log d.bridgeL1 with
  | some (.tokensBridged token sender rollupId amount) =>
    same token d.tokenL1 && same sender c.safeL1 && rollupId = Client.bigInt (p.rollupId.getD "") &&
      amount = Client.bigInt p.amount
  | _ => false

/-- The bridge calls `receiveTokens` for the Safe on EEZ-X. -/
def isBridgeCall (e : Outgoing) : Bool :=
  same e.sourceAddress d.bridgeL1 && e.value = 0 &&
    (abi.decodeReceiveTokens e.callData).any fun call ↦
      same call.token d.tokenL1 && call.origin = 0 && same call.recipient c.safeL2 &&
        call.value = Client.bigInt p.amount && call.source = 0

/-- Whether the call was executed by the bridge on EEZ-X. -/
def isDelivery (call : Outgoing) (log : Log) : Bool :=
  (incoming abi log c.manager).any fun e ↦
    e.crossChainCallHash = call.crossChainCallHash && e.isStatic = false && e.sourceRollup = 0 && e.value = 0 &&
      same e.sourceAddress d.bridgeL1 && same e.destination d.bridgeL2 && e.data = call.callData

/-- The tokens of the Safe on EEZ-X are created. -/
def isCreation (log : Log) : Bool :=
  match protocol abi log d.tokenL2 with
  | some (.transfer sender recipient value) =>
    same sender zeroAddress && same recipient c.safeL2 && value = Client.bigInt p.amount
  | _ => false

def isMint (log : Log) : Bool :=
  match protocol abi log d.bridgeL2 with
  | some (.wrappedTokensMinted wrappedToken recipient amount) =>
    same wrappedToken d.tokenL2 && same recipient c.safeL2 && amount = Client.bigInt p.amount
  | _ => false

/-- The transactions of a block that emitted the call hash. -/
def sourceHashes (callHash : String) (receipt : Receipt) (origins : List Log) : List String :=
  ((origins.filter fun log ↦ same log.blockHash receipt.blockHash &&
    (outgoing abi log c.registry).any fun e ↦ e.crossChainCallHash = callHash).map
      fun log ↦ lowerCase log.transactionHash).dedup

/-- The logs that the Composer says were settled with the block of the receipt. -/
def deliveries (call : Outgoing) (receipt : Receipt) : List Log → ClientM (List Log)
  | [] => pure []
  | log :: logs =>
    if isDelivery abi c d call log then do
      let settlement ← getSettlementByL2Block log.blockHash
      let more ← deliveries call receipt logs
      pure (if settlement.any (·.settles receipt log) then log :: more else more)
    else deliveries call receipt logs

/-- The receipt of the delivery, if the log and the blocks are as they were. -/
def deliveryOutcome (hash : String) (receipt : Receipt) (safe : Block) (call : Outgoing) (log : Log) :
    ClientM Outcome := do
  let pending : Outcome :=
    { Outcome.pending hash "Safe transfer included. Verifying the EEZ-X Safe’s receipt." with
      sourceBlock := some receipt.blockNumber }
  let destination ← getTransactionReceipt .l2 log.transactionHash
  let block ← getBlockByNumber .l2 log.blockNumber
  match destination with
  | none => pure pending
  | some destination =>
    if destination.blockHash ≠ log.blockHash ∨ block.map Block.hash ≠ some log.blockHash ∨
        log.blockNumber > safe.number then pure pending
    else do
      check (destination.status = "0x1" ∧ destination.blockNumber = log.blockNumber ∧
        destination.logs.any (isDelivery abi c d call) = true ∧ destination.logs.any (isCreation abi c d p) = true ∧
        destination.logs.any (isMint abi c d p) = true) "Missing exact EEZ-X Safe mint evidence"
      let same ← unchanged receipt log
      pure (if same then .settled hash log.transactionHash receipt.blockNumber log.blockNumber
          ⟨Client.bigInt p.amount, 0⟩ "Transfer completed. The EEZ-X Safe received the tokens."
        else pending)

def transferOutcome (start : ℕ) (hash : String) (receipt : Receipt) : ClientM Outcome := do
  let pending : Outcome :=
    { Outcome.pending hash "Safe transfer included. Verifying the EEZ-X Safe’s receipt." with
      sourceBlock := some receipt.blockNumber }
  check ((receipt.logs.filter (isLock abi c d p)).length = 1 ∧ (receipt.logs.filter (isDeposit abi c d p)).length = 1)
    "Missing exact Safe-to-bridge transfer evidence"
  let safe ← getSafeBlock
  match safe.filter fun safe ↦ start ≤ safe.number with
  | none => pure pending
  | some safe =>
    match (receipt.logs.filterMap (outgoing abi · c.registry)).filter (isBridgeCall abi c d p) with
    | [call] => do
      let callHash := call.crossChainCallHash
      let origins ← getLogs .l1 ⟨c.registry, .block receipt.blockHash, abi.outgoingTopics (some callHash) none⟩
      check (sourceHashes abi c callHash receipt origins = [lowerCase hash])
        "Ambiguous source transfer; keeping this request for verification"
      let logs ← getLogs .l2 ⟨c.manager, .range start (some safe.number), abi.incomingTopics callHash⟩
      match ← deliveries abi c d call receipt logs with
      | [] => pure pending
      | [log] => deliveryOutcome abi c d p hash receipt safe call log
      | _ => fail "Ambiguous transfer evidence; keeping this request for verification"
    | _ => fail "Missing unique bridge execution in the source transaction"

end Transfers

/-! ## `l1PaymentOutcome` -/

section L1

variable (d : PaymentDeployment) (p : RecordedPayment)

/-- The hash of the wallet's transaction, if it is known or can be found. -/
def l1Hash : ClientM (Option String) :=
  match intent.known with
  | some hash => pure (some hash)
  | none => do
    let logs ← getLogs .l1 ⟨c.safeL1, .range (Client.bigInt intent.startBlock) none, [abi.safeExecutionTopics]⟩
    pure ((logs.find? (isExecution abi c.safeL1 intent.safeHash)).map Log.transactionHash)

/-- The policy's marker of the Safe transaction. -/
def isMarker (topics : List String) (log : Log) : Bool := same log.address d.policy && log.topics = topics

/-- The receipt of the payment on EEZ-X, if the event and the blocks are as they were. -/
def eventOutcome (hash : String) (receipt : Receipt) (safe : Block) (topics : List String) (event : Log) :
    ClientM Outcome := do
  let l2Receipt ← getTransactionReceipt .l2 event.transactionHash
  let l2Block ← getBlockByNumber .l2 event.blockNumber
  match l2Receipt with
  | none => pure (.pending hash "L2 payment evidence changed. Rechecking settlement.")
  | some l2Receipt =>
    if l2Receipt.blockHash ≠ event.blockHash ∨ l2Block.map Block.hash ≠ some event.blockHash ∨
        event.blockNumber > safe.number then
      pure (.pending hash "L2 payment evidence changed. Rechecking settlement.")
    else do
      check (l2Receipt.status = "0x1" ∧ l2Receipt.logs.any (isMarker d topics) = true)
        "Missing authenticated L1 payment marker in the L2 receipt"
      match ← ofExcept (settledPayment abi c.payments p l2Receipt.logs) with
      | none => fail "L1 Safe succeeded without matching canonical payment events"
      | some contributions => do
        let same ← unchanged receipt event
        pure (if same then .settled hash event.transactionHash receipt.blockNumber event.blockNumber contributions
            "Settled on L1. The L1 Safe execution and matching L2 payment are canonical."
          else .pending hash "Chain observations changed during verification. Rechecking settlement.")

/-- What the policy shows of a payment that the Safe has executed. -/
def policyOutcome (start : ℕ) (reviewed : Reviewed) (hash : String) (receipt : Receipt) : ClientM Outcome := do
  let safe ← getSafeBlock
  match safe.filter fun safe ↦ start ≤ safe.number with
  | none => pure (.pending hash "L1 Safe executed. Waiting for canonical L2 payment evidence.")
  | some safe => do
    let topics := abi.authorizedTopics (Client.bigInt intent.nonce + 1) reviewed.callHash
    let events ← getLogs .l2 ⟨d.policy, .range start (some safe.number), topics.map fun topic ↦ [topic]⟩
    match events with
    | [] => pure (.pending hash "L1 Safe executed. Waiting for canonical L2 payment evidence.")
    | [event] => eventOutcome abi c d p hash receipt safe topics event
    | _ => fail "Ambiguous L1 payment evidence; keep this request for verification"

/-- A transaction of the Safe on L1 that has a receipt. -/
def includedOutcome (start : ℕ) (reviewed : Reviewed) (hash : String) (receipt : Receipt) : ClientM Outcome := do
  let transaction ← getTransactionByHash .l1 hash
  let l1Block ← getBlockByNumber .l1 receipt.blockNumber
  check (transaction.any (isSubmission intent c.safeL1) = true)
    "Transaction hash does not match this reviewed L1 action"
  if l1Block.map Block.hash ≠ some receipt.blockHash then
    pure (.pending hash "L1 inclusion changed. Rechecking the submitted payment.")
  else if ¬(receipt.status = "0x1" ∧ succeeded abi c.safeL1 intent.safeHash receipt.logs = true) then
    pure (.rejected hash (some receipt.blockNumber) (some "execution") "The canonical L1 Safe transaction failed.")
  else
    match c.payments with
    | none => fail undefinedValue
    | some d =>
      if p.kind = some "transfer" then transferOutcome abi c d p start hash receipt
      else policyOutcome abi c intent d p start reviewed hash receipt

def l1PaymentOutcome : ClientM Outcome :=
  match intent.payment, l2Start intent with
  | some p, some start => do
    check (p.source = some "l1" ∧ c.frontL1 = true) "Missing L1 payment tracking identity"
    let reviewed ← ofExcept (abi.reviewed p (Client.bigInt intent.nonce))
    check (reviewed.safeHash = intent.safeHash) "L1 Safe transaction does not match the reviewed payment"
    match ← l1Hash abi c intent with
    | none =>
      pure (.unknown "Waiting for the wallet transaction. This payment will not be resubmitted automatically.")
    | some hash => do
      let receipt ← getTransactionReceipt .l1 hash
      let status ← getCrossChainTransaction .l1 hash
      match receipt, disposal status with
      | some receipt, _ => includedOutcome abi c intent p start reviewed hash receipt
      | none, some reason => pure (.rejected hash none none
          ("Composer ended this request (" ++ reason ++ "). Refresh owners and nonce before a new review."))
      | none, none => pure (.pending hash "Waiting for the L1 Safe transaction and cross-chain settlement.")
  | _, _ => fail "Missing L1 payment tracking identity"

end L1

/-! ## `mirrorRelayOutcome` -/

section Mirror

variable (d : PaymentDeployment) (safeL2Alias : String)

/-- The call of the Safe's alias that the intent makes. -/
def isRelay (e : Outgoing) : Bool :=
  same e.sourceAddress intent.sender && same e.callData intent.data && e.value = 0

/-- The transactions among these with the nonce of the intent; replacements share the calldata. -/
def identities : List Log → List String → ClientM (List String)
  | [], found => pure found
  | log :: logs, found => do
    let tx ← getTransactionByHash .l1 log.transactionHash
    identities logs (if tx.any (fun tx ↦ tx.nonce = Client.bigInt intent.sourceNonce) ∧ log.transactionHash ∉ found
      then found ++ [log.transactionHash] else found)

/-- The hash of the wallet's transaction, if it is known or can be found. -/
def mirrorHash : ClientM (Option String) :=
  match intent.known with
  | some hash => pure (some hash)
  | none => do
    let logs ← getLogs .l1 ⟨c.registry, .range (Client.bigInt intent.startBlock) none,
      abi.outgoingTopics none (some safeL2Alias)⟩
    let found ← identities intent (logs.filter fun log ↦ (outgoing abi log c.registry).any (isRelay intent)) []
    check (found.length ≤ 1) "Ambiguous mirror submission; keep this request for verification"
    pure found.head?

/-- Whether the relayed call was executed by the Safe on EEZ-X. -/
def isRelayed (callHash : String) (log : Log) : Bool :=
  (incoming abi log c.manager).any fun e ↦
    e.crossChainCallHash = callHash && e.isStatic = false && e.sourceRollup = 0 && e.value = 0 &&
      same e.sourceAddress intent.sender && same e.destination c.safeL2 && same e.data intent.data

/-- The executions that the Composer says were settled with the block of the receipt, with their receipts. -/
def executions (callHash : String) (receipt : Receipt) : List Log → ClientM (List (Log × Receipt))
  | [] => pure []
  | log :: logs => do
    let destination ← getTransactionReceipt .l2 log.transactionHash
    match destination.filter fun destination ↦
        destination.blockHash = log.blockHash && destination.logs.any (isRelayed abi c intent callHash) with
    | none => executions callHash receipt logs
    | some destination => do
      let settlement ← getSettlementByL2Block log.blockHash
      let more ← executions callHash receipt logs
      pure (if settlement.any (·.settles receipt log) then (log, destination) :: more else more)

/-- What the one execution shows. -/
def executionOutcome (p : RecordedPayment) (hash : String) (receipt : Receipt) (log : Log) (destination : Receipt) :
    ClientM Outcome := do
  let contributions ← ofExcept (settledPayment abi (some d) p destination.logs)
  match contributions with
  | none => fail "Mirror Safe did not complete the reviewed payment"
  | some contributions => do
    check (destination.status = "0x1" ∧ (decodeSafeExecution abi log).any (·.success) = true)
      "Mirror Safe did not complete the reviewed payment"
    let same ← unchanged receipt log
    pure (if same then .settled hash log.transactionHash receipt.blockNumber log.blockNumber contributions
        "Payment completed. The EEZ-X Safe execution and Ethereum submission are verified."
      else .pending hash "Verifying the Ethereum submission and EEZ-X Safe execution.")

/-- A relay whose transaction has a receipt. -/
def relayOutcome (p : RecordedPayment) (start : ℕ) (hash : String) (receipt : Receipt) : ClientM Outcome := do
  let pending := Outcome.pending hash "Verifying the Ethereum submission and EEZ-X Safe execution."
  let tx ← getTransactionByHash .l1 hash
  let block ← getBlockByNumber .l1 receipt.blockNumber
  check (tx.any (isSubmission intent safeL2Alias) = true)
    "Ethereum transaction does not match the reviewed mirror payment"
  if block.map Block.hash ≠ some receipt.blockHash then pure pending
  else if receipt.status ≠ "0x1" then
    pure (.rejected hash (some receipt.blockNumber) (some "execution") "The Ethereum relay transaction reverted.")
  else
    match (receipt.logs.filterMap (outgoing abi · c.registry)).filter fun e ↦
        same e.proxy safeL2Alias && isRelay intent e with
    | [call] => do
      let callHash := call.crossChainCallHash
      let origins ← getLogs .l1 ⟨c.registry, .block receipt.blockHash, abi.outgoingTopics (some callHash) none⟩
      check (origins.length = 1 ∧ origins.all (fun log ↦ same log.transactionHash hash) = true)
        "Ambiguous relay source identity"
      let safe ← getSafeBlock
      match safe.filter fun safe ↦ start ≤ safe.number with
      | none => pure pending
      | some safe => do
        let logs ← getLogs .l2 ⟨c.safeL2, .range start (some safe.number), [abi.safeExecutionTopics]⟩
        match ← executions abi c intent callHash receipt
          (logs.filter (isExecution abi c.safeL2 intent.safeHash)) with
        | [] => pure pending
        | [(log, destination)] => executionOutcome abi d p hash receipt log destination
        | _ => fail "Ambiguous mirror execution evidence"
    | _ => fail "Missing unique mirror relay execution"

def mirrorRelayOutcome : ClientM Outcome :=
  match c.payments, intent.payment, l2Start intent with
  | some d, some p, some start =>
    match d.safeL2Alias with
    | none => fail "Missing mirror relay identity"
    | some safeL2Alias => do
      check (d.standard = true ∧ p.source ≠ some "l1") "Missing mirror relay identity"
      match ← mirrorHash abi c intent safeL2Alias with
      | none =>
        pure (.unknown "Waiting for the Ethereum submission. This payment will not be resubmitted automatically.")
      | some hash => do
        let receipt ← getTransactionReceipt .l1 hash
        let status ← getCrossChainTransaction .l1 hash
        match receipt, disposal status with
        | some receipt, _ => relayOutcome abi c intent d safeL2Alias p start hash receipt
        | none, some reason => pure (.rejected hash none (some "preparation")
            ("Composer ended this request (" ++ reason ++ "). Review again before retrying."))
        | none, none => pure (.pending hash "Verifying the Ethereum submission and EEZ-X Safe execution.")
  | _, _, _ => fail "Missing mirror relay identity"

end Mirror

/-! ## `TreasuryClient.outcome` -/

/-- The hash of the transaction on EEZ-X, if it is known or can be found. -/
def l2Hash : ClientM (Option String) :=
  match intent.known with
  | some hash => pure (some hash)
  | none => do
    let logs ← getLogs .l2 ⟨c.safeL2, .range (Client.bigInt intent.startBlock) none, [abi.safeExecutionTopics]⟩
    pure (((logs.filter (isExecution abi c.safeL2 intent.safeHash)).getLast?).map Log.transactionHash)

/-- A transaction on EEZ-X that has a receipt. -/
def executedOutcome (txHash : String) (receipt : Receipt) : ClientM Outcome := do
  let safe ← getSafeBlock
  let block ← getBlockByNumber .l2 receipt.blockNumber
  let transaction ← getTransactionByHash .l2 txHash
  check (transaction.any (fun transaction ↦ same transaction.sender intent.sender &&
    same transaction.target c.safeL2 && same transaction.input intent.data) = true)
    "Transaction hash does not match this reviewed action"
  if safe.any (fun safe ↦ receipt.blockNumber ≤ safe.number) ∧ block.map Block.hash = some receipt.blockHash then do
    let success := succeeded abi c.safeL2 intent.safeHash receipt.logs
    let contributions ← ofExcept (match intent.payment with
      | none => .ok none
      | some p => settledPayment abi c.payments p receipt.logs)
    check (intent.payment.isNone = true ∨ success = false ∨ contributions.isSome = true)
      "Safe succeeded without the expected payment event; investigate this transaction"
    let settled := decide (receipt.status = "0x1") && success
    pure {
      kind := if settled then .settled else .rejected
      hash := some txHash, executionL1 := none, executionL2 := some txHash
      sourceBlock := none, block := some receipt.blockNumber, contributions
      rejectionStage := if settled then none else some "execution"
      rollback := none
      detail := if settled then "Settled on L1. Safe execution is in the canonical L2 safe chain."
        else "Canonical transaction failed; the Safe action did not succeed." }
  else pure (.pending txHash "Executed speculatively. Waiting for canonical L1 settlement.")

/-- Whether the Composer has ended the request, or it cannot be executed any more. -/
def isOver (status : Option Status) : ClientM Bool :=
  if (disposal status).isSome then pure true else canonicalRequestRetired c intent

/-- What the fixture's report says of an invoice without a receipt, unless it leaves it to the Composer. -/
def reportedOutcome (p : RecordedPayment) (txHash : String) (status : Option Status) (report : InvoiceEvidence) :
    ClientM (Option Outcome) :=
  match report.phase with
  | .verified => do
    let ended ← isOver c intent status
    if ended then do
      let rollback ← verifyInvoiceRollback abi c intent p report
      pure (some { Outcome.rejected txHash none none ("Rollback verified at L1 settlement. Both payment legs " ++
        "executed before invoice rejection; no payment funds or budget were consumed.") with
          rollback := some rollback })
    else pure (some (.pending txHash
      "L1 payment effects rolled back. Waiting for Composer to finish reconciliation."))
  | .unverified =>
    match disposal status with
    | some reason => pure (some (.rejected txHash none none ("Composer ended this request (" ++ reason ++
        "). The fixture did not verify the intended rollback: " ++ report.detail)))
    | none => pure (some (.pending txHash ("Invoice outcome remains unverified: " ++ report.detail)))
  | .armed | .executing =>
    pure (some (.pending txHash "Invoice payment is being checked for canonical rollback evidence."))
  | .opened =>
    pure (if disposal status = some "PoolDiscarded" ∧ report.mode = some .preparation ∧ report.id = p.invoiceId ∧
        report.amount = some p.amount ∧ report.recipient.map lowerCase = some (lowerCase p.recipient) then
      some (.rejected txHash none (some "preparation") ("Rejected during preparation: the fixture closed this " ++
        "invoice before submission. Composer discarded the request; no L1 rollback is claimed."))
    else none)
  | .cancelled => pure none

/-- What the Composer's status says. -/
def statusOutcome (txHash : String) (status : Option Status) : Outcome :=
  match disposal status with
  | some reason => .rejected txHash none none
      ("Composer ended this request (" ++ reason ++ "). Refresh owners and nonce before a new review.")
  | none => .pending txHash (if status.isSome then
        "Composer accepted the request. Waiting for canonical settlement."
      else "Outcome unresolved. Checking the submitted hash; no automatic resubmission.")

/-- A transaction on EEZ-X that has no receipt. -/
def unseenOutcome (txHash : String) (status : Option Status) : ClientM Outcome :=
  match intent.payment.filter fun p ↦ p.kind = some "invoice" with
  | none => pure (statusOutcome txHash status)
  | some p => do
    match ← invoiceEvidence c p with
    | none => pure (statusOutcome txHash status)
    | some report => do
      let reported ← reportedOutcome abi c intent p txHash status report
      pure (reported.getD (statusOutcome txHash status))

def submittedOutcome : ClientM Outcome := do
  match ← l2Hash abi c intent with
  | none => pure (.unknown
      "No transaction hash yet. Check wallet activity; this action will not be resubmitted automatically.")
  | some txHash => do
    let receipt ← getTransactionReceipt .l2 txHash
    let status ← getCrossChainTransaction .l2 txHash
    match receipt with
    | some receipt => executedOutcome abi c intent txHash receipt
    | none => unseenOutcome abi c intent txHash status

def outcome : ClientM Outcome :=
  if intent.payment.any fun p ↦ p.source = some "l1" then l1PaymentOutcome abi c intent
  else if c.payments.any PaymentDeployment.standard then mirrorRelayOutcome abi c intent
  else submittedOutcome abi c intent

end Settlement
