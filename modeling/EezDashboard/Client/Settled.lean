import EezDashboard.Client.Evidence

/-!
# What a settled payment has behind it

`Settlement.outcome_settled` says what was true of the chains whenever a payment is reported as settled, on
each of the three routes, and `Settlement.outcome_rejected` whenever one is reported as rejected.  The
routes are followed read by read; what is found on the way is kept by `Sourced` for the chain of the
transaction and by `Shown` for the logs of EEZ-X, and the last three reads are those of `unchanged`.
-/

set_option autoImplicit false

namespace Settlement

open Client Dialogue Js

/-! ## The reads of a route -/

section Routes

variable {ledger : Ledger} {history : ℕ → World ledger} {abi : Abi} {c : Config} {intent : Intent}
  {p : RecordedPayment} {d : PaymentDeployment} {target safeL2Alias hash l2 : String} {receipt destination : Receipt}
  {o : Outcome} {log : Log} {k start : ℕ} {t t' : Transcript Request Answer}

/-- An outcome that is final has something behind it. -/
structure Reported (history : ℕ → World ledger) (abi : Abi) (c : Config) (intent : Intent) (o : Outcome)
    (t : Transcript Request Answer) : Prop where
  settled : o.kind = .settled → Evidence history abi c intent o t
  rejected : o.kind = .rejected → Refusal history abi c intent o t

theorem returns_pure (hsettled : o.kind ≠ .settled) (hrejected : o.kind ≠ .rejected) :
    Returns history (pure o) (Reported history abi c intent) t :=
  (ensures_pure o).2 ⟨fun h ↦ absurd h hsettled, fun h ↦ absurd h hrejected⟩

theorem returns_settled (hkind : o.kind = .settled) (h : Evidence history abi c intent o t) :
    Returns history (pure o) (Reported history abi c intent) t :=
  (ensures_pure o).2 ⟨fun _ ↦ h, by rw [hkind]; rintro ⟨⟩⟩

theorem returns_rejected (hkind : o.kind = .rejected) (h : Refusal history abi c intent o t) :
    Returns history (pure o) (Reported history abi c intent) t :=
  (ensures_pure o).2 ⟨by rw [hkind]; rintro ⟨⟩, fun _ ↦ h⟩

theorem returns_unchanged {β : Type} {f : Bool → ClientM β} {post : β → Transcript Request Answer → Prop}
    (hno : ∀ t', Returns history (f false) post t')
    (hyes : ∀ t', t <+: t' → t'.length = t.length + 3 →
      (history t.length).canonical .l1 receipt.blockNumber = some receipt.blockHash →
      (history (t.length + 1)).canonical .l2 log.blockNumber = some log.blockHash →
      (∃ n, (history (t.length + 2)).safe = some n ∧ log.blockNumber ≤ n) → Returns history (f true) post t') :
    Returns history (unchanged receipt log >>= f) post t := by
  rw [Returns, ensures_bind, unchanged]
  refine returns_getBlockByNumber fun l1Again hl1 ↦ returns_getBlockByNumber fun l2Again hl2 ↦
    returns_getSafeBlock fun safeAgain hsafe ↦ (ensures_pure _).2 ?_
  cases hsame : (decide (l1Again.map Block.hash = some receipt.blockHash) &&
    decide (l2Again.map Block.hash = some log.blockHash) && safeAgain.any fun safe ↦ log.blockNumber ≤ safe.number) with
  | false => exact hno _
  | true =>
    simp only [Bool.and_eq_true, decide_eq_true_eq, Option.any_eq_true, Option.map_eq_some_iff] at hsame
    obtain ⟨⟨⟨b, hb, hhash⟩, b', hb', hhash'⟩, safe, hsafe', hle⟩ := hsame
    have hcanonical := (hl1 b hb).2
    have hcanonical' := (hl2 b' hb').2
    have hlast := (hsafe safe hsafe').1
    simp only [List.length_append, List.length_singleton] at hcanonical' hlast
    refine hyes _ ?_ ?_ (hhash ▸ hcanonical) (hhash' ▸ hcanonical') ⟨safe.number, hlast, hle⟩
    · simp only [List.append_assoc, List.prefix_append]
    · simp only [List.length_append, List.length_singleton]

/-! ### Both chains -/

/-- What is known of the wallet's transaction before EEZ-X is looked at. -/
structure Sourced (ledger : Ledger) (intent : Intent) (target hash : String) (receipt : Receipt) : Prop where
  included : ledger.Includes .l1 hash receipt
  submitted : ∃ tx, Submits ledger .l1 intent target hash tx ∧
    tx.nonce = Client.bigInt intent.sourceNonce ∧ tx.value = 0
  status : receipt.status = "0x1"

theorem Sourced.stands (h : Sourced ledger intent target hash receipt) {contributions : Contributions}
    {detail : String} (hincluded : ledger.Includes .l2 log.transactionHash destination)
    (hhash : destination.blockHash = log.blockHash) (hnumber : destination.blockNumber = log.blockNumber)
    (hstatus : destination.status = "0x1")
    (hcanonical : (history k).canonical .l1 receipt.blockNumber = some receipt.blockHash)
    (hcanonical' : (history (k + 1)).canonical .l2 log.blockNumber = some log.blockHash)
    (hsafe : ∃ n, (history (k + 2)).safe = some n ∧ log.blockNumber ≤ n) :
    Stands history intent target k hash log.transactionHash receipt destination
      (.settled hash log.transactionHash receipt.blockNumber log.blockNumber contributions detail) where
  reported := rfl
  source := rfl
  execution := rfl
  sourceBlock := rfl
  block := congrArg some hnumber.symm
  includedL1 := h.included
  includedL2 := hincluded
  canonicalL1 := hcanonical
  canonicalL2 := by rw [hnumber, hhash, hcanonical']
  safe := hnumber ▸ hsafe
  submitted := h.submitted
  statusL1 := h.status
  statusL2 := hstatus

/-- A log that a node has reported, and the receipt of its transaction. -/
structure Shown (ledger : Ledger) (log : Log) : Prop where
  shown : ∃ receipt, ledger.Includes .l2 log.transactionHash receipt ∧ log ∈ receipt.logs ∧
    receipt.blockHash = log.blockHash ∧ receipt.blockNumber = log.blockNumber

theorem Shown.mem_logs (h : Shown ledger log) (hincluded : ledger.Includes .l2 log.transactionHash destination)
    (hhash : destination.blockHash = log.blockHash) : log ∈ destination.logs ∧
      destination.blockNumber = log.blockNumber := by
  obtain ⟨receipt, hreceipt, hlog, hhash', hnumber⟩ := h.shown
  obtain rfl := hincluded.unique hreceipt (hhash.trans hhash'.symm)
  exact ⟨hlog, hnumber⟩

theorem shown_of_mem {w : World ledger} {filter : Filter} (h : log ∈ w.logs .l2 filter) : Shown ledger log :=
  ⟨World.mem_logs h⟩

/-! ### A payment of the Safe on L1 -/

theorem MarkedOnce.mono {k' : ℕ} (h : MarkedOnce history abi c intent p k destination) (hle : k ≤ k') :
    MarkedOnce history abi c intent p k' destination := by
  obtain ⟨reviewed, d, start, safe, event, j, hlt, h⟩ := h
  exact ⟨reviewed, d, start, safe, event, j, hlt.trans_le hle, h⟩

theorem returns_eventOutcome (hpayment : intent.payment = some p) (hside : p.source = some "l1")
    (hkind : p.kind ≠ some "transfer") (hsource : Sourced ledger intent c.safeL1 hash receipt)
    (hexecuted : Executed abi c.safeL1 intent.safeHash receipt.logs) {safe : Block} {topics : List String}
    (hshown : Shown ledger log)
    (hmarked : ∀ destination : Receipt, log ∈ destination.logs →
      MarkedOnce history abi c intent p t.length destination) :
    Returns history (eventOutcome abi c d p hash receipt safe topics log) (Reported history abi c intent) t := by
  rw [eventOutcome]
  refine returns_getTransactionReceipt fun l2Receipt hl2 ↦ returns_getBlockByNumber fun l2Block _ ↦ ?_
  cases l2Receipt with
  | none => exact returns_pure (by rintro ⟨⟩) (by rintro ⟨⟩)
  | some destination =>
    have hincluded := hl2 destination rfl
    dsimp only
    split
    next => exact returns_pure (by rintro ⟨⟩) (by rintro ⟨⟩)
    next hplace =>
      rw [not_or, not_not] at hplace
      obtain ⟨hmem, hnumber⟩ := hshown.mem_logs hincluded hplace.1
      rw [Returns, ensures_bind, ensures_check]
      rintro ⟨hstatus, -⟩
      rw [ensures_bind, ensures_ofExcept]
      intro result hresult
      cases result with
      | none => exact ensures_fail _
      | some contributions =>
        refine returns_unchanged (fun t' ↦ returns_pure (by rintro ⟨⟩) (by rintro ⟨⟩))
          fun t' _ hlength hcanonical hcanonical' hsafe ↦ returns_settled rfl ⟨_, hlength, ?_⟩
        rw [if_pos (by simp [hpayment, hside])]
        refine ⟨p, hash, log.transactionHash, receipt, destination, hpayment, ?_⟩
        rw [if_neg hkind]
        exact {
          hsource.stands hincluded hplace.1 hnumber hstatus hcanonical hcanonical' hsafe with
          executed := hexecuted
          marked := (hmarked destination hmem).mono (by simp)
          paid := settledPayment_eq_some hresult }

theorem returns_policyOutcome (hpayment : intent.payment = some p) (hside : p.source = some "l1")
    (hkind : p.kind ≠ some "transfer") (hd : c.payments = some d) (hstart : l2Start intent = some start)
    {reviewed : Reviewed} (hreviewed : abi.reviewed p (Client.bigInt intent.nonce) = .ok reviewed)
    (hsafeHash : reviewed.safeHash = intent.safeHash) (hsource : Sourced ledger intent c.safeL1 hash receipt)
    (hexecuted : Executed abi c.safeL1 intent.safeHash receipt.logs) :
    Returns history (policyOutcome abi c intent d p start reviewed hash receipt) (Reported history abi c intent) t := by
  rw [policyOutcome]
  refine returns_getSafeBlock fun safe _ ↦ ?_
  cases safe.filter fun safe ↦ start ≤ safe.number with
  | none => exact returns_pure (by rintro ⟨⟩) (by rintro ⟨⟩)
  | some safe =>
    refine returns_getLogs ?_
    split
    next => exact returns_pure (by rintro ⟨⟩) (by rintro ⟨⟩)
    next event hevents =>
      have hshown := shown_of_mem (hevents ▸ List.mem_singleton_self event)
      refine returns_eventOutcome hpayment hside hkind hsource hexecuted hshown fun destination hlog ↦ ?_
      exact ⟨reviewed, d, start, safe.number, event, _, by simp, hreviewed, hsafeHash, hd, hstart, hlog, hevents⟩
    next => exact ensures_fail _

/-! ### A transfer between the Safes -/

/-- The Composer's record for the block of a log. -/
def SaidOf (receipt : Receipt) (log : Log) (t : Transcript Request Answer) : Prop :=
  ∃ record, (Request.getSettlementByL2Block log.blockHash, Answer.settlement (some record)) ∈ t ∧
    record.settles receipt log = true

theorem SaidOf.mono (h : SaidOf receipt log t) (hlonger : t <+: t') : SaidOf receipt log t' := by
  obtain ⟨record, hmem, hsettles⟩ := h
  exact ⟨record, hlonger.mem hmem, hsettles⟩

theorem SaidOf.saidToSettle (h : SaidOf receipt log t) (hhash : destination.blockHash = log.blockHash)
    (hnumber : destination.blockNumber = log.blockNumber) : SaidToSettle receipt destination t := by
  obtain ⟨record, hmem, hsettles⟩ := h
  rw [SaidToSettle, hhash, hnumber]
  exact ⟨record, hmem, Record.settles_eq_true hsettles⟩

theorem returns_deliveries {call : Outgoing} {logs : List Log} :
    Returns history (deliveries abi c d call receipt logs) (fun found t' ↦ t <+: t' ∧
      ∀ log ∈ found, log ∈ logs ∧ isDelivery abi c d call log = true ∧ SaidOf receipt log t') t := by
  induction logs generalizing t with
  | nil => exact (ensures_pure _).2 ⟨List.prefix_rfl, fun log hlog ↦ by cases hlog⟩
  | cons log logs ih =>
    rw [deliveries]
    split
    next hdelivery =>
      refine returns_getSettlementByL2Block fun record ↦ Ensures.bind ih fun found t' hfound ↦ (ensures_pure _).2 ?_
      obtain ⟨hlonger, hall⟩ := hfound
      refine ⟨(List.prefix_append _ _).trans hlonger, fun l hl ↦ ?_⟩
      have hlater (hl : l ∈ found) : l ∈ log :: logs ∧ isDelivery abi c d call l = true ∧ SaidOf receipt l t' :=
        ⟨List.mem_cons_of_mem _ (hall l hl).1, (hall l hl).2⟩
      split at hl
      next hsettles =>
        cases hl with
        | head =>
          rw [Option.any_eq_true] at hsettles
          obtain ⟨r, rfl, hr⟩ := hsettles
          exact ⟨List.mem_cons_self, hdelivery, r, hlonger.mem (by simp), hr⟩
        | tail _ hl => exact hlater hl
      next => exact hlater hl
    next =>
      refine ensures_mono (fun found t' hfound ↦ ?_) ih
      exact ⟨hfound.1, fun l hl ↦ ⟨List.mem_cons_of_mem _ (hfound.2 l hl).1, (hfound.2 l hl).2⟩⟩

/-- What the transaction on L1 shows of a transfer; the origins were read at `j`. -/
structure Bridged (history : ℕ → World ledger) (abi : Abi) (c : Config) (d : PaymentDeployment)
    (p : RecordedPayment) (hash : String) (receipt : Receipt) (call : Outgoing) (j : ℕ) : Prop where
  lock : (receipt.logs.filter (isLock abi c d p)).length = 1
  deposit : (receipt.logs.filter (isDeposit abi c d p)).length = 1
  unique : (receipt.logs.filterMap (outgoing abi · c.registry)).filter (isBridgeCall abi c d p) = [call]
  origin : sourceHashes abi c call.crossChainCallHash receipt ((history j).logs .l1
    ⟨c.registry, .block receipt.blockHash, abi.outgoingTopics (some call.crossChainCallHash) none⟩) = [lowerCase hash]

theorem returns_deliveryOutcome (hpayment : intent.payment = some p) (hside : p.source = some "l1")
    (hkind : p.kind = some "transfer") (hd : c.payments = some d)
    (hsource : Sourced ledger intent c.safeL1 hash receipt)
    (hexecuted : Executed abi c.safeL1 intent.safeHash receipt.logs) {safe : Block} {call : Outgoing} {j : ℕ}
    (hbridged : Bridged history abi c d p hash receipt call j) (hj : j < t.length) (hshown : Shown ledger log)
    (hsaid : SaidOf receipt log t) :
    Returns history (deliveryOutcome abi c d p hash receipt safe call log) (Reported history abi c intent) t := by
  rw [deliveryOutcome]
  refine returns_getTransactionReceipt fun l2Receipt hl2 ↦ returns_getBlockByNumber fun l2Block _ ↦ ?_
  cases l2Receipt with
  | none => exact returns_pure (by rintro ⟨⟩) (by rintro ⟨⟩)
  | some destination =>
    have hincluded := hl2 destination rfl
    dsimp only
    split
    next => exact returns_pure (by rintro ⟨⟩) (by rintro ⟨⟩)
    next hplace =>
      rw [not_or, not_not] at hplace
      obtain ⟨-, hnumber⟩ := hshown.mem_logs hincluded hplace.1
      rw [Returns, ensures_bind, ensures_check]
      rintro ⟨hstatus, -, hdelivery, hcreation, hmint⟩
      refine returns_unchanged (fun t' ↦ returns_pure (by rintro ⟨⟩) (by rintro ⟨⟩))
        fun t' hlonger hlength hcanonical hcanonical' hsafe ↦ returns_settled rfl ⟨_, hlength, ?_⟩
      rw [if_pos (by simp [hpayment, hside])]
      refine ⟨p, hash, log.transactionHash, receipt, destination, hpayment, ?_⟩
      have hbefore : t <+: t' := by
        rw [List.append_assoc] at hlonger
        exact (List.prefix_append _ _).trans hlonger
      rw [if_pos hkind]
      exact {
        hsource.stands hincluded hplace.1 hnumber hstatus hcanonical hcanonical' hsafe with
        executed := hexecuted
        bridged := ⟨d, call, hd, hbridged.lock, hbridged.deposit, hbridged.unique,
          ⟨j, hj.trans_le (by simp), hbridged.origin⟩, List.any_eq_true.1 hdelivery, List.any_eq_true.1 hcreation,
          List.any_eq_true.1 hmint⟩
        said := (hsaid.mono hbefore).saidToSettle hplace.1 hnumber
        contributions := rfl }

theorem returns_transferOutcome (hpayment : intent.payment = some p) (hside : p.source = some "l1")
    (hkind : p.kind = some "transfer") (hd : c.payments = some d)
    (hsource : Sourced ledger intent c.safeL1 hash receipt)
    (hexecuted : Executed abi c.safeL1 intent.safeHash receipt.logs) :
    Returns history (transferOutcome abi c d p start hash receipt) (Reported history abi c intent) t := by
  rw [transferOutcome]
  dsimp only
  rw [Returns, ensures_bind, ensures_check]
  rintro ⟨hlock, hdeposit⟩
  refine returns_getSafeBlock fun safe _ ↦ ?_
  cases safe.filter fun safe ↦ start ≤ safe.number with
  | none => exact returns_pure (by rintro ⟨⟩) (by rintro ⟨⟩)
  | some safe =>
    dsimp only
    split
    next call hcall =>
      refine returns_getLogs ?_
      rw [Returns, ensures_bind, ensures_check]
      intro horigin
      refine returns_getLogs (Ensures.bind returns_deliveries fun found t' hfound ↦ ?_)
      obtain ⟨hlonger, hall⟩ := hfound
      split
      next => exact returns_pure (by rintro ⟨⟩) (by rintro ⟨⟩)
      next log =>
        obtain ⟨hmem, -, hsaid⟩ := hall log (List.mem_singleton_self log)
        refine returns_deliveryOutcome hpayment hside hkind hd hsource hexecuted ⟨hlock, hdeposit, hcall, horigin⟩
          (lt_of_lt_of_le ?_ hlonger.length_le) (shown_of_mem hmem) hsaid
        simp
      next => exact ensures_fail _
    next => exact ensures_fail _

/-! ### The transaction on L1 -/

/-- The transaction that a node reports is the one of the intent. -/
theorem submits_of_any {transaction : Option Transaction}
    (htransaction : ∀ tx ∈ transaction, ledger.transaction .l1 hash = some tx)
    (hsubmission : transaction.any (isSubmission intent target) = true) :
    ∃ tx, Submits ledger .l1 intent target hash tx ∧ tx.nonce = Client.bigInt intent.sourceNonce ∧ tx.value = 0 := by
  rw [Option.any_eq_true] at hsubmission
  obtain ⟨tx, htx, hsubmission⟩ := hsubmission
  obtain ⟨⟨hsender, htarget, hinput⟩, hnonce, hvalue⟩ := isSubmission_eq_true hsubmission
  exact ⟨tx, ⟨htransaction tx htx, hsender, htarget, hinput⟩, hnonce, hvalue⟩

/-- The block that a node reports under the number of the receipt is the receipt's. -/
theorem canonical_of_map {w : World ledger} {side : Side} {block : Option Block}
    (hblock : ∀ b ∈ block, b.number = receipt.blockNumber ∧ w.canonical side receipt.blockNumber = some b.hash)
    (hsame : block.map Block.hash = some receipt.blockHash) :
    w.canonical side receipt.blockNumber = some receipt.blockHash := by
  obtain ⟨b, hb, hhash⟩ := Option.map_eq_some_iff.1 hsame
  exact hhash ▸ (hblock b hb).2

theorem returns_includedOutcome (hpayment : intent.payment = some p) (hside : p.source = some "l1")
    (hstart : l2Start intent = some start) {reviewed : Reviewed}
    (hreviewed : abi.reviewed p (Client.bigInt intent.nonce) = .ok reviewed)
    (hsafeHash : reviewed.safeHash = intent.safeHash) (hincluded : ledger.Includes .l1 hash receipt) :
    Returns history (includedOutcome abi c intent p start reviewed hash receipt) (Reported history abi c intent) t := by
  rw [includedOutcome]
  refine returns_getTransactionByHash fun transaction htransaction ↦ returns_getBlockByNumber fun l1Block hblock ↦ ?_
  rw [Returns, ensures_bind, ensures_check]
  intro hsubmission
  have hsubmits := submits_of_any htransaction hsubmission
  split
  next => exact returns_pure (by rintro ⟨⟩) (by rintro ⟨⟩)
  next hsame =>
    rw [ne_eq, not_not] at hsame
    split
    next hfailed =>
      refine returns_rejected rfl ⟨by rintro _ ⟨⟩, hash, rfl, ?_⟩
      rw [if_pos (by simp [hpayment, hside])]
      refine .inr ⟨_, receipt, List.length_append, ⟨hincluded, canonical_of_map hblock hsame, hsubmits⟩, ?_⟩
      rwa [succeeded_iff] at hfailed
    next hsuccess =>
      rw [not_not] at hsuccess
      have hsource : Sourced ledger intent c.safeL1 hash receipt := ⟨hincluded, hsubmits, hsuccess.1⟩
      have hexecuted := succeeded_iff.1 hsuccess.2
      split
      next => exact ensures_fail _
      next d hd =>
        split
        next hkind => exact returns_transferOutcome hpayment hside hkind hd hsource hexecuted
        next hkind =>
          exact returns_policyOutcome hpayment hside hkind hd hstart hreviewed hsafeHash hsource hexecuted

theorem returns_l1PaymentOutcome :
    Returns history (l1PaymentOutcome abi c intent) (Reported history abi c intent) t := by
  rw [l1PaymentOutcome]
  split
  next p start hpayment hstart =>
    rw [Returns, ensures_bind, ensures_check]
    rintro ⟨hside, -⟩
    rw [ensures_bind, ensures_ofExcept]
    intro reviewed hreviewed
    rw [ensures_bind, ensures_check]
    intro hsafeHash
    refine (ensures_bind _ _ _).2 (ensures_anything fun found t' ↦ ?_)
    cases found with
    | none => exact returns_pure (by rintro ⟨⟩) (by rintro ⟨⟩)
    | some hash =>
      refine returns_getTransactionReceipt fun receipt hreceipt ↦ returns_getCrossChainTransaction fun status ↦ ?_
      cases receipt with
      | some receipt => exact returns_includedOutcome hpayment hside hstart hreviewed hsafeHash (hreceipt receipt rfl)
      | none =>
        cases hreason : disposal status with
        | none => exact returns_pure (by rintro ⟨⟩) (by rintro ⟨⟩)
        | some reason =>
          refine returns_rejected rfl ⟨by rintro _ ⟨⟩, hash, rfl, ?_⟩
          rw [if_pos (by simp [hpayment, hside])]
          exact .inl ⟨t', status, reason, hreason, by rw [List.append_assoc]; rfl⟩
  next => exact ensures_fail _

/-! ### A relay through Ethereum -/

theorem returns_executions {callHash : String} {logs : List Log} :
    Returns history (executions abi c intent callHash receipt logs) (fun found t' ↦ t <+: t' ∧
      ∀ e ∈ found, e.1 ∈ logs ∧ ledger.Includes .l2 e.1.transactionHash e.2 ∧ e.2.blockHash = e.1.blockHash ∧
        e.2.logs.any (isRelayed abi c intent callHash) = true ∧ SaidOf receipt e.1 t') t := by
  induction logs generalizing t with
  | nil => exact (ensures_pure _).2 ⟨List.prefix_rfl, fun e he ↦ by cases he⟩
  | cons log logs ih =>
    rw [executions]
    refine returns_getTransactionReceipt fun destination hdestination ↦ ?_
    split
    next =>
      refine ensures_mono (fun found t' hfound ↦ ?_) ih
      exact ⟨(List.prefix_append _ _).trans hfound.1,
        fun e he ↦ ⟨List.mem_cons_of_mem _ (hfound.2 e he).1, (hfound.2 e he).2⟩⟩
    next destination' hfilter =>
      rw [Option.filter_eq_some_iff, Bool.and_eq_true, decide_eq_true_eq] at hfilter
      obtain ⟨hsome, hhash, hrelayed⟩ := hfilter
      have hincluded := hdestination destination' hsome
      refine returns_getSettlementByL2Block fun record ↦ Ensures.bind ih fun found t' hfound ↦ (ensures_pure _).2 ?_
      obtain ⟨hlonger, hall⟩ := hfound
      refine ⟨?_, fun e he ↦ ?_⟩
      · rw [List.append_assoc] at hlonger
        exact (List.prefix_append _ _).trans hlonger
      · split at he
        next hsettles =>
          cases he with
          | head =>
            rw [Option.any_eq_true] at hsettles
            obtain ⟨r, rfl, hr⟩ := hsettles
            exact ⟨List.mem_cons_self, hincluded, hhash, hrelayed, r, hlonger.mem (by simp), hr⟩
          | tail _ he => exact ⟨List.mem_cons_of_mem _ (hall e he).1, (hall e he).2⟩
        next => exact ⟨List.mem_cons_of_mem _ (hall e he).1, (hall e he).2⟩

/-- What the transaction on L1 shows of a relay; the origins were read at `j`. -/
structure Relayed (history : ℕ → World ledger) (abi : Abi) (c : Config) (intent : Intent)
    (safeL2Alias hash : String) (receipt : Receipt) (call : Outgoing) (j : ℕ) : Prop where
  unique : ((receipt.logs.filterMap (outgoing abi · c.registry)).filter fun e ↦
    same e.proxy safeL2Alias && isRelay intent e) = [call]
  origin : ∃ origin, (history j).logs .l1 ⟨c.registry, .block receipt.blockHash,
    abi.outgoingTopics (some call.crossChainCallHash) none⟩ = [origin] ∧ same origin.transactionHash hash = true

theorem returns_executionOutcome (hpayment : intent.payment = some p) (hside : p.source ≠ some "l1")
    (hd : c.payments = some d) (hstandard : d.standard = true) (halias : d.safeL2Alias = some safeL2Alias)
    (hsource : Sourced ledger intent safeL2Alias hash receipt) {call : Outgoing} {j : ℕ}
    (hrelay : Relayed history abi c intent safeL2Alias hash receipt call j) (hj : j < t.length)
    (hshown : Shown ledger log) (hexecution : isExecution abi c.safeL2 intent.safeHash log = true)
    (hincluded : ledger.Includes .l2 log.transactionHash destination)
    (hhash : destination.blockHash = log.blockHash)
    (hrelayed : destination.logs.any (isRelayed abi c intent call.crossChainCallHash) = true)
    (hsaid : SaidOf receipt log t) :
    Returns history (executionOutcome abi d p hash receipt log destination) (Reported history abi c intent) t := by
  obtain ⟨hmem, hnumber⟩ := hshown.mem_logs hincluded hhash
  rw [executionOutcome, Returns, ensures_bind, ensures_ofExcept]
  intro result hresult
  cases result with
  | none => exact ensures_fail _
  | some contributions =>
    rw [ensures_bind, ensures_check]
    rintro ⟨hstatus, hsuccess⟩
    refine returns_unchanged (fun t' ↦ returns_pure (by rintro ⟨⟩) (by rintro ⟨⟩))
      fun t' hlonger hlength hcanonical hcanonical' hsafe ↦ returns_settled rfl ⟨_, hlength, ?_⟩
    have hexecuted : Executed abi c.safeL2 intent.safeHash destination.logs := by
      rw [isExecution, Bool.and_eq_true, Option.any_eq_true] at hexecution
      obtain ⟨haddress, event, hevent, htx⟩ := hexecution
      rw [hevent, Option.any_some] at hsuccess
      exact ⟨log, hmem, haddress, event, hevent, hsuccess, of_decide_eq_true htx⟩
    rw [if_neg (by simp [hpayment, hside]), if_pos (by simp [hd, hstandard])]
    refine ⟨p, d, safeL2Alias, hash, log.transactionHash, receipt, destination, hpayment, hd, halias, ?_⟩
    exact {
      hsource.stands hincluded hhash hnumber hstatus hcanonical hcanonical' hsafe with
      relayed := ⟨call, hrelay.unique, ⟨j, hj, hrelay.origin⟩, List.any_eq_true.1 hrelayed⟩
      executed := hexecuted
      said := (hsaid.mono hlonger).saidToSettle hhash hnumber
      paid := settledPayment_eq_some (hd ▸ hresult) }

theorem returns_relayOutcome (hpayment : intent.payment = some p) (hside : p.source ≠ some "l1")
    (hd : c.payments = some d) (hstandard : d.standard = true) (halias : d.safeL2Alias = some safeL2Alias)
    (hincluded : ledger.Includes .l1 hash receipt) :
    Returns history (relayOutcome abi c intent d safeL2Alias p start hash receipt)
      (Reported history abi c intent) t := by
  rw [relayOutcome]
  dsimp only
  refine returns_getTransactionByHash fun transaction htransaction ↦ returns_getBlockByNumber fun block hblock ↦ ?_
  rw [Returns, ensures_bind, ensures_check]
  intro hsubmission
  have hsubmits := submits_of_any htransaction hsubmission
  split
  next => exact returns_pure (by rintro ⟨⟩) (by rintro ⟨⟩)
  next hsame =>
    rw [ne_eq, not_not] at hsame
    split
    next hstatus =>
      refine returns_rejected rfl ⟨by rintro _ ⟨⟩, hash, rfl, ?_⟩
      rw [if_neg (by simp [hpayment, hside]), if_pos (by simp [hd, hstandard])]
      exact .inr ⟨d, safeL2Alias, _, receipt, hd, halias, List.length_append,
        ⟨hincluded, canonical_of_map hblock hsame, hsubmits⟩, hstatus⟩
    next hstatus =>
      rw [ne_eq, not_not] at hstatus
      have hsource : Sourced ledger intent safeL2Alias hash receipt := ⟨hincluded, hsubmits, hstatus⟩
      split
      next call hcall =>
        refine returns_getLogs ?_
        rw [Returns, ensures_bind, ensures_check]
        rintro ⟨hlength, hall⟩
        obtain ⟨origin, horigin⟩ := List.length_eq_one_iff.1 hlength
        have hsame : same origin.transactionHash hash = true :=
          List.all_eq_true.1 hall origin (horigin ▸ List.mem_singleton_self origin)
        refine returns_getSafeBlock fun safe _ ↦ ?_
        cases safe.filter fun safe ↦ start ≤ safe.number with
        | none => exact returns_pure (by rintro ⟨⟩) (by rintro ⟨⟩)
        | some safe =>
          refine returns_getLogs (Ensures.bind returns_executions fun found t' hfound ↦ ?_)
          obtain ⟨hlonger, hfound⟩ := hfound
          split
          next => exact returns_pure (by rintro ⟨⟩) (by rintro ⟨⟩)
          next log destination =>
            obtain ⟨hmem, hdestination, hhash, hrelayed, hsaid⟩ := hfound _ (List.mem_singleton_self _)
            obtain ⟨hmem, hexecution⟩ := List.mem_filter.1 hmem
            refine returns_executionOutcome hpayment hside hd hstandard halias hsource
              ⟨hcall, origin, horigin, hsame⟩ (lt_of_lt_of_le ?_ hlonger.length_le) (shown_of_mem hmem) hexecution
              hdestination hhash hrelayed hsaid
            simp
          next => exact ensures_fail _
      next => exact ensures_fail _

theorem returns_mirrorRelayOutcome :
    Returns history (mirrorRelayOutcome abi c intent) (Reported history abi c intent) t := by
  rw [mirrorRelayOutcome]
  split
  next d p start hd hpayment hstart =>
    split
    next => exact ensures_fail _
    next safeL2Alias halias =>
      rw [Returns, ensures_bind, ensures_check]
      rintro ⟨hstandard, hside⟩
      refine (ensures_bind _ _ _).2 (ensures_anything fun found t' ↦ ?_)
      cases found with
      | none => exact returns_pure (by rintro ⟨⟩) (by rintro ⟨⟩)
      | some hash =>
        refine returns_getTransactionReceipt fun receipt hreceipt ↦ returns_getCrossChainTransaction fun status ↦ ?_
        cases receipt with
        | some receipt => exact returns_relayOutcome hpayment hside hd hstandard halias (hreceipt receipt rfl)
        | none =>
          cases hreason : disposal status with
          | none => exact returns_pure (by rintro ⟨⟩) (by rintro ⟨⟩)
          | some reason =>
            refine returns_rejected rfl ⟨by rintro _ ⟨⟩, hash, rfl, ?_⟩
            rw [if_neg (by simp [hpayment, hside]), if_pos (by simp [hd, hstandard])]
            exact .inl ⟨t', status, reason, hreason, by rw [List.append_assoc]; rfl⟩
  next => exact ensures_fail _

/-! ### A transaction on EEZ-X -/

/-- A Safe that has executed the payment has left its contributions. -/
theorem contributed_of_check {success : Bool} {contributions : Option Contributions}
    (hcontributions : (match intent.payment with
      | none => Except.ok none
      | some p => settledPayment abi c.payments p receipt.logs) = .ok contributions)
    (hevent : intent.payment.isNone = true ∨ success = false ∨ contributions.isSome = true) (hsuccess : success = true)
    (hpayment : intent.payment = some p) : Contributed abi c p receipt.logs contributions := by
  rw [hpayment] at hcontributions hevent
  have hsome : contributions.isSome = true := by
    rcases hevent with hnone | hfailed | hsome
    · cases hnone
    · rw [hsuccess] at hfailed
      cases hfailed
    · exact hsome
  obtain ⟨contributions, rfl⟩ := Option.isSome_iff_exists.1 hsome
  exact settledPayment_eq_some hcontributions

theorem returns_executedOutcome (hside : ¬(intent.payment.any fun p ↦ p.source = some "l1") = true)
    (hstandard : ¬c.payments.any PaymentDeployment.standard = true) (hincluded : ledger.Includes .l2 hash receipt) :
    Returns history (executedOutcome abi c intent hash receipt) (Reported history abi c intent) t := by
  rw [executedOutcome]
  refine returns_getSafeBlock fun safe hsafe ↦ returns_getBlockByNumber fun block hblock ↦
    returns_getTransactionByHash fun transaction htransaction ↦ ?_
  rw [Returns, ensures_bind, ensures_check]
  intro hsubmission
  split
  next hplace =>
    dsimp only
    rw [ensures_bind, ensures_ofExcept]
    intro contributions hcontributions
    rw [ensures_bind, ensures_check]
    intro hevent
    have hcanonical := canonical_of_map hblock hplace.2
    rw [List.length_append] at hcanonical
    have hstands : ∃ n, (history t.length).safe = some n ∧ receipt.blockNumber ≤ n := by
      obtain ⟨block, hread, hle⟩ := (Option.any_eq_true _ _).1 hplace.1
      exact ⟨block.number, (hsafe block hread).1, of_decide_eq_true hle⟩
    have hsubmits : ∃ tx, Submits ledger .l2 intent c.safeL2 hash tx := by
      obtain ⟨tx, htx, hsubmission⟩ := (Option.any_eq_true _ _).1 hsubmission
      simp only [Bool.and_eq_true, and_assoc] at hsubmission
      obtain ⟨hsender, htarget, hinput⟩ := hsubmission
      exact ⟨tx, htransaction tx htx, hsender, htarget, hinput⟩
    have hkind : (decide (receipt.status = "0x1") && succeeded abi c.safeL2 intent.safeHash receipt.logs) = true ↔
        receipt.status = "0x1" ∧ succeeded abi c.safeL2 intent.safeHash receipt.logs = true := by
      rw [Bool.and_eq_true, decide_eq_true_eq]
    by_cases hsettled : receipt.status = "0x1" ∧ succeeded abi c.safeL2 intent.safeHash receipt.logs = true
    · refine returns_settled (if_pos (hkind.2 hsettled)) ⟨t.length, by simp, ?_⟩
      rw [if_neg hside, if_neg hstandard]
      exact ⟨hash, receipt, {
        reported := rfl
        execution := rfl
        block := rfl
        included := hincluded
        safe := hstands
        canonical := hcanonical
        submitted := hsubmits
        status := hsettled.1
        executed := succeeded_iff.1 hsettled.2
        paid := fun p hpayment ↦ contributed_of_check hcontributions hevent hsettled.2 hpayment }⟩
    · refine returns_rejected (if_neg (mt hkind.1 hsettled)) ⟨by rintro _ ⟨⟩, hash, rfl, ?_⟩
      rw [if_neg hside, if_neg hstandard]
      rw [succeeded_iff] at hsettled
      exact .inr ⟨t.length, receipt, by simp, hincluded, hstands, hcanonical, hsubmits, hsettled⟩
  next => exact returns_pure (by rintro ⟨⟩) (by rintro ⟨⟩)

/-! ### A transaction on EEZ-X without a receipt -/

/-- The receipt and the status have been read, at the two reads before `k`. -/
def Unseen (hash : String) (status : Option Status) (k : ℕ) (t : Transcript Request Answer) : Prop :=
  ∃ t₁ t₂, t = t₁ ++ [(.getTransactionReceipt .l2 hash, .receipt none),
    (.getCrossChainTransaction .l2 hash, .status status)] ++ t₂ ∧ t₁.length + 2 = k

theorem Unseen.mono {status : Option Status} (h : Unseen hash status k t) (hlonger : t <+: t') :
    Unseen hash status k t' := by
  obtain ⟨t₁, t₂, rfl, hk⟩ := h
  obtain ⟨t₃, rfl⟩ := hlonger
  exact ⟨t₁, t₂ ++ t₃, List.append_assoc _ _ _, hk⟩

theorem Unseen.reported {status : Option Status} (h : Unseen hash status k t)
    (hside : ¬(intent.payment.any fun p ↦ p.source = some "l1") = true)
    (hstandard : ¬c.payments.any PaymentDeployment.standard = true) (hhash : o.hash = some hash)
    (hkind : o.kind ≠ .settled)
    (hover : (disposal status).isSome = true ∨ o.rollback.isSome = true ∧ Retired history c intent (k + 1))
    (hrollback : ∀ rollback ∈ o.rollback, ∃ k, t.length = k + 43 ∧ RolledBack history abi c intent rollback k) :
    Reported history abi c intent o t := by
  obtain ⟨t₁, t₂, ht, rfl⟩ := h
  refine ⟨fun hsettled ↦ absurd hsettled hkind, fun _ ↦ ⟨hrollback, hash, hhash, ?_⟩⟩
  rw [if_neg hside, if_neg hstandard]
  exact .inl ⟨t₁, t₂, status, ht, hover⟩

/-- A rejection that the Composer has given the reason for. -/
theorem Unseen.disposed {status : Option Status} {reason detail : String} {stage : Option String}
    (h : Unseen hash status k t) (hside : ¬(intent.payment.any fun p ↦ p.source = some "l1") = true)
    (hstandard : ¬c.payments.any PaymentDeployment.standard = true) (hreason : disposal status = some reason) :
    Reported history abi c intent (.rejected hash none stage detail) t :=
  h.reported hside hstandard rfl (by rintro ⟨⟩) (.inl (by rw [hreason]; rfl)) (by rintro _ ⟨⟩)

theorem reported_pending {detail : String} : Reported history abi c intent (.pending hash detail) t :=
  ⟨by rintro ⟨⟩, by rintro ⟨⟩⟩

theorem Unseen.statusOutcome {status : Option Status} (h : Unseen hash status k t)
    (hside : ¬(intent.payment.any fun p ↦ p.source = some "l1") = true)
    (hstandard : ¬c.payments.any PaymentDeployment.standard = true) :
    Reported history abi c intent (statusOutcome hash status) t := by
  rw [Settlement.statusOutcome]
  split
  next reason hreason => exact h.disposed hside hstandard hreason
  next => exact reported_pending

theorem returns_isOver {status : Option Status} :
    Returns history (isOver c intent status) (fun ended t' ↦ t <+: t' ∧ (ended = true →
      (disposal status).isSome = true ∨ Retired history c intent t.length)) t := by
  rw [isOver]
  split
  next hdisposed => exact (ensures_pure _).2 ⟨List.prefix_rfl, fun _ ↦ .inl hdisposed⟩
  next =>
    refine ensures_mono (fun retired t' ↦ ?_) returns_canonicalRequestRetired
    rintro ⟨hlonger, hretired⟩
    exact ⟨hlonger, fun heq ↦ .inr (hretired heq)⟩

/-- **A report of the fixture is believed only as far as the chains bear it out.** -/
theorem returns_reportedOutcome {status : Option Status} (h : Unseen hash status k t) (hk : t.length = k + 1)
    (hside : ¬(intent.payment.any fun p ↦ p.source = some "l1") = true)
    (hstandard : ¬c.payments.any PaymentDeployment.standard = true) (hpayment : intent.payment = some p)
    {report : InvoiceEvidence} :
    Returns history (reportedOutcome abi c intent p hash status report) (fun reported t' ↦
      Unseen hash status k t' ∧ ∀ o ∈ reported, Reported history abi c intent o t') t := by
  have hpure {reported : Option Outcome} (ho : ∀ o ∈ reported, Reported history abi c intent o t) :
      Returns history (pure reported) (fun reported t' ↦
        Unseen hash status k t' ∧ ∀ o ∈ reported, Reported history abi c intent o t') t :=
    (ensures_pure _).2 ⟨h, ho⟩
  rw [reportedOutcome]
  cases report.phase with
  | opened =>
    refine hpure fun o ho ↦ ?_
    split at ho
    next hopen =>
      cases ho
      exact h.disposed hside hstandard hopen.1
    next => cases ho
  | armed => exact hpure (by rintro _ ⟨⟩; exact reported_pending)
  | executing => exact hpure (by rintro _ ⟨⟩; exact reported_pending)
  | cancelled => exact hpure (by rintro _ ⟨⟩)
  | unverified =>
    dsimp only
    split
    next reason hreason =>
      refine hpure ?_
      rintro _ ⟨⟩
      exact h.disposed hside hstandard hreason
    next => exact hpure (by rintro _ ⟨⟩; exact reported_pending)
  | verified =>
    refine Ensures.bind returns_isOver fun ended t₁ ↦ ?_
    rintro ⟨hlonger, hended⟩
    rw [hk] at hended
    split
    next hyes =>
      refine Ensures.bind (returns_verifyInvoiceRollback hpayment) fun rollback t₂ ↦ ?_
      rintro ⟨hlonger', hlength, hrollback⟩
      have hunseen := h.mono (hlonger.trans hlonger')
      refine (ensures_pure _).2 ⟨hunseen, ?_⟩
      rintro _ ⟨⟩
      refine hunseen.reported hside hstandard rfl (by rintro ⟨⟩) ((hended hyes).imp_right fun hpast ↦ ⟨rfl, hpast⟩) ?_
      rintro _ ⟨⟩
      exact ⟨t₁.length, hlength, hrollback⟩
    next =>
      refine (ensures_pure _).2 ⟨h.mono hlonger, ?_⟩
      rintro _ ⟨⟩
      exact reported_pending

theorem returns_unseenOutcome {status : Option Status} (h : Unseen hash status t.length t)
    (hside : ¬(intent.payment.any fun p ↦ p.source = some "l1") = true)
    (hstandard : ¬c.payments.any PaymentDeployment.standard = true) :
    Returns history (unseenOutcome abi c intent hash status) (Reported history abi c intent) t := by
  rw [unseenOutcome]
  split
  next => exact (ensures_pure _).2 (h.statusOutcome hside hstandard)
  next p hfilter =>
    have hpayment := (Option.filter_eq_some_iff.1 hfilter).1
    rw [invoiceEvidence]
    split
    next =>
      refine returns_getInvoice fun report ↦ ?_
      have hunseen : Unseen hash status t.length
          (t ++ [(.getInvoice (p.invoiceId.getD undefinedValue), .report report)]) :=
        h.mono (List.prefix_append _ _)
      rcases report with _ | report
      · exact (ensures_pure _).2 (hunseen.statusOutcome hside hstandard)
      · refine Ensures.bind (returns_reportedOutcome hunseen List.length_append hside hstandard hpayment)
          fun reported t' ↦ ?_
        rintro ⟨hunseen', hreported⟩
        rcases reported with _ | o
        · exact (ensures_pure _).2 (hunseen'.statusOutcome hside hstandard)
        · exact (ensures_pure _).2 (hreported o rfl)
    next => exact (ensures_pure _).2 (h.statusOutcome hside hstandard)

theorem returns_outcome : Returns history (outcome abi c intent) (Reported history abi c intent) t := by
  rw [outcome]
  split
  next => exact returns_l1PaymentOutcome
  next hside =>
    split
    next => exact returns_mirrorRelayOutcome
    next hstandard =>
      rw [submittedOutcome]
      refine (ensures_bind _ _ _).2 (ensures_anything fun found t' ↦ ?_)
      cases found with
      | none => exact returns_pure (by rintro ⟨⟩) (by rintro ⟨⟩)
      | some hash =>
        refine returns_getTransactionReceipt fun receipt hreceipt ↦ returns_getCrossChainTransaction fun status ↦ ?_
        cases receipt with
        | none =>
          refine returns_unseenOutcome ⟨t', [], ?_, by simp⟩ hside hstandard
          rw [List.append_assoc, List.append_nil]
          rfl
        | some receipt => exact returns_executedOutcome hside hstandard (hreceipt receipt rfl)

/-- **A payment that is reported as settled has its evidence.**  However the chains change from one read to the next,
and whatever the Composer says: on its route the transaction was the one of the intent, and at the last three reads
its block and the block of the payment on EEZ-X were canonical and the latter was safe; the Safe had executed the Safe
transaction, and the policy had made the payment once, with the contributions that are reported. -/
theorem outcome_settled {answer : ℕ → Request → Except String Answer}
    (hanswer : ∀ n q a, answer n q = .ok a → (history n).Reports q a)
    (hrun : (outcome abi c intent).run answer [] = (.ok o, t)) (hsettled : o.kind = .settled) :
    Evidence history abi c intent o t :=
  (ensures_run (fun n q a ha ↦ hanswer n q a ha) returns_outcome hrun).settled hsettled

/-- **A payment that is reported as rejected has failed, was given up, or was undone.**  Either its transaction was in a
block that was canonical when it was read last, and it failed there or the Safe transaction did; or a node had no
receipt for it and then the Composer said that the request has ended; or, on EEZ-X, its nonces were past and its
rollback is reported.  A rollback that is reported was one, however the chains changed while it was looked at. -/
theorem outcome_rejected {answer : ℕ → Request → Except String Answer}
    (hanswer : ∀ n q a, answer n q = .ok a → (history n).Reports q a)
    (hrun : (outcome abi c intent).run answer [] = (.ok o, t)) (hrejected : o.kind = .rejected) :
    Refusal history abi c intent o t :=
  (ensures_run (fun n q a ha ↦ hanswer n q a ha) returns_outcome hrun).rejected hrejected

end Routes

/-! ### A payment of the Safe on L1 that is settled -/

def sampleWord : String := "0x0000000000000000000000000000000000000000000000000000000000000000"

def sampleAbi : Abi where
  isAddress _ := true
  getAddress := id
  safeExecutionTopics := [sampleWord]
  decodeExecution _ _ := some ⟨true, "0xaa"⟩
  decodePayment log := if log.data = "paid" then some (.paid ⟨"0x70", "0x01", false, 7, 3, 4, 5⟩) else none
  decodeTransfer _ := none
  decodeReceiveTokens _ := none
  authorizedTopics _ callHash := [callHash]
  outgoingTopics _ _ := []
  incomingTopics _ := []
  encode
    | .transfer _ amount => .ok (if amount = 10000000 then "0x01" else "0x02")
    | .accept _ _ _ _ => .ok "0x03"
    | .close _ => .ok "0x04"
  reviewed _ _ := .ok ⟨"0xaa", "0xbb"⟩

def sampleConfig : Config :=
  ⟨"0x5a", "0x5b", "0x40", "0x41", true,
    some ⟨false, "0x90", "0x70", "0x71", "0xb0", "0xb1", none, "0xa0", "0xc0", "0xc1", some "0xe0", true⟩⟩

def sampleIntent : Intent where
  submissionChain := none
  version := 1
  instanceId := ""
  value := "0"
  nonce := "8"
  safeHash := "0xaa"
  data := "0xda"
  sender := "0x50"
  sourceNonce := "0x3"
  startBlock := "0x9"
  l2StartBlock := some "0x12"
  hash := none
  payment := some ⟨⟨none, some "l1", "0x01", "l2", "5", "7", some "3", none, none, []⟩, ""⟩

theorem sampleHashes_nodup : ["0x11", "0x13", "0x14"].Nodup := by decide

/-- The block on L1 has the payment, and then the closing and the refusal of an invoice. -/
def sampleBlocks : Side → List (String × Content)
  | .l1 => [("0x09", ⟨9, 4200, [], List.nodup_nil⟩),
      (sampleWord, ⟨10, 4212, [
        ("0x11", ⟨"0x1", 10, sampleWord, 0, [⟨"0x5A", sampleWord, [sampleWord, sampleWord], "0x11", sampleWord, 10⟩]⟩),
        ("0x13", ⟨"0x1", 10, sampleWord, 1, []⟩),
        ("0x14", ⟨"0x0", 10, sampleWord, 2, []⟩)], sampleHashes_nodup⟩)]
  | .l2 => [("0x22", ⟨20, 4200, [
        ("0x12", ⟨"0x1", 20, "0x22", 0, [⟨"0x90", "", ["0xbb"], "0x12", "0x22", 20⟩,
          ⟨"0x90", "paid", [], "0x12", "0x22", 20⟩]⟩)], List.nodup_singleton _⟩)]

theorem sampleBlocks_placed (side : Side) : ∀ b ∈ sampleBlocks side, ∀ entry ∈ b.2.entries,
    (entry.2.blockHash = b.1 ∧ entry.2.blockNumber = b.2.number) ∧ ∀ log ∈ entry.2.logs,
      log.blockHash = b.1 ∧ log.blockNumber = b.2.number ∧ log.transactionHash = entry.1 := by
  cases side <;> decide +kernel

def sampleTransactions : List (String × Transaction) := [
  ("0x11", ⟨"0x50", "0x5a", "0xDA", 3, 0⟩), ("0x13", ⟨"0x50", "0xE0", "0x04", 4, 0⟩)]

/-- Both contributions to an invoice and its refusal are inside of one call. -/
def sampleTrace : CallFrame :=
  ⟨some "0x50", some "0x40", some "0x00AA", some "0x", none, [
    ⟨some "0x40", some "0x90", some "0x", some "0x", some "execution reverted", [
      ⟨some "0xB0", some "0x70", some "0x01", some "0x01", none, []⟩,
      ⟨some "0x90", some "0x5a", some "0x", some "0x", none, [
        ⟨some "0x5a", some "0x70", some "0x02", some "0x01", none, []⟩]⟩,
      ⟨some "0xa0", some "0xe0", some "0x03", some "0xA1C43DB207", some "execution reverted", []⟩]⟩]⟩

/-- The invoice is open in the first block of L1, and closed in the second one. -/
def sampleView (hash : String) : Method → Value
  | .nonce => .uint 8
  | .getTokenAllowance _ _ _ => .tokenAllowance ⟨100, 5, 10, 60, 2⟩
  | .invoices _ => .invoice "0x01" 110000000 (if hash = sampleWord then 3 else 1)
  | _ => .uint 0

def sampleLedger : Ledger where
  content side hash := (sampleBlocks side).lookup hash
  transaction _ hash := sampleTransactions.lookup hash
  safeL1 _ := ⟨["0x50"], 1, 8⟩
  view _ hash _ method := sampleView hash method
  transactionCount _ _ _ := 3
  trace _ _ := sampleTrace
  receipt_placed side _ _ hblock entry hentry := (sampleBlocks_placed side _ (mem_of_lookup hblock) entry hentry).1
  log_placed side _ _ hblock entry hentry := (sampleBlocks_placed side _ (mem_of_lookup hblock) entry hentry).2

theorem sampleBlocks_lookup (side : Side) : ∀ b ∈ sampleBlocks side,
    ((sampleBlocks side).lookup b.1).map Content.number = some b.2.number := by
  cases side <;> decide +kernel

def sampleWorld : World sampleLedger where
  canonical side n := ((sampleBlocks side).find? fun b ↦ b.2.number = n).map Prod.fst
  latest
    | .l1 => 10
    | .l2 => 20
  safe := some 20
  known side n hash h := by
    obtain ⟨b, hb, rfl⟩ := Option.map_eq_some_iff.1 h
    obtain ⟨block, hblock, hnumber⟩ := Option.map_eq_some_iff.1
      (sampleBlocks_lookup side b (List.mem_of_find?_eq_some hb))
    have hn := List.find?_some hb
    exact ⟨block, hblock, hnumber.trans (of_decide_eq_true hn)⟩

def sampleAnswer (_ : ℕ) : Request → Except String Answer := sampleWorld.answer none none none

theorem sampleAnswer_reports (n : ℕ) (q : Request) (a : Answer) (h : sampleAnswer n q = .ok a) :
    sampleWorld.Reports q a :=
  World.answer_reports h

def sampleOutcome : Outcome :=
  .settled "0x11" "0x12" 10 20 ⟨3, 4⟩ "Settled on L1. The L1 Safe execution and matching L2 payment are canonical."

theorem run_sampleIntent : (outcome sampleAbi sampleConfig sampleIntent).run sampleAnswer [] =
    (.ok sampleOutcome, ((outcome sampleAbi sampleConfig sampleIntent).run sampleAnswer []).2) := by
  refine Prod.ext ?_ rfl
  decide +kernel

theorem outcome_settled_sample : ∃ t,
    (outcome sampleAbi sampleConfig sampleIntent).run sampleAnswer [] = (.ok sampleOutcome, t) ∧
      t.length = 12 ∧ Evidence (fun _ ↦ sampleWorld) sampleAbi sampleConfig sampleIntent sampleOutcome t := by
  have hlength : ((outcome sampleAbi sampleConfig sampleIntent).run sampleAnswer []).2.length = 12 := by
    decide +kernel
  exact ⟨_, run_sampleIntent, hlength, outcome_settled sampleAnswer_reports run_sampleIntent rfl⟩

/-! ### A payment of an invoice that is undone -/

def sampleInvoice : Intent :=
  { sampleIntent with
    hash := some "0x15"
    payment := some ⟨⟨some "invoice", none, "0x01", "l1", "7", "110000000", none, none, some "0x07", []⟩, ""⟩ }

def sampleReport : InvoiceEvidence where
  phase := .verified
  detail := ""
  mode := some .settlement
  id := some "0x07"
  recipient := some "0x01"
  amount := some "110000000"
  intent := sampleInvoice
  postHash := some "0x14"
  closeHash := some "0x13"
  l1BlockHash := some sampleWord
  before := some ⟨⟨9, "0x09"⟩, ⟨20, "0x22"⟩⟩
  after := some ⟨⟨10, sampleWord⟩, ⟨20, "0x22"⟩⟩

/-- The Composer has ended the request. -/
def sampleRefusal (_ : ℕ) : Request → Except String Answer :=
  sampleWorld.answer (some ⟨some "terminal", some "NonceGap"⟩) none (some sampleReport)

/-- An allowance is kept as it is in the period of the payment. -/
def sampleValues : List (String × Value) := [
  ("balanceL1", .uint 0), ("balanceL2", .uint 0), ("recipientL1", .uint 0), ("recipientL2", .uint 0),
  ("escrow", .uint 0), ("aliasBalance", .uint 0), ("policyBalance", .uint 0), ("supply", .uint 0),
  ("safeNonce", .uint 8), ("safeL1Nonce", .uint 8), ("spent", .uint 0), ("aliasApproval", .uint 0),
  ("allowanceL1", .tokenAllowance ⟨100, 0, 10, 70, 2⟩), ("allowanceL2", .tokenAllowance ⟨100, 0, 10, 70, 2⟩)]

def sampleRejection : Outcome :=
  ⟨.rejected, some "0x15", none, none, none, none, none, none, some ⟨"0x14", "0x13", 10, sampleValues, sampleValues⟩,
    "Rollback verified at L1 settlement. Both payment legs executed before invoice rejection; no payment funds or " ++
      "budget were consumed."⟩

theorem outcome_rejected_sample : ∃ t,
    (outcome sampleAbi sampleConfig sampleInvoice).run sampleRefusal [] = (.ok sampleRejection, t) ∧
      Refusal (fun _ ↦ sampleWorld) sampleAbi sampleConfig sampleInvoice sampleRejection t := by
  have hfirst : ((outcome sampleAbi sampleConfig sampleInvoice).run sampleRefusal []).1 = .ok sampleRejection := by
    decide +kernel
  have hrun := Prod.ext hfirst (rfl : _ = ((outcome sampleAbi sampleConfig sampleInvoice).run sampleRefusal []).2)
  exact ⟨_, hrun, outcome_rejected (fun _ _ _ h ↦ World.answer_reports h) hrun rfl⟩

end Settlement
