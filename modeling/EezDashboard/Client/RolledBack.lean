import EezDashboard.Client.Ledger

/-!
# What a rollback has behind it

A payment of an invoice that was refused is reported with its rollback, and only when the fixture's report has
been checked against the chains.  `RolledBack` says what was seen then, read by read; between two reads the
chains may be others.
-/

set_option autoImplicit false

namespace Settlement

open Client Dialogue Js

/-- The trace of a transaction, in a block that it is in. -/
def Ledger.Traces (ledger : Ledger) (hash : String) (trace : CallFrame) : Prop :=
  ∃ receipt, ledger.Includes .l1 hash receipt ∧ trace = ledger.trace receipt.blockHash hash

section Evidence

variable {ledger : Ledger} (history : ℕ → World ledger) (abi : Abi) (c : Config) (intent : Intent)

/-- At read `k` a method returned a value: it does so after a block of the number that was canonical then. -/
def ReadAt (k : ℕ) (side : Side) (address : String) (method : Method) (number : ℕ) (value : Value) : Prop :=
  ∃ hash, (history k).canonical side number = some hash ∧ value = ledger.view side hash address method

/-- A snapshot, whose first read is `k`: the two blocks were canonical at the first and at the last reads, and all
of it was read in between, by their numbers. -/
structure Observed (d : PaymentDeployment) (p : RecordedPayment) (merchant id : String) (anchors : Anchors)
    (snapshot : InvoiceSnapshot) (k : ℕ) : Prop where
  l1 : (history k).canonical .l1 anchors.l1.number = some anchors.l1.hash
  l2 : (history (k + 1)).canonical .l2 anchors.l2.number = some anchors.l2.hash
  period : ∃ block, ledger.content .l1 anchors.l1.hash = some block ∧ block.timestamp / 600 = Client.bigInt p.epoch
  length : snapshot.values.length = (readings c d p).length
  values : ∀ n r, (readings c d p)[n]? = some r → ∃ value kept', kept (Client.bigInt p.epoch) value = .ok kept' ∧
    snapshot.values[n]? = some (r.key, kept') ∧
    ReadAt history (k + 2 + n) r.side r.address r.method (anchors.of r.side).number value
  invoice : ReadAt history (k + 16) .l1 merchant (.invoices id) anchors.l1.number
    (.invoice snapshot.recipient snapshot.amount snapshot.status)
  l1Again : (history (k + 17)).canonical .l1 anchors.l1.number = some anchors.l1.hash
  l2Again : (history (k + 18)).canonical .l2 anchors.l2.number = some anchors.l2.hash

/-- The calls of the transaction that paid the invoice: it is one of the protocol, with the Safe transaction in its
calldata, and in a call that failed there were the two contributions, and then the merchant refused. -/
structure Refused (d : PaymentDeployment) (p : RecordedPayment) (merchant id : String) (trace : CallFrame) :
    Prop where
  target : sameAddress trace.target c.registry = true
  bound : bindsSafeHash intent trace = true
  undone : UndoneTogether trace (isTransfer abi d p d.bridgeL1 10000000 · = .ok true)
    (isTransfer abi d p c.safeL1 100000000 · = .ok true) (isRefusal abi d p merchant id · = .ok true)

/-- The invoice was closed by the merchant, earlier in the block of the payment. -/
structure Closed (ledger : Ledger) (abi : Abi) (merchant id : String) (rollback : Rollback) (post close : Receipt) :
    Prop where
  postIncluded : ledger.Includes .l1 rollback.postHash post
  closeIncluded : ledger.Includes .l1 rollback.closeHash close
  number : rollback.block = post.blockNumber
  status : close.status = "0x1"
  sameBlock : close.blockHash = post.blockHash
  earlier : close.transactionIndex < post.transactionIndex
  call : ∃ tx, ledger.transaction .l1 rollback.closeHash = some tx ∧ sameAddress (some tx.target) merchant = true ∧
    abi.encode (.close id) = .ok tx.input

/-- Before the block of the payment and after it everything was the same, but that the invoice was closed. -/
structure Unpaid (p : RecordedPayment) (rollback : Rollback) (before after : InvoiceSnapshot) : Prop where
  reportedBefore : rollback.before = before.values
  reportedAfter : rollback.after = after.values
  same : before.values = after.values
  nonce : ∃ n, before.values.lookup "safeNonce" = some (.uint n) ∧ toString n = intent.nonce
  opened : before.status = 1
  closed : after.status = 3
  recipient : sameAddress (some after.recipient) p.recipient = true
  amount : after.amount = Client.bigInt p.amount

/-- **The payment was made and undone**; `k` is the first of the reads. -/
def RolledBack (rollback : Rollback) (k : ℕ) : Prop :=
  ∃ d p merchant id post close before after first second trace,
    c.payments = some d ∧ intent.payment = some p ∧ p.kind = some "invoice" ∧ p.invoiceId = some id ∧
    d.invoiceMerchant = some merchant ∧ Closed ledger abi merchant id rollback post close ∧
    ledger.Traces rollback.postHash trace ∧ Refused abi c intent d p merchant id trace ∧
    Observed history c d p merchant id before first (k + 3) ∧
    Observed history c d p merchant id after second (k + 22) ∧ after.l1.hash = post.blockHash ∧
    (∃ n, (history (k + 41)).safe = some n ∧ after.l2.number ≤ n) ∧ Unpaid intent p rollback first second

/-- Both nonces were past the ones of the request, after a block that was safe at read `k`. -/
def Retired (k : ℕ) : Prop :=
  ∃ block : Block, (history k).safe = some block.number ∧
    (history k).canonical .l2 block.number = some block.hash ∧
    (∃ n, Client.bigInt intent.nonce < n ∧ ReadAt history (k + 1) .l2 c.safeL2 .nonce block.number (.uint n)) ∧
    (∃ hash, (history (k + 2)).canonical .l2 block.number = some hash ∧
      Client.bigInt intent.sourceNonce < ledger.transactionCount .l2 hash intent.sender) ∧
    (history (k + 3)).canonical .l2 block.number = some block.hash

end Evidence

/-! ## The reads of a snapshot -/

section Reads

variable {ledger : Ledger} {history : ℕ → World ledger} {abi : Abi} {c : Config} {intent : Intent}
  {d : PaymentDeployment} {p : RecordedPayment} {merchant id : String} {t : Transcript Request Answer}

theorem returns_readAll {anchors : Anchors} {epoch : ℕ} {rs : List Reading} :
    Returns history (readAll anchors epoch rs) (fun values t' ↦ t <+: t' ∧ t'.length = t.length + rs.length ∧
      values.length = rs.length ∧ ∀ n r, rs[n]? = some r → ∃ value kept', kept epoch value = .ok kept' ∧
        values[n]? = some (r.key, kept') ∧
        ReadAt history (t.length + n) r.side r.address r.method (anchors.of r.side).number value) t := by
  induction rs generalizing t with
  | nil => exact (ensures_pure _).2 ⟨List.prefix_rfl, rfl, rfl, fun n r hr ↦ by simp at hr⟩
  | cons r rs ih =>
    rw [readAll]
    refine returns_contractRead fun value hash hcanonical hvalue ↦ ?_
    rw [Returns, ensures_bind, ensures_ofExcept]
    intro kept' hkept
    refine Ensures.bind ih fun values t' ↦ ?_
    rintro ⟨hlonger, hlength, hvalues, hall⟩
    refine (ensures_pure _).2 ⟨(List.prefix_append _ _).trans hlonger, ?_, by simp [hvalues], fun n r' hr' ↦ ?_⟩
    · simp only [hlength, List.length_append, List.length_cons, List.length_nil]
      omega
    · rcases n with _ | n
      · cases hr'
        exact ⟨value, kept', hkept, rfl, hash, hcanonical, hvalue⟩
      · obtain ⟨value', kept'', hkept', hentry, hread⟩ := hall n r' hr'
        rw [List.length_append, List.length_singleton, Nat.add_assoc, Nat.add_comm 1 n] at hread
        exact ⟨value', kept'', hkept', hentry, hread⟩

theorem returns_stillCanonical {side : Side} {block : Block} :
    Returns history (stillCanonical side block) (fun _ t' ↦ t <+: t' ∧ t'.length = t.length + 1 ∧
      (history t.length).canonical side block.number = some block.hash) t := by
  rw [stillCanonical]
  refine returns_getBlockByNumber fun again hagain ↦ ?_
  rw [Returns, ensures_check]
  intro hsame
  obtain ⟨b, hb, hhash⟩ := Option.map_eq_some_iff.1 hsame
  exact ⟨List.prefix_append _ _, List.length_append, hhash ▸ (hagain b hb).2⟩

theorem returns_invoiceSnapshot {anchors : Anchors} :
    Returns history (invoiceSnapshot c d p merchant id anchors) (fun snapshot t' ↦ t <+: t' ∧
      t'.length = t.length + 19 ∧ Observed history c d p merchant id anchors snapshot t.length) t := by
  rw [invoiceSnapshot]
  refine returns_getAnchor fun l1 hl1 ↦ returns_getAnchor fun l2 hl2 ↦ ?_
  rcases l1 with _ | ⟨⟨number, hash⟩, timestamp⟩
  · exact ensures_fail _
  rcases l2 with _ | ⟨⟨number', hash'⟩, timestamp'⟩
  · exact ensures_fail _
  obtain ⟨hnumber, hcanonical, block, hcontent, htime⟩ := hl1 _ rfl
  obtain ⟨hnumber', hcanonical', -⟩ := hl2 _ rfl
  dsimp only at hnumber hnumber' htime
  subst hnumber hnumber' htime
  rw [Returns, ensures_bind, ensures_check]
  rintro ⟨hhash, hhash'⟩
  dsimp only at hhash hhash' hcanonical hcanonical'
  subst hhash hhash'
  rw [ensures_bind, ensures_check]
  intro hperiod
  refine Ensures.bind returns_readAll fun values t₁ ↦ ?_
  rintro ⟨hlonger₁, hlength₁, hcount, hvalues⟩
  refine returns_contractRead fun value invoiceHash hinvoice hvalue ↦ ?_
  rcases value with _ | _ | ⟨recipient, amount, status⟩
  · exact ensures_fail _
  · exact ensures_fail _
  refine Ensures.bind returns_stillCanonical fun _ t₂ ↦ ?_
  rintro ⟨hlonger₂, hlength₂, hagain⟩
  refine Ensures.bind returns_stillCanonical fun _ t₃ ↦ ?_
  rintro ⟨hlonger₃, hlength₃, hagain'⟩
  simp only [List.length_append, List.length_singleton] at hlength₁ hlength₂ hagain hcanonical' hvalues
  have hreadings : (readings c d p).length = 14 := rfl
  rw [hreadings] at hlength₁
  refine (ensures_pure _).2 ⟨?_, by omega, ?_⟩
  · rw [List.append_assoc] at hlonger₁
    exact ((List.prefix_append _ _).trans hlonger₁).trans
      ((List.prefix_append _ _).trans (hlonger₂.trans hlonger₃))
  · exact {
      l1 := hcanonical
      l2 := hcanonical'
      period := ⟨block, hcontent, hperiod⟩
      length := hcount
      values := hvalues
      invoice := ⟨invoiceHash, by rw [← hinvoice, hlength₁], hvalue⟩
      l1Again := by rw [← hagain, hlength₁]
      l2Again := by rw [← hagain', hlength₂, hlength₁] }

/-! ## The reads of a rollback -/

theorem closedBefore_eq_true {report : InvoiceEvidence} {after : Anchors} {post close : Receipt}
    (h : closedBefore report after post close = true) : close.status = "0x1" ∧ close.blockHash = post.blockHash ∧
      close.transactionIndex < post.transactionIndex ∧ after.l1.hash = post.blockHash := by
  simp only [closedBefore, Bool.and_eq_true, decide_eq_true_eq] at h
  obtain ⟨⟨⟨⟨hstatus, -⟩, hblock⟩, hearlier⟩, hafter⟩ := h
  exact ⟨hstatus, hblock, hearlier, hafter⟩

theorem nothingPaid_eq_true {before after : InvoiceSnapshot} (h : nothingPaid p before after = true) :
    before.values = after.values ∧ before.status = 1 ∧ after.status = 3 ∧
      sameAddress (some after.recipient) p.recipient = true ∧ after.amount = Client.bigInt p.amount := by
  simpa only [nothingPaid, Bool.and_eq_true, decide_eq_true_eq, and_assoc] using h

/-- The transaction that closed the invoice. -/
theorem returns_closing {closeHash : String} {β : Type} {x : ClientM β}
    {post : β → Transcript Request Answer → Prop}
    (h : ∀ tx, ledger.transaction .l1 closeHash = some tx → sameAddress (some tx.target) merchant = true →
      abi.encode (.close id) = .ok tx.input → ∀ transaction,
      Returns history x post (t ++ [(.getTransactionByHash .l1 closeHash, .transaction transaction)])) :
    Returns history (do
      let transaction ← getTransactionByHash .l1 closeHash
      check (transaction.any (fun tx ↦ sameAddress (some tx.target) merchant) = true)
        "Invoice closure does not match this payment"
      let data ← ofExcept (abi.encode (.close id))
      check (transaction.any (fun tx ↦ tx.input = data) = true) "Invoice closure does not match this payment"
      x) post t := by
  refine returns_getTransactionByHash fun transaction htransaction ↦ ?_
  rw [Returns, ensures_bind, ensures_check]
  intro htarget
  rw [ensures_bind, ensures_ofExcept]
  intro data hdata
  rw [ensures_bind, ensures_check]
  intro hinput
  rw [Option.any_eq_true] at htarget hinput
  obtain ⟨tx, htx, htarget⟩ := htarget
  obtain ⟨tx', htx', hinput⟩ := hinput
  obtain rfl := Option.some.inj (htx.symm.trans htx')
  exact h tx (htransaction tx htx) htarget (hdata.trans (congrArg _ (of_decide_eq_true hinput).symm)) _

theorem returns_verifyRollback (hd : c.payments = some d) (hpayment : intent.payment = some p)
    (hkind : p.kind = some "invoice") (hid : p.invoiceId = some id) (hmerchant : d.invoiceMerchant = some merchant)
    {report : InvoiceEvidence} {before after : Anchors} {postHash closeHash : String} :
    Returns history (verifyRollback abi c intent d p merchant id report before after postHash closeHash)
      (fun rollback t' ↦ t <+: t' ∧ t'.length = t.length + 43 ∧
        RolledBack history abi c intent rollback t.length) t := by
  rw [verifyRollback]
  refine returns_getTransactionReceipt fun post hpost ↦ returns_getTransactionReceipt fun close hclose ↦
    returns_traceTransaction fun trace htrace ↦ Ensures.bind returns_invoiceSnapshot fun first t₁ ↦ ?_
  rintro ⟨hlonger₁, hlength₁, hfirst⟩
  refine Ensures.bind returns_invoiceSnapshot fun second t₂ ↦ ?_
  rintro ⟨hlonger₂, hlength₂, hsecond⟩
  refine returns_getSafeBlock fun safe hsafe ↦ ?_
  rcases post with _ | post
  · exact ensures_fail _
  rcases close with _ | close
  · exact ensures_fail _
  rw [Returns, ensures_bind, ensures_check]
  intro hclosed
  rcases safe with _ | safe
  · exact ensures_fail _
  rcases trace with _ | trace
  · exact ensures_fail _
  rw [ensures_bind, ensures_check]
  intro hle
  rw [ensures_bind, ensures_check]
  intro htarget
  rw [ensures_bind, ensures_check]
  rintro ⟨hbound, hnonce⟩
  rw [ensures_bind, ensures_ofExcept]
  intro _ hundone
  rw [ensures_bind, ensures_check]
  intro hunpaid
  refine returns_closing fun tx htx hmerchant' hclose' transaction ↦ (ensures_pure _).2 ?_
  obtain ⟨hstatus, hsame, hearlier, hafter⟩ := closedBefore_eq_true hclosed
  obtain ⟨hvalues, hopened, hclosed, hrecipient, hamount⟩ := nothingPaid_eq_true hunpaid
  simp only [List.length_append, List.length_singleton] at hlength₁ hfirst
  have hlength : t₂.length = t.length + 41 := by omega
  have hlast := (hsafe safe rfl).1
  rw [hlength] at hlast
  rw [hlength₁] at hsecond
  rw [Option.any_eq_true] at hnonce
  obtain ⟨value, hlookup, hnonce⟩ := hnonce
  refine ⟨?_, by simp [hlength], d, p, merchant, id, post, close, before, after, first, second, trace, hd, hpayment,
    hkind, hid, hmerchant, ?_, htrace trace rfl, ⟨htarget, hbound, invoiceTrace_eq_ok hundone⟩, hfirst, hsecond,
    hafter, ⟨safe.number, hlast, hle⟩, ?_⟩
  · rw [List.append_assoc, List.append_assoc] at hlonger₁
    exact (((List.prefix_append _ _).trans hlonger₁).trans hlonger₂).trans
      ((List.prefix_append _ _).trans (List.prefix_append _ _))
  · exact ⟨hpost post rfl, hclose close rfl, rfl, hstatus, hsame, hearlier, tx, htx, hmerchant', hclose'⟩
  · rcases value with n | _ | _
    · exact ⟨rfl, rfl, hvalues, ⟨n, hlookup, of_decide_eq_true hnonce⟩, hopened, hclosed, hrecipient, hamount⟩
    · cases hnonce
    · cases hnonce

/-- **What is reported as a rollback was one.** -/
theorem returns_verifyInvoiceRollback (hpayment : intent.payment = some p) {report : InvoiceEvidence} :
    Returns history (verifyInvoiceRollback abi c intent p report) (fun rollback t' ↦ t <+: t' ∧
      t'.length = t.length + 43 ∧ RolledBack history abi c intent rollback t.length) t := by
  rw [verifyInvoiceRollback]
  split
  next d id before after postHash closeHash hd hid _ _ _ _ =>
    rw [Returns, ensures_bind, ensures_check]
    rintro ⟨hkind, -⟩
    split
    next merchant hmerchant =>
      exact returns_verifyRollback hd hpayment hkind hid (Option.filter_eq_some_iff.1 hmerchant).1
    next => exact ensures_fail _
  next => exact ensures_fail _

theorem returns_canonicalRequestRetired :
    Returns history (canonicalRequestRetired c intent) (fun retired t' ↦ t <+: t' ∧
      (retired = true → Retired history c intent t.length)) t := by
  rw [canonicalRequestRetired]
  refine returns_getSafeBlock fun block hblock ↦ ?_
  rcases block with _ | block
  · exact ensures_fail _
  obtain ⟨hsafe, hcanonical⟩ := hblock block rfl
  refine returns_contractRead fun value hash hvalue hvalue' ↦ returns_getTransactionCount fun n hash' hcount hcount' ↦
    returns_getBlockByNumber fun again hagain ↦ ?_
  rw [Returns, ensures_bind, ensures_check]
  intro hsame
  obtain ⟨b, hb, hhash⟩ := Option.map_eq_some_iff.1 hsame
  have hlast := (hagain b hb).2
  simp only [List.length_append, List.length_singleton] at hvalue hcount hlast
  refine (ensures_pure _).2 ⟨by simp, fun hretired ↦ ?_⟩
  rcases value with m | _ | _
  · simp only [Bool.and_eq_true, decide_eq_true_eq] at hretired
    exact ⟨block, hsafe, hcanonical, ⟨m, hretired.1, hash, hvalue, hvalue'⟩, ⟨hash', hcount, hcount' ▸ hretired.2⟩,
      hhash ▸ hlast⟩
  · cases hretired
  · cases hretired

end Reads

end Settlement
