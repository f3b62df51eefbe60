import EezDashboard.Client.Settled

/-!
# What a settled payment has paid

One statement for the three routes of a fixed payment or of an invoice.  The routes differ in the chain and the target
of the transaction that is submitted, in the Safe and in the chain it executes on (`Route`); what a payment that is
reported as settled has behind it is the same on each of them (`Made`).
-/

set_option autoImplicit false

namespace Settlement

open Client Dialogue Js

/-- Where a payment is submitted, and where its Safe executes it. -/
structure Route where
  side : Side
  target : Option String
  safe : String
  executes : Side

/-- The route that `outcome` follows for a payment. -/
def route (c : Config) (p : RecordedPayment) : Route :=
  if p.source = some "l1" then ⟨.l1, some c.safeL1, c.safeL1, .l1⟩
  else if c.payments.any PaymentDeployment.standard then
    ⟨.l1, c.payments.bind PaymentDeployment.safeL2Alias, c.safeL2, .l2⟩
  else ⟨.l2, some c.safeL2, c.safeL2, .l2⟩

section Made

variable {ledger : Ledger} (history : ℕ → World ledger) (abi : Abi) (c : Config) (intent : Intent)

/-- A receipt that a node has answered, in a block that was canonical at one of the first `n` reads. -/
structure Stood (n : ℕ) (side : Side) (hash : String) (receipt : Receipt) : Prop where
  included : ledger.Includes side hash receipt
  canonical : ∃ k < n, (history k).canonical side receipt.blockNumber = some receipt.blockHash
  status : receipt.status = "0x1"

/-- The transaction on the payment's route is the intent's; on Ethereum with its nonce, and without value. -/
def Route.Submitted (ledger : Ledger) (r : Route) (intent : Intent) (hash : String) : Prop :=
  ∃ target tx, r.target = some target ∧ Submits ledger r.side intent target hash tx ∧
    (r.side = .l1 → tx.nonce = Client.bigInt intent.sourceNonce ∧ tx.value = 0)

/-- The receipt of the transaction the Safe executes in. -/
def Route.executed (r : Route) (source destination : Receipt) : Receipt :=
  match r.executes with
  | .l1 => source
  | .l2 => destination

/-- A payment that was made: submitted as the intent has it, executed by its Safe, and paid by the policy once, with
the contributions that are reported. -/
structure Made (p : RecordedPayment) (o : Outcome) (n : ℕ) (hash l2 : String) (source destination : Receipt) :
    Prop where
  reported : o.hash = some hash
  execution : o.executionL2 = some l2
  block : o.block = some destination.blockNumber
  stoodSource : Stood history n (route c p).side hash source
  stoodL2 : Stood history n .l2 l2 destination
  safe : ∃ k < n, ∃ head, (history k).safe = some head ∧ destination.blockNumber ≤ head
  submitted : (route c p).Submitted ledger intent hash
  executed : Executed abi (route c p).safe intent.safeHash ((route c p).executed source destination).logs
  paid : ∃ d a, c.payments = some d ∧ PaidOnce abi d p destination.logs a ∧ same a.recipient p.recipient = true ∧
    o.contributions = some ⟨a.fromL1, a.fromL2⟩

end Made

section Routes

variable {ledger : Ledger} {history : ℕ → World ledger} {abi : Abi} {c : Config} {intent : Intent}
  {p : RecordedPayment} {target hash l2 : String} {receipt destination : Receipt} {o : Outcome} {k n : ℕ}
  {logs : List Log} {contributions : Option Contributions} {t : Transcript Request Answer}

theorem same_eq_true {a b : String} : same a b = true ↔ lowerCase a = lowerCase b := decide_eq_true_iff

/-- The checksum form of an address does not tell recipients apart. -/
theorem Contributed.recipient (hchecksum : ∀ address, same (abi.getAddress address) address = true)
    (h : Contributed abi c p logs contributions) :
    ∃ d a, c.payments = some d ∧ PaidOnce abi d p logs a ∧ same a.recipient p.recipient = true ∧
      contributions = some ⟨a.fromL1, a.fromL2⟩ := by
  obtain ⟨d, a, hd, hpaid, hcontributions⟩ := h
  refine ⟨d, a, hd, hpaid, ?_, hcontributions⟩
  cases hpaid.recipient with
  | inl h => exact h
  | inr h => exact same_eq_true.2 ((same_eq_true.1 h).trans (same_eq_true.1 (hchecksum p.recipient)))

/-- A payment through Ethereum: both of its transactions stood at the last reads. -/
theorem Stands.made (h : Stands history intent target k hash l2 receipt destination o) (hn : n = k + 3)
    (hside : (route c p).side = .l1) (htarget : (route c p).target = some target)
    (hexecuted : Executed abi (route c p).safe intent.safeHash ((route c p).executed receipt destination).logs)
    (hpaid : ∃ d a, c.payments = some d ∧ PaidOnce abi d p destination.logs a ∧ same a.recipient p.recipient = true ∧
      o.contributions = some ⟨a.fromL1, a.fromL2⟩) :
    Made history abi c intent p o n hash l2 receipt destination where
  reported := h.reported
  execution := h.execution
  block := h.block
  stoodSource := by
    rw [hside]
    exact ⟨h.includedL1, ⟨k, by omega, h.canonicalL1⟩, h.statusL1⟩
  stoodL2 := ⟨h.includedL2, ⟨k + 1, by omega, h.canonicalL2⟩, h.statusL2⟩
  safe := ⟨k + 2, by omega, h.safe⟩
  submitted := by
    obtain ⟨tx, hsubmits, hlast⟩ := h.submitted
    exact ⟨target, tx, htarget, hside ▸ hsubmits, fun _ ↦ hlast⟩
  executed := hexecuted
  paid := hpaid

theorem L2Settled.made (h : L2Settled history abi c intent k hash receipt o) (hn : n = k + 3)
    (hroute : route c p = ⟨.l2, some c.safeL2, c.safeL2, .l2⟩)
    (hpaid : ∃ d a, c.payments = some d ∧ PaidOnce abi d p receipt.logs a ∧ same a.recipient p.recipient = true ∧
      o.contributions = some ⟨a.fromL1, a.fromL2⟩) :
    Made history abi c intent p o n hash hash receipt receipt where
  reported := h.reported
  execution := h.execution
  block := h.block
  stoodSource := by
    rw [hroute]
    exact ⟨h.included, ⟨k + 1, by omega, h.canonical⟩, h.status⟩
  stoodL2 := ⟨h.included, ⟨k + 1, by omega, h.canonical⟩, h.status⟩
  safe := ⟨k, by omega, h.safe⟩
  submitted := by
    obtain ⟨tx, hsubmits⟩ := h.submitted
    rw [hroute]
    exact ⟨c.safeL2, tx, rfl, hsubmits, by rintro ⟨⟩⟩
  executed := by
    rw [hroute]
    exact h.executed
  paid := hpaid

/-- What an outcome has behind it shows that the payment was made, on whichever route. -/
theorem Evidence.made (h : Evidence history abi c intent o t) (hpayment : intent.payment = some p)
    (hkind : p.kind ≠ some "transfer") (hchecksum : ∀ address, same (abi.getAddress address) address = true) :
    ∃ hash l2 source destination, Made history abi c intent p o t.length hash l2 source destination := by
  obtain ⟨k, hlength, h⟩ := h
  simp only [hpayment, Option.any_some, decide_eq_true_eq] at h
  split at h
  next hsource =>
    obtain ⟨_, hash, l2, receipt, destination, ⟨⟩, h⟩ := h
    rw [if_neg hkind] at h
    have hroute : route c p = ⟨.l1, some c.safeL1, c.safeL1, .l1⟩ := if_pos hsource
    refine ⟨hash, l2, receipt, destination, h.toStands.made hlength ?_ ?_ ?_ (h.paid.recipient hchecksum)⟩
    · rw [hroute]
    · rw [hroute]
    · rw [hroute]
      exact h.executed
  next hsource =>
    split at h
    next hstandard =>
      obtain ⟨_, d, safeL2Alias, hash, l2, receipt, destination, ⟨⟩, hd, halias, h⟩ := h
      have hroute : route c p = ⟨.l1, some safeL2Alias, c.safeL2, .l2⟩ := by
        rw [route, if_neg hsource, if_pos hstandard, hd, Option.bind_some, halias]
      refine ⟨hash, l2, receipt, destination, h.toStands.made hlength ?_ ?_ ?_ (h.paid.recipient hchecksum)⟩
      · rw [hroute]
      · rw [hroute]
      · rw [hroute]
        exact h.executed
    next hstandard =>
      obtain ⟨hash, receipt, h⟩ := h
      have hroute : route c p = ⟨.l2, some c.safeL2, c.safeL2, .l2⟩ := by
        rw [route, if_neg hsource, if_neg hstandard]
      exact ⟨hash, hash, receipt, receipt, h.made hlength hroute ((h.paid p hpayment).recipient hchecksum)⟩

/-- **A fixed payment or an invoice that is reported as settled was paid.**  Every read may be answered from another
state of the chains. -/
theorem outcome_paid {answer : ℕ → Request → Except String Answer}
    (hanswer : ∀ n q a, answer n q = .ok a → (history n).Reports q a)
    (hchecksum : ∀ address, same (abi.getAddress address) address = true) (hpayment : intent.payment = some p)
    (hkind : p.kind ≠ some "transfer") (hrun : (outcome abi c intent).run answer [] = (.ok o, t))
    (hsettled : o.kind = .settled) :
    ∃ hash l2 source destination, Made history abi c intent p o t.length hash l2 source destination :=
  ((ensures_run (fun n q a ha ↦ hanswer n q a ha) returns_outcome hrun).settled hsettled).made hpayment hkind hchecksum

end Routes

theorem outcome_paid_sample : ∃ t hash l2 source destination,
    Made (fun _ ↦ sampleWorld) sampleAbi sampleConfig sampleIntent
      ⟨⟨none, some "l1", "0x01", "l2", "5", "7", some "3", none, none, []⟩, ""⟩ sampleOutcome t hash l2 source
      destination :=
  ⟨_, outcome_paid sampleAnswer_reports (fun address ↦ same_eq_true.2 rfl) rfl (by rintro ⟨⟩) run_sampleIntent rfl⟩

end Settlement
