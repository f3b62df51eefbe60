import Mathlib.Data.List.Infix
import EezDashboard.Client.Settlement

/-!
# The evidence of an invoice that was refused

`invoices.ts`: the fixture closes an invoice in the block that pays it, so the merchant refuses the payment
after both Safes have contributed, and everything is undone.  `verifyInvoiceRollback` looks for all of it in
the trace of the transaction and in what the contracts hold before and after its block.

A trace is read in the order of its calls.  `invoiceTrace_eq_ok` says what is found in one: the two
transfers and the refusal, one after the other, inside of one call that fails.
-/

set_option autoImplicit false

namespace Settlement

open Client Dialogue Js

/-! ## Traces -/

/-- The call at a path: into which of its calls to go, again and again. -/
def CallFrame.at? (frame : CallFrame) : List ℕ → Option CallFrame
  | [] => some frame
  | i :: path => frame.calls[i]?.bind (·.at? path)

@[simp] theorem CallFrame.at?_nil (frame : CallFrame) : frame.at? [] = some frame := rfl

theorem CallFrame.at?_append (frame : CallFrame) (path path' : List ℕ) :
    frame.at? (path ++ path') = (frame.at? path).bind (·.at? path') := by
  induction path generalizing frame with
  | nil => rfl
  | cons i path ih =>
    rw [List.cons_append, CallFrame.at?, CallFrame.at?, Option.bind_assoc]
    exact congrArg _ (funext ih)

/-- A call of a trace, and the calls around it with their paths; calls are told apart by their paths, as the source
compares them by reference. -/
structure Row where
  path : List ℕ
  call : CallFrame
  ancestors : List (List ℕ × CallFrame)

mutual

/-- `visit` -/
def visit (path : List ℕ) (ancestors : List (List ℕ × CallFrame)) : CallFrame → List Row
  | ⟨sender, target, input, output, error, calls⟩ =>
    let call : CallFrame := ⟨sender, target, input, output, error, calls⟩
    ⟨path, call, ancestors⟩ :: visitCalls path 0 (ancestors ++ [(path, call)]) calls

/-- The calls of the call at a path, from the `i`-th one on. -/
def visitCalls (path : List ℕ) (i : ℕ) (ancestors : List (List ℕ × CallFrame)) : List CallFrame → List Row
  | [] => []
  | call :: calls => visit (path ++ [i]) ancestors call ++ visitCalls path (i + 1) ancestors calls

end

/-- What a row says is so: its call is at its path, and its ancestors are on the way to it. -/
structure Row.Located (trace : CallFrame) (row : Row) : Prop where
  call : trace.at? row.path = some row.call
  ancestors : ∀ a ∈ row.ancestors, trace.at? a.1 = some a.2 ∧ ∃ i rest, row.path = a.1 ++ i :: rest

section Visit

variable {trace : CallFrame} {path : List ℕ} {ancestors : List (List ℕ × CallFrame)} {row : Row}

mutual

theorem visit_located (call : CallFrame) {path : List ℕ} {ancestors : List (List ℕ × CallFrame)}
    (hcall : trace.at? path = some call)
    (hancestors : ∀ a ∈ ancestors, trace.at? a.1 = some a.2 ∧ ∃ i rest, path = a.1 ++ i :: rest) :
    ∀ row ∈ visit path ancestors call, row.Located trace := by
  rcases call with ⟨sender, target, input, output, error, calls⟩
  rw [visit]
  intro row hrow
  rcases List.mem_cons.1 hrow with rfl | hrow
  · exact ⟨hcall, hancestors⟩
  · refine visitCalls_located calls (fun n child hchild ↦ ?_) (fun a ha ↦ ?_) row hrow
    · rw [CallFrame.at?_append, hcall, Option.bind_some, CallFrame.at?, Nat.zero_add, hchild]
      rfl
    · rcases List.mem_append.1 ha with ha | ha
      · obtain ⟨hat, i, rest, hpath⟩ := hancestors a ha
        exact ⟨hat, _, hpath.symm⟩
      · rw [List.mem_singleton.1 ha]
        exact ⟨hcall, [], List.append_nil _⟩

theorem visitCalls_located (calls : List CallFrame) {path : List ℕ} {i : ℕ}
    {ancestors : List (List ℕ × CallFrame)}
    (hcalls : ∀ n call, calls[n]? = some call → trace.at? (path ++ [i + n]) = some call)
    (hancestors : ∀ a ∈ ancestors, trace.at? a.1 = some a.2 ∧ ∃ rest, a.1 ++ rest = path) :
    ∀ row ∈ visitCalls path i ancestors calls, row.Located trace := by
  rcases calls with _ | ⟨call, calls⟩
  · rw [visitCalls]
    rintro row ⟨⟩
  · rw [visitCalls]
    intro row hrow
    rcases List.mem_append.1 hrow with hrow | hrow
    · refine visit_located call (hcalls 0 call rfl) (fun a ha ↦ ?_) row hrow
      obtain ⟨hat, rest, rfl⟩ := hancestors a ha
      rcases rest with _ | ⟨j, rest⟩
      · exact ⟨hat, i, [], by rw [List.append_nil]; rfl⟩
      · exact ⟨hat, j, rest ++ [i], by rw [List.append_assoc]; rfl⟩
    · refine visitCalls_located calls (fun n child hchild ↦ ?_) hancestors row hrow
      rw [Nat.add_assoc, Nat.add_comm 1 n]
      exact hcalls (n + 1) child hchild

end

mutual

/-- The calls of a call come after it. -/
theorem visit_path (call : CallFrame) {path : List ℕ} {ancestors : List (List ℕ × CallFrame)} :
    ∀ row ∈ visit path ancestors call, ∃ rest, row.path = path ++ rest := by
  rcases call with ⟨sender, target, input, output, error, calls⟩
  rw [visit]
  intro row hrow
  rcases List.mem_cons.1 hrow with rfl | hrow
  · exact ⟨[], (List.append_nil _).symm⟩
  · obtain ⟨j, rest, hpath, -⟩ := visitCalls_path calls row hrow
    exact ⟨j :: rest, hpath⟩

theorem visitCalls_path (calls : List CallFrame) {path : List ℕ} {i : ℕ}
    {ancestors : List (List ℕ × CallFrame)} :
    ∀ row ∈ visitCalls path i ancestors calls, ∃ j rest, row.path = path ++ j :: rest ∧ i ≤ j := by
  rcases calls with _ | ⟨call, calls⟩
  · rw [visitCalls]
    rintro row ⟨⟩
  · rw [visitCalls]
    intro row hrow
    rcases List.mem_append.1 hrow with hrow | hrow
    · obtain ⟨rest, hpath⟩ := visit_path call row hrow
      exact ⟨i, rest, by rw [hpath, List.append_assoc]; rfl, Nat.le_refl i⟩
    · obtain ⟨j, rest, hpath, hle⟩ := visitCalls_path calls row hrow
      exact ⟨j, rest, hpath, (Nat.le_succ i).trans hle⟩

end

mutual

/-- **The rows are in the order of the calls.** -/
theorem visit_sorted (call : CallFrame) {path : List ℕ} {ancestors : List (List ℕ × CallFrame)} :
    (visit path ancestors call).Pairwise fun a b ↦ a.path < b.path := by
  rcases call with ⟨sender, target, input, output, error, calls⟩
  rw [visit]
  refine List.pairwise_cons.2 ⟨fun row hrow ↦ ?_, visitCalls_sorted calls⟩
  obtain ⟨j, rest, hpath, -⟩ := visitCalls_path calls row hrow
  rw [hpath]
  have hlt : path ++ [] < path ++ j :: rest := List.append_left_lt (List.nil_lt_cons j rest)
  rwa [List.append_nil] at hlt

theorem visitCalls_sorted (calls : List CallFrame) {path : List ℕ} {i : ℕ}
    {ancestors : List (List ℕ × CallFrame)} :
    (visitCalls path i ancestors calls).Pairwise fun a b ↦ a.path < b.path := by
  rcases calls with _ | ⟨call, calls⟩
  · rw [visitCalls]
    exact List.Pairwise.nil
  · rw [visitCalls]
    refine List.pairwise_append.2 ⟨visit_sorted call, visitCalls_sorted calls, fun a ha b hb ↦ ?_⟩
    obtain ⟨rest, ha⟩ := visit_path call a ha
    obtain ⟨j, rest', hb, hle⟩ := visitCalls_path calls b hb
    rw [ha, hb, List.append_assoc]
    exact List.append_left_lt (List.cons_lt_cons_iff.2 (.inl hle))

end

end Visit

/-! ## The refusal in a trace -/

/-- `findIndex`, with a test that may throw -/
def findIndex {α : Type} (test : α → Except String Bool) : List α → Except String (Option ℕ)
  | [] => pure none
  | a :: as => do
    if ← test a then pure (some 0)
    else do
      let i ← findIndex test as
      pure (i.map (· + 1))

/-- `!!call.error` -/
def CallFrame.failed (frame : CallFrame) : Bool := frame.error.any (· ≠ "")

/-- `same` of `invoices.ts`: nobody has a missing or an empty address. -/
def sameAddress (a : Option String) (b : String) : Bool := a.any fun a ↦ a ≠ "" && b ≠ "" && same a b

/-- Whether some call around all three of them fails. -/
def undoneTogether (first second last : Row) : Bool :=
  last.ancestors.any fun frame ↦ frame.2.failed && (first.ancestors.any fun a ↦ a.1 = frame.1) &&
    second.ancestors.any fun a ↦ a.1 = frame.1

/-- Whether the three calls come one after the other, and are undone together. -/
def refusedAfter (rows : List Row) : Option ℕ → Option ℕ → Option ℕ → Bool
  | some i, some j, some k =>
    i < j && j < k &&
      match rows[i]?, rows[j]?, rows[k]? with
      | some first, some second, some last => undoneTogether first second last
      | _, _, _ => false
  | _, _, _ => false

section Trace

variable (abi : Abi) (c : Config) (d : PaymentDeployment) (p : RecordedPayment) (merchant id : String)

/-- A transfer of the token to the recipient, which succeeds. -/
def isTransfer (sender : String) (amount : ℕ) (call : CallFrame) : Except String Bool :=
  if sameAddress call.target d.tokenL1 && sameAddress call.sender sender then do
    let data ← abi.encode (.transfer p.recipient amount)
    match call.output.filter (· ≠ "") with
    | some output =>
      if call.input = some data ∧ call.failed = false then
        (Js.bigInt output).elim (throw "Cannot convert to a BigInt") fun n ↦ pure (decide (n = 1))
      else pure false
    | none => pure false
  else pure false

/-- The merchant refuses the payment, with `InvoiceNotOpen`. -/
def isRefusal (call : CallFrame) : Except String Bool :=
  if sameAddress call.target merchant && sameAddress call.sender d.policyAlias then do
    let data ← abi.encode (.accept id d.tokenL1 p.recipient (Client.bigInt p.amount))
    pure (call.input = some data && call.failed &&
      call.output.map lowerCase = some (lowerCase ("0xa1c43db2" ++ String.ofList (sliceFrom id.toList 2))))
  else pure false

def invoiceTrace (trace : CallFrame) : Except String Unit := do
  let rows := visit [] [] trace
  let first ← findIndex (fun row : Row ↦ isTransfer abi d p d.bridgeL1 10000000 row.call) rows
  let second ← findIndex (fun row : Row ↦ isTransfer abi d p c.safeL1 100000000 row.call) rows
  let last ← findIndex (fun row : Row ↦ isRefusal abi d p merchant id row.call) rows
  raiseIf (refusedAfter rows first second last = false)
    "No common rollback trace for the two transfers followed by InvoiceNotOpen"

end Trace

/-- Three calls that are made one after the other inside of one call that fails. -/
def UndoneTogether (trace : CallFrame) (first second last : CallFrame → Prop) : Prop :=
  ∃ around frame, trace.at? around = some frame ∧ frame.failed = true ∧
    ∃ i j k a b e, [] < i ∧ i < j ∧ j < k ∧ frame.at? i = some a ∧ first a ∧ frame.at? j = some b ∧ second b ∧
      frame.at? k = some e ∧ last e

theorem findIndex_eq_some {α : Type} {test : α → Except String Bool} {as : List α} {i : ℕ}
    (h : findIndex test as = .ok (some i)) : ∃ a, as[i]? = some a ∧ test a = .ok true := by
  induction as generalizing i with
  | nil => cases h
  | cons a as ih =>
    rw [findIndex, Except.bind_eq_ok] at h
    obtain ⟨found, hfound, h⟩ := h
    rcases found with _ | _
    · simp only [Bool.false_eq_true, if_false, Except.bind_eq_ok, Except.pure_eq_ok] at h
      obtain ⟨rest, hrest, h⟩ := h
      obtain ⟨j, rfl, rfl⟩ := Option.map_eq_some_iff.1 h
      exact ih hrest
    · rw [if_pos rfl, Except.pure_eq_ok] at h
      cases h
      exact ⟨a, rfl, hfound⟩

/-- Paths that go on from the same call are compared by how they go on. -/
theorem lt_of_append_lt {path path' : List ℕ} {around : List ℕ} (h : around ++ path < around ++ path') :
    path < path' := by
  induction around with
  | nil => exact h
  | cons i around ih => exact ih ((List.cons_lt_cons_iff.1 h).resolve_left (Nat.lt_irrefl i)).2

/-- A call around one that has a row. -/
theorem Row.Located.inside {trace : CallFrame} {row : Row} {around : List ℕ} {frame : CallFrame}
    (h : row.Located trace) (hframe : trace.at? around = some frame)
    (hany : (row.ancestors.any fun a ↦ a.1 = around) = true) :
    ∃ i rest, row.path = around ++ i :: rest ∧ frame.at? (i :: rest) = some row.call := by
  obtain ⟨a, ha, heq⟩ := List.any_eq_true.1 hany
  obtain ⟨-, i, rest, hpath⟩ := h.ancestors a ha
  rw [of_decide_eq_true heq] at hpath
  refine ⟨i, rest, hpath, ?_⟩
  have hcall := h.call
  rwa [hpath, CallFrame.at?_append, hframe, Option.bind_some] at hcall

/-- A row that comes later is of a call that comes later. -/
theorem visit_lt {trace : CallFrame} {i j : ℕ} {a b : Row} (hlt : i < j) (ha : (visit [] [] trace)[i]? = some a)
    (hb : (visit [] [] trace)[j]? = some b) : a.path < b.path := by
  obtain ⟨hi, rfl⟩ := List.getElem?_eq_some_iff.1 ha
  obtain ⟨hj, rfl⟩ := List.getElem?_eq_some_iff.1 hb
  exact List.pairwise_iff_getElem.1 (visit_sorted trace) i j hi hj hlt

theorem refusedAfter_eq_true {rows : List Row} {found found' found'' : Option ℕ}
    (h : refusedAfter rows found found' found'' = true) :
    ∃ i j k a b e, found = some i ∧ found' = some j ∧ found'' = some k ∧ i < j ∧ j < k ∧
      rows[i]? = some a ∧ rows[j]? = some b ∧ rows[k]? = some e ∧ undoneTogether a b e = true := by
  unfold refusedAfter at h
  split at h
  next i j k =>
    split at h
    next a b e ha hb he =>
      simp only [Bool.and_eq_true, decide_eq_true_eq] at h
      exact ⟨i, j, k, a, b, e, rfl, rfl, rfl, h.1.1, h.1.2, ha, hb, he, h.2⟩
    next => simp at h
  next => cases h

/-- **What the trace shows**: both transfers succeed, then the merchant refuses, and a call around all three fails. -/
theorem invoiceTrace_eq_ok {abi : Abi} {c : Config} {d : PaymentDeployment} {p : RecordedPayment}
    {merchant id : String} {trace : CallFrame} (h : invoiceTrace abi c d p merchant id trace = .ok ()) :
    UndoneTogether trace (isTransfer abi d p d.bridgeL1 10000000 · = .ok true)
      (isTransfer abi d p c.safeL1 100000000 · = .ok true) (isRefusal abi d p merchant id · = .ok true) := by
  simp only [invoiceTrace, Except.bind_eq_ok, raiseIf_eq_ok, Bool.not_eq_false] at h
  obtain ⟨found, hfound, found', hfound', found'', hfound'', h⟩ := h
  obtain ⟨i, j, k, a, b, e, rfl, rfl, rfl, hij, hjk, ha, hb, he, htogether⟩ := refusedAfter_eq_true h
  obtain ⟨first, hfirst, hfirst'⟩ := findIndex_eq_some hfound
  obtain ⟨second, hsecond, hsecond'⟩ := findIndex_eq_some hfound'
  obtain ⟨last, hlast, hlast'⟩ := findIndex_eq_some hfound''
  obtain rfl := Option.some.inj (ha.symm.trans hfirst)
  obtain rfl := Option.some.inj (hb.symm.trans hsecond)
  obtain rfl := Option.some.inj (he.symm.trans hlast)
  obtain ⟨⟨around, frame⟩, hframe, htogether⟩ := List.any_eq_true.1 htogether
  simp only [Bool.and_eq_true] at htogether
  obtain ⟨⟨hfailed, hina⟩, hinb⟩ := htogether
  have hlocated : ∀ row ∈ visit [] [] trace, row.Located trace := visit_located trace rfl (by rintro a ⟨⟩)
  have hat := ((hlocated e (List.mem_of_getElem? he)).ancestors _ hframe).1
  obtain ⟨x, xs, hxs, hx⟩ := (hlocated a (List.mem_of_getElem? ha)).inside hat hina
  obtain ⟨y, ys, hys, hy⟩ := (hlocated b (List.mem_of_getElem? hb)).inside hat hinb
  obtain ⟨z, zs, hzs, hz⟩ := (hlocated e (List.mem_of_getElem? he)).inside hat
    (List.any_eq_true.2 ⟨_, hframe, decide_eq_true rfl⟩)
  have hab := visit_lt hij ha hb
  have hbe := visit_lt hjk hb he
  rw [hxs, hys] at hab
  rw [hys, hzs] at hbe
  exact ⟨around, frame, hat, hfailed, x :: xs, y :: ys, z :: zs, a.call, b.call, e.call, List.nil_lt_cons x xs,
    lt_of_append_lt hab, lt_of_append_lt hbe, hx, hfirst', hy, hsecond', hz, hlast'⟩

/-! ## Snapshots -/

/-- A method that a snapshot calls, and the key of what it returns. -/
structure Reading where
  key : String
  side : Side
  address : String
  method : Method

/-- The block of a side. -/
def Anchors.of (anchors : Anchors) : Side → Block
  | .l1 => anchors.l1
  | .l2 => anchors.l2

/-- What is kept of a value: an allowance as it is in the period of the payment. -/
def kept (epoch : ℕ) : Value → Except String Value
  | .uint n => pure (.uint n)
  | .tokenAllowance a =>
    match normalise epoch a with
    | .ok a => pure (.tokenAllowance a)
    | .error _ => throw "Invoice allowance period mismatch"
  | .invoice _ _ _ => throw "Invoice allowance period mismatch"

/-- `values` are by their keys, in the order they are read; the rest is the invoice. -/
structure InvoiceSnapshot where
  values : List (String × Value)
  recipient : String
  amount : ℕ
  status : ℕ

section Client

variable (abi : Abi) (c : Config) (intent : Intent) (d : PaymentDeployment) (p : RecordedPayment)

/-- `rows` -/
def readings : List Reading := [
  ⟨"balanceL1", .l1, d.tokenL1, .balanceOf c.safeL1⟩,
  ⟨"balanceL2", .l2, d.tokenL2, .balanceOf c.safeL2⟩,
  ⟨"recipientL1", .l1, d.tokenL1, .balanceOf p.recipient⟩,
  ⟨"recipientL2", .l2, d.tokenL2, .balanceOf p.recipient⟩,
  ⟨"escrow", .l1, d.tokenL1, .balanceOf d.bridgeL1⟩,
  ⟨"aliasBalance", .l1, d.tokenL1, .balanceOf d.policyAlias⟩,
  ⟨"policyBalance", .l2, d.tokenL2, .balanceOf d.policy⟩,
  ⟨"supply", .l2, d.tokenL2, .totalSupply⟩,
  ⟨"safeNonce", .l2, c.safeL2, .nonce⟩,
  ⟨"safeL1Nonce", .l1, c.safeL1, .nonce⟩,
  ⟨"spent", .l2, d.policy, .spent (Client.bigInt p.epoch)⟩,
  ⟨"aliasApproval", .l1, d.tokenL1, .allowance d.policyAlias d.bridgeL1⟩,
  ⟨"allowanceL1", .l1, d.moduleL1, .getTokenAllowance c.safeL1 d.policyAlias d.tokenL1⟩,
  ⟨"allowanceL2", .l2, d.moduleL2, .getTokenAllowance c.safeL2 d.policy d.tokenL2⟩]

/-- Read all of them. -/
def readAll (anchors : Anchors) (epoch : ℕ) : List Reading → ClientM (List (String × Value))
  | [] => pure []
  | r :: rs => do
    let value ← contractRead r.side r.address r.method (anchors.of r.side).number
    let value ← ofExcept (kept epoch value)
    let values ← readAll anchors epoch rs
    pure ((r.key, value) :: values)

/-- The block is still there. -/
def stillCanonical (side : Side) (block : Block) : ClientM Unit := do
  let again ← getBlockByNumber side block.number
  check (again.map Block.hash = some block.hash) "Invoice evidence block is no longer canonical"

/-- `invoiceSnapshot`, at given blocks. -/
def invoiceSnapshot (merchant id : String) (anchors : Anchors) : ClientM InvoiceSnapshot := do
  let l1 ← getAnchor .l1 anchors.l1.number
  let l2 ← getAnchor .l2 anchors.l2.number
  match l1, l2 with
  | some l1, some l2 => do
    check (l1.hash = anchors.l1.hash ∧ l2.hash = anchors.l2.hash) "Invoice evidence block is no longer canonical"
    check (l1.timestamp / 600 = Client.bigInt p.epoch) "Invoice evidence crosses its signed budget period"
    let values ← readAll ⟨l1.toBlock, l2.toBlock⟩ (Client.bigInt p.epoch) (readings c d p)
    match ← contractRead .l1 merchant (.invoices id) l1.number with
    | .invoice recipient amount status => do
      stillCanonical .l1 l1.toBlock
      stillCanonical .l2 l2.toBlock
      pure ⟨values, recipient, amount, status⟩
    | _ => fail undefinedValue
  | _, _ => fail "Missing canonical invoice observation"

/-! ## `verifyInvoiceRollback` -/

/-- What the fixture reports, where there is one. -/
def invoiceEvidence : ClientM (Option InvoiceEvidence) :=
  if c.payments.any PaymentDeployment.invoiceControl && p.kind = some "invoice" then
    getInvoice (p.invoiceId.getD undefinedValue)
  else pure none

/-- Whether the report is about the intent. -/
def InvoiceEvidence.isOf (report : InvoiceEvidence) : Bool :=
  report.phase = .verified && report.intent.safeHash = intent.safeHash && report.intent.data = intent.data &&
    sameAddress (some report.intent.sender) intent.sender && report.intent.sourceNonce = intent.sourceNonce &&
    report.intent.nonce = intent.nonce

/-- The invoice was closed in the block of the payment, before it, and that block is the one the snapshot is of. -/
def closedBefore (report : InvoiceEvidence) (after : Anchors) (post close : Receipt) : Bool :=
  close.status = "0x1" && some post.blockHash = report.l1BlockHash && close.blockHash = post.blockHash &&
    close.transactionIndex < post.transactionIndex && after.l1.hash = post.blockHash

/-- Whether the calldata has the Safe hash in it. -/
def bindsSafeHash (trace : CallFrame) : Bool :=
  trace.input.any fun input ↦
    decide ((lowerCase (String.ofList (sliceFrom intent.safeHash.toList 2))).toList <:+: (lowerCase input).toList)

/-- Nothing has changed but the invoice, from open to closed. -/
def nothingPaid (before after : InvoiceSnapshot) : Bool :=
  before.values = after.values && before.status = 1 && after.status = 3 &&
    sameAddress (some after.recipient) p.recipient && after.amount = Client.bigInt p.amount

/-- `verifyInvoiceRollback`, of a report that has everything. -/
def verifyRollback (merchant id : String) (report : InvoiceEvidence) (before after : Anchors)
    (postHash closeHash : String) : ClientM Rollback := do
  let post ← getTransactionReceipt .l1 postHash
  let close ← getTransactionReceipt .l1 closeHash
  let trace ← traceTransaction postHash
  let first ← invoiceSnapshot c d p merchant id before
  let second ← invoiceSnapshot c d p merchant id after
  let safe ← getSafeBlock
  match post, close with
  | some post, some close => do
    check (closedBefore report after post close = true) "Invoice closure and payment are not canonically ordered"
    match safe, trace with
    | some safe, some trace => do
      check (after.l2.number ≤ safe.number) "Invoice closure and payment are not canonically ordered"
      check (sameAddress trace.target c.registry = true) "Rollback trace is not a protocol posting"
      check (bindsSafeHash intent trace = true ∧
        (first.values.lookup "safeNonce").any (fun | .uint n => toString n = intent.nonce | _ => false) = true)
        "Rollback evidence does not bind this Safe authorization"
      ofExcept (invoiceTrace abi c d p merchant id trace)
      check (nothingPaid p first second = true) "Treasury effects did not fully roll back"
      let transaction ← getTransactionByHash .l1 closeHash
      check (transaction.any (fun tx ↦ sameAddress (some tx.target) merchant) = true)
        "Invoice closure does not match this payment"
      let data ← ofExcept (abi.encode (.close id))
      check (transaction.any (fun tx ↦ tx.input = data) = true) "Invoice closure does not match this payment"
      pure ⟨postHash, closeHash, post.blockNumber, first.values, second.values⟩
    | _, _ => fail undefinedValue
  | _, _ => fail "Invoice closure and payment are not canonically ordered"

def verifyInvoiceRollback (report : InvoiceEvidence) : ClientM Rollback :=
  match c.payments, p.invoiceId, report.before, report.after, report.postHash, report.closeHash with
  | some d, some id, some before, some after, some postHash, some closeHash => do
    check (p.kind = some "invoice" ∧ report.isOf intent = true ∧ postHash ≠ "" ∧ closeHash ≠ "")
      "Incomplete invoice rollback evidence"
    match d.invoiceMerchant.filter (· ≠ "") with
    | some merchant => verifyRollback abi c intent d p merchant id report before after postHash closeHash
    | none => fail "Missing signed invoice"
  | _, _, _, _, _, _ => fail "Incomplete invoice rollback evidence"

/-- Both nonces of a request are past, so it cannot be executed any more. -/
def canonicalRequestRetired : ClientM Bool := do
  match ← getSafeBlock with
  | none => fail "Canonical request observation is unavailable"
  | some block => do
    let safeNonce ← contractRead .l2 c.safeL2 .nonce block.number
    let sourceNonce ← getTransactionCount .l2 intent.sender block.number
    let again ← getBlockByNumber .l2 block.number
    check (again.map Block.hash = some block.hash) "Canonical request observation changed during verification"
    pure (match safeNonce with
      | .uint n => decide (Client.bigInt intent.nonce < n) && decide (Client.bigInt intent.sourceNonce < sourceNonce)
      | _ => false)

end Client

end Settlement
