import EezDashboard.Client.Routes

/-!
# Chains that change while they are read

`Ledger` is what a block hash and a transaction hash determine; a `World` is what a node takes to be the
chains at a moment.  Every question is answered from a world of its own, and nothing relates one to the
next, so blocks may be replaced between any two reads; what the Composer answers is arbitrary.
-/

set_option autoImplicit false

namespace Settlement

open Client Dialogue Js

/-- The transactions of a block, with their receipts. -/
structure Content where
  number : ℕ
  timestamp : ℕ
  entries : List (String × Receipt)
  distinct : (entries.map Prod.fst).Nodup

/-- The state of the Safe on L1 after a block. -/
structure SafeState where
  owners : List String
  threshold : ℕ
  nonce : ℕ

structure Ledger where
  content : Side → String → Option Content
  transaction : Side → String → Option Transaction
  safeL1 : String → SafeState
  /-- what a method of a contract returns after a block -/
  view : Side → String → String → Method → Value
  transactionCount : Side → String → String → ℕ
  /-- the calls of a transaction in a block of L1 -/
  trace : String → String → CallFrame
  receipt_placed : ∀ side hash block, content side hash = some block → ∀ entry ∈ block.entries,
    entry.2.blockHash = hash ∧ entry.2.blockNumber = block.number
  log_placed : ∀ side hash block, content side hash = some block → ∀ entry ∈ block.entries, ∀ log ∈ entry.2.logs,
    log.blockHash = hash ∧ log.blockNumber = block.number ∧ log.transactionHash = entry.1

structure World (ledger : Ledger) where
  canonical : Side → ℕ → Option String
  latest : Side → ℕ
  safe : Option ℕ
  known : ∀ side n hash, canonical side n = some hash → ∃ block, ledger.content side hash = some block ∧
    block.number = n

/-- How `eth_getLogs` compares topics. -/
def takes : List (List String) → List String → Bool
  | [], _ => true
  | alternatives :: filters, topic :: topics =>
    (alternatives = [] || topic ∈ alternatives) && takes filters topics
  | _ :: _, [] => false

/-- The logs of a block. -/
def Ledger.logs (ledger : Ledger) (side : Side) (hash : String) : List Log :=
  match ledger.content side hash with
  | some block => block.entries.flatMap fun entry ↦ entry.2.logs
  | none => []

/-- A transaction of a block that a hash names. -/
def Ledger.Includes (ledger : Ledger) (side : Side) (hash : String) (receipt : Receipt) : Prop :=
  ∃ block, ledger.content side receipt.blockHash = some block ∧ (hash, receipt) ∈ block.entries

section World

variable {ledger : Ledger} (w : World ledger)

/-- The blocks that a filter means. -/
def World.blocks (side : Side) : Blocks → List String
  | .range fromBlock toBlock =>
    (List.range' fromBlock (toBlock.getD (w.latest side) + 1 - fromBlock)).filterMap (w.canonical side)
  | .block hash => [hash]

/-- The answer to `eth_getLogs`. -/
def World.logs (side : Side) (filter : Filter) : List Log :=
  ((w.blocks side filter.blocks).flatMap (ledger.logs side)).filter fun log ↦
    same log.address filter.address && takes filter.topics log.topics

/-- Answers that a node gives: a receipt or a trace may be of any block that it knows, a block that is asked for
is canonical, the logs are those of the filter, and contracts are called after the canonical block of the number.
A node may answer null to anything else, and the Composer and the invoice fixture may answer anything. -/
def World.Reports : Request → Answer → Prop
  | .getLogs side filter, .logs logs => logs = w.logs side filter
  | .getTransactionReceipt side hash, .receipt (some receipt) => ledger.Includes side hash receipt
  | .getTransactionByHash side hash, .transaction (some transaction) =>
    ledger.transaction side hash = some transaction
  | .getBlockByNumber side number, .block (some block) =>
    block.number = number ∧ w.canonical side number = some block.hash
  | .getSafeBlock, .block (some block) =>
    w.safe = some block.number ∧ w.canonical .l2 block.number = some block.hash
  | .getOwners number, .addresses owners =>
    ∃ hash, w.canonical .l1 number = some hash ∧ owners = (ledger.safeL1 hash).owners
  | .getThreshold number, .uint threshold =>
    ∃ hash, w.canonical .l1 number = some hash ∧ threshold = (ledger.safeL1 hash).threshold
  | .getNonce number, .uint nonce =>
    ∃ hash, w.canonical .l1 number = some hash ∧ nonce = (ledger.safeL1 hash).nonce
  | .getAnchor side number, .anchor (some anchor) =>
    anchor.number = number ∧ w.canonical side number = some anchor.hash ∧
      ∃ block, ledger.content side anchor.hash = some block ∧ anchor.timestamp = block.timestamp
  | .call side address method number, .value value =>
    ∃ hash, w.canonical side number = some hash ∧ value = ledger.view side hash address method
  | .getTransactionCount side address number, .uint n =>
    ∃ hash, w.canonical side number = some hash ∧ n = ledger.transactionCount side hash address
  | .traceTransaction hash, .trace (some trace) =>
    ∃ receipt, ledger.Includes .l1 hash receipt ∧ trace = ledger.trace receipt.blockHash hash
  | _, _ => True

end World

section Logs

variable {ledger : Ledger} {w : World ledger} {side : Side} {log : Log} {hash : String} {receipt : Receipt}

theorem Ledger.mem_logs : log ∈ ledger.logs side hash ↔
    ∃ block, ledger.content side hash = some block ∧ ∃ entry ∈ block.entries, log ∈ entry.2.logs := by
  rw [Ledger.logs]
  split
  next block hblock =>
    rw [List.mem_flatMap]
    constructor
    · rintro ⟨entry, hentry, hlog⟩
      exact ⟨block, hblock, entry, hentry, hlog⟩
    · rintro ⟨block', hblock', entry, hentry, hlog⟩
      obtain rfl := Option.some.inj (hblock.symm.trans hblock')
      exact ⟨entry, hentry, hlog⟩
  next hnone =>
    constructor
    · rintro ⟨⟩
    · rintro ⟨block, hblock, -⟩
      exact absurd (hnone.symm.trans hblock) (by simp)

/-- A log that a node reports is in the receipt of its transaction, in the block that it names. -/
theorem World.mem_logs {filter : Filter} (h : log ∈ w.logs side filter) :
    ∃ receipt, ledger.Includes side log.transactionHash receipt ∧ log ∈ receipt.logs ∧
      receipt.blockHash = log.blockHash ∧ receipt.blockNumber = log.blockNumber := by
  obtain ⟨hash, -, hlog⟩ := List.mem_flatMap.1 (List.mem_filter.1 h).1
  obtain ⟨block, hblock, ⟨tx, receipt⟩, hentry, hlog⟩ := Ledger.mem_logs.1 hlog
  obtain ⟨hplaced, hnumber⟩ := ledger.receipt_placed side hash block hblock _ hentry
  obtain ⟨rfl, hlognumber, rfl⟩ := ledger.log_placed side hash block hblock _ hentry log hlog
  exact ⟨receipt, ⟨block, hplaced.symm ▸ hblock, hentry⟩, hlog, hplaced, hnumber.trans hlognumber.symm⟩

/-- A block has one receipt for a transaction. -/
theorem Ledger.Includes.unique {receipt' : Receipt} (h : ledger.Includes side hash receipt)
    (h' : ledger.Includes side hash receipt') (hblock : receipt.blockHash = receipt'.blockHash) :
    receipt = receipt' := by
  obtain ⟨block, hcontent, hentry⟩ := h
  obtain ⟨block', hcontent', hentry'⟩ := h'
  rw [hblock, hcontent'] at hcontent
  obtain rfl := Option.some.inj hcontent
  exact congrArg Prod.snd (List.inj_on_of_nodup_map block'.distinct hentry hentry' rfl)

end Logs

/-! ## Answers from many worlds -/

section Asking

variable {ledger : Ledger} (history : ℕ → World ledger)

/-- What may be answered to the `n`-th question. -/
def Possible (n : ℕ) (q : Request) (r : Except String Answer) : Prop :=
  ∀ answer, r = .ok answer → (history n).Reports q answer

/-- What holds when a program returns, whatever the chains do meanwhile. -/
abbrev Returns {α : Type} (x : ClientM α) (post : α → Transcript Request Answer → Prop)
    (t : Transcript Request Answer) : Prop :=
  Ensures (Possible history) x post t

variable {history} {α β : Type} {post : β → Transcript Request Answer → Prop} {t : Transcript Request Answer}
  {side : Side} {hash : String} {number : ℕ}

theorem returns_query {q : Request} {read : Answer → Option α} {f : α → ClientM β}
    (h : ∀ answer a, (history t.length).Reports q answer → read answer = some a →
      Returns history (f a) post (t ++ [(q, answer)])) :
    Returns history (query q read >>= f) post t := by
  rw [Returns, ensures_bind, query, ensures_bind, ensures_request]
  intro answer hanswer
  split
  next a hread => exact (ensures_pure a).2 (h answer a (hanswer answer rfl) hread)
  next => exact ensures_fail _

theorem returns_getLogs {filter : Filter} {f : List Log → ClientM β}
    (h : Returns history (f ((history t.length).logs side filter)) post
      (t ++ [(.getLogs side filter, .logs ((history t.length).logs side filter))])) :
    Returns history (getLogs side filter >>= f) post t := by
  refine returns_query fun answer logs hreports hread ↦ ?_
  split at hread <;> cases hread
  cases hreports
  exact h

theorem returns_getTransactionReceipt {f : Option Receipt → ClientM β}
    (h : ∀ receipt, (∀ r ∈ receipt, ledger.Includes side hash r) →
      Returns history (f receipt) post (t ++ [(.getTransactionReceipt side hash, .receipt receipt)])) :
    Returns history (getTransactionReceipt side hash >>= f) post t := by
  refine returns_query fun answer receipt hreports hread ↦ ?_
  split at hread <;> cases hread
  refine h receipt fun r hr ↦ ?_
  cases hr
  exact hreports

theorem returns_getTransactionByHash {f : Option Transaction → ClientM β}
    (h : ∀ transaction, (∀ tx ∈ transaction, ledger.transaction side hash = some tx) →
      Returns history (f transaction) post (t ++ [(.getTransactionByHash side hash, .transaction transaction)])) :
    Returns history (getTransactionByHash side hash >>= f) post t := by
  refine returns_query fun answer transaction hreports hread ↦ ?_
  split at hread <;> cases hread
  refine h transaction fun tx htx ↦ ?_
  cases htx
  exact hreports

theorem returns_getBlockByNumber {f : Option Block → ClientM β}
    (h : ∀ block, (∀ b ∈ block, b.number = number ∧ (history t.length).canonical side number = some b.hash) →
      Returns history (f block) post (t ++ [(.getBlockByNumber side number, .block block)])) :
    Returns history (getBlockByNumber side number >>= f) post t := by
  refine returns_query fun answer block hreports hread ↦ ?_
  split at hread <;> cases hread
  refine h block fun b hb ↦ ?_
  cases hb
  exact hreports

theorem returns_getSafeBlock {f : Option Block → ClientM β}
    (h : ∀ block, (∀ b ∈ block, (history t.length).safe = some b.number ∧
        (history t.length).canonical .l2 b.number = some b.hash) →
      Returns history (f block) post (t ++ [(.getSafeBlock, .block block)])) :
    Returns history (getSafeBlock >>= f) post t := by
  refine returns_query fun answer block hreports hread ↦ ?_
  split at hread <;> cases hread
  refine h block fun b hb ↦ ?_
  cases hb
  exact hreports

theorem returns_getCrossChainTransaction {f : Option Status → ClientM β}
    (h : ∀ status, Returns history (f status) post (t ++ [(.getCrossChainTransaction side hash, .status status)])) :
    Returns history (getCrossChainTransaction side hash >>= f) post t := by
  refine returns_query fun answer status _ hread ↦ ?_
  split at hread <;> cases hread
  exact h status

theorem returns_getSettlementByL2Block {f : Option Record → ClientM β}
    (h : ∀ record, Returns history (f record) post (t ++ [(.getSettlementByL2Block hash, .settlement record)])) :
    Returns history (getSettlementByL2Block hash >>= f) post t := by
  refine returns_query fun answer record _ hread ↦ ?_
  split at hread <;> cases hread
  exact h record

theorem returns_getOwners {f : List String → ClientM β}
    (h : ∀ owners canonical, (history t.length).canonical .l1 number = some canonical →
      owners = (ledger.safeL1 canonical).owners →
      Returns history (f owners) post (t ++ [(.getOwners number, .addresses owners)])) :
    Returns history (getOwners number >>= f) post t := by
  refine returns_query fun answer owners hreports hread ↦ ?_
  split at hread <;> cases hread
  obtain ⟨canonical, hcanonical, howners⟩ := hreports
  exact h owners canonical hcanonical howners

theorem returns_getThreshold {f : ℕ → ClientM β}
    (h : ∀ threshold canonical, (history t.length).canonical .l1 number = some canonical →
      threshold = (ledger.safeL1 canonical).threshold →
      Returns history (f threshold) post (t ++ [(.getThreshold number, .uint threshold)])) :
    Returns history (getThreshold number >>= f) post t := by
  refine returns_query fun answer threshold hreports hread ↦ ?_
  split at hread <;> cases hread
  obtain ⟨canonical, hcanonical, hthreshold⟩ := hreports
  exact h threshold canonical hcanonical hthreshold

theorem returns_getNonce {f : ℕ → ClientM β}
    (h : ∀ nonce, Returns history (f nonce) post (t ++ [(.getNonce number, .uint nonce)])) :
    Returns history (getNonce number >>= f) post t := by
  refine returns_query fun answer nonce _ hread ↦ ?_
  split at hread <;> cases hread
  exact h nonce

theorem returns_getAnchor {f : Option Anchor → ClientM β}
    (h : ∀ anchor, (∀ a ∈ anchor, a.number = number ∧ (history t.length).canonical side number = some a.hash ∧
        ∃ block, ledger.content side a.hash = some block ∧ a.timestamp = block.timestamp) →
      Returns history (f anchor) post (t ++ [(.getAnchor side number, .anchor anchor)])) :
    Returns history (getAnchor side number >>= f) post t := by
  refine returns_query fun answer anchor hreports hread ↦ ?_
  split at hread <;> cases hread
  refine h anchor fun a ha ↦ ?_
  cases ha
  exact hreports

theorem returns_contractRead {address : String} {method : Method} {f : Value → ClientM β}
    (h : ∀ value canonical, (history t.length).canonical side number = some canonical →
      value = ledger.view side canonical address method →
      Returns history (f value) post (t ++ [(.call side address method number, .value value)])) :
    Returns history (contractRead side address method number >>= f) post t := by
  refine returns_query fun answer value hreports hread ↦ ?_
  split at hread <;> cases hread
  obtain ⟨canonical, hcanonical, hvalue⟩ := hreports
  exact h value canonical hcanonical hvalue

theorem returns_getTransactionCount {address : String} {f : ℕ → ClientM β}
    (h : ∀ n canonical, (history t.length).canonical side number = some canonical →
      n = ledger.transactionCount side canonical address →
      Returns history (f n) post (t ++ [(.getTransactionCount side address number, .uint n)])) :
    Returns history (getTransactionCount side address number >>= f) post t := by
  refine returns_query fun answer n hreports hread ↦ ?_
  split at hread <;> cases hread
  obtain ⟨canonical, hcanonical, hn⟩ := hreports
  exact h n canonical hcanonical hn

theorem returns_traceTransaction {f : Option CallFrame → ClientM β}
    (h : ∀ trace, (∀ frame ∈ trace, ∃ receipt, ledger.Includes .l1 hash receipt ∧
        frame = ledger.trace receipt.blockHash hash) →
      Returns history (f trace) post (t ++ [(.traceTransaction hash, .trace trace)])) :
    Returns history (traceTransaction hash >>= f) post t := by
  refine returns_query fun answer trace hreports hread ↦ ?_
  split at hread <;> cases hread
  refine h trace fun frame hframe ↦ ?_
  cases hframe
  exact hreports

theorem returns_getInvoice {id : String} {f : Option InvoiceEvidence → ClientM β}
    (h : ∀ report, Returns history (f report) post (t ++ [(.getInvoice id, .report report)])) :
    Returns history (getInvoice id >>= f) post t := by
  refine returns_query fun answer report _ hread ↦ ?_
  split at hread <;> cases hread
  exact h report

end Asking

/-! ## Nodes with one world -/

section Node

variable {ledger : Ledger} (w : World ledger)

/-- The receipt of a transaction of the canonical chain. -/
def World.receipt (side : Side) (hash : String) : Option Receipt :=
  (w.blocks side (.range 0 none)).findSome? fun block ↦
    (ledger.content side block).bind fun content ↦ content.entries.lookup hash

/-- What is found after the canonical block of a number. -/
def World.after (side : Side) (number : ℕ) (read : String → Answer) : Except String Answer :=
  (w.canonical side number).elim (.error undefinedValue) fun hash ↦ .ok (read hash)

/-- The answers of nodes whose chains are one world, beside which the Composer and the fixture answer the same to
every question. -/
def World.answer (status : Option Status) (record : Option Record) (report : Option InvoiceEvidence) :
    Request → Except String Answer
  | .getLogs side filter => .ok (.logs (w.logs side filter))
  | .getTransactionReceipt side hash => .ok (.receipt (w.receipt side hash))
  | .getTransactionByHash side hash => .ok (.transaction (ledger.transaction side hash))
  | .getBlockByNumber side number => .ok (.block ((w.canonical side number).map (⟨number, ·⟩)))
  | .getSafeBlock => .ok (.block (w.safe.bind fun n ↦ (w.canonical .l2 n).map (⟨n, ·⟩)))
  | .getCrossChainTransaction _ _ => .ok (.status status)
  | .getSettlementByL2Block _ => .ok (.settlement record)
  | .getOwners number => w.after .l1 number fun hash ↦ .addresses (ledger.safeL1 hash).owners
  | .getThreshold number => w.after .l1 number fun hash ↦ .uint (ledger.safeL1 hash).threshold
  | .getNonce number => w.after .l1 number fun hash ↦ .uint (ledger.safeL1 hash).nonce
  | .getAnchor side number => .ok (.anchor ((w.canonical side number).bind fun hash ↦
      (ledger.content side hash).map fun block ↦ ⟨⟨number, hash⟩, block.timestamp⟩))
  | .call side address method number =>
    w.after side number fun hash ↦ .value (ledger.view side hash address method)
  | .getTransactionCount side address number =>
    w.after side number fun hash ↦ .uint (ledger.transactionCount side hash address)
  | .traceTransaction hash =>
    .ok (.trace ((w.receipt .l1 hash).map fun receipt ↦ ledger.trace receipt.blockHash hash))
  | .getInvoice _ => .ok (.report report)

variable {w}

theorem mem_of_lookup {α : Type} {entries : List (String × α)} {hash : String} {a : α}
    (h : entries.lookup hash = some a) : (hash, a) ∈ entries := by
  obtain ⟨before, after, rfl, -⟩ := List.lookup_eq_some_iff.1 h
  exact List.mem_append_right _ List.mem_cons_self

theorem World.receipt_includes {side : Side} {hash : String} {receipt : Receipt}
    (h : w.receipt side hash = some receipt) : ledger.Includes side hash receipt := by
  obtain ⟨block, -, h⟩ := List.exists_of_findSome?_eq_some h
  obtain ⟨content, hcontent, hlookup⟩ := Option.bind_eq_some_iff.1 h
  have hentry := mem_of_lookup hlookup
  exact ⟨content, (ledger.receipt_placed side block content hcontent _ hentry).1.symm ▸ hcontent, hentry⟩

theorem World.after_eq_ok {side : Side} {number : ℕ} {read : String → Answer} {a : Answer}
    (h : w.after side number read = .ok a) : ∃ hash, w.canonical side number = some hash ∧ a = read hash := by
  rw [World.after] at h
  cases hcanonical : w.canonical side number with
  | none => simp [hcanonical] at h
  | some hash =>
    rw [hcanonical] at h
    cases h
    exact ⟨hash, rfl, rfl⟩

/-- **Such nodes report what is so.** -/
theorem World.answer_reports {status : Option Status} {record : Option Record} {report : Option InvoiceEvidence}
    {q : Request} {a : Answer} (h : w.answer status record report q = .ok a) : w.Reports q a := by
  cases q with
  | getLogs side filter =>
    cases h
    rfl
  | getTransactionReceipt side hash =>
    cases h
    cases hreceipt : w.receipt side hash with
    | none => trivial
    | some receipt => exact World.receipt_includes hreceipt
  | getTransactionByHash side hash =>
    cases h
    cases htx : ledger.transaction side hash with
    | none => trivial
    | some tx => exact htx
  | getBlockByNumber side number =>
    cases h
    cases hcanonical : w.canonical side number with
    | none => trivial
    | some hash => exact ⟨rfl, hcanonical⟩
  | getSafeBlock =>
    cases h
    cases hsafe : w.safe.bind fun n ↦ (w.canonical .l2 n).map (Block.mk n) with
    | none => trivial
    | some block =>
      obtain ⟨n, hn, hblock⟩ := Option.bind_eq_some_iff.1 hsafe
      obtain ⟨hash, hhash, rfl⟩ := Option.map_eq_some_iff.1 hblock
      exact ⟨hn, hhash⟩
  | getCrossChainTransaction side hash =>
    cases h
    trivial
  | getSettlementByL2Block hash =>
    cases h
    trivial
  | getOwners number =>
    obtain ⟨hash, hcanonical, rfl⟩ := World.after_eq_ok h
    exact ⟨hash, hcanonical, rfl⟩
  | getThreshold number =>
    obtain ⟨hash, hcanonical, rfl⟩ := World.after_eq_ok h
    exact ⟨hash, hcanonical, rfl⟩
  | getNonce number =>
    obtain ⟨hash, hcanonical, rfl⟩ := World.after_eq_ok h
    exact ⟨hash, hcanonical, rfl⟩
  | getAnchor side number =>
    cases h
    cases hanchor : (w.canonical side number).bind fun hash ↦
        (ledger.content side hash).map fun block ↦ (⟨⟨number, hash⟩, block.timestamp⟩ : Anchor) with
    | none => trivial
    | some anchor =>
      obtain ⟨hash, hhash, hblock⟩ := Option.bind_eq_some_iff.1 hanchor
      obtain ⟨block, hcontent, rfl⟩ := Option.map_eq_some_iff.1 hblock
      exact ⟨rfl, hhash, block, hcontent, rfl⟩
  | call side address method number =>
    obtain ⟨hash, hcanonical, rfl⟩ := World.after_eq_ok h
    exact ⟨hash, hcanonical, rfl⟩
  | getTransactionCount side address number =>
    obtain ⟨hash, hcanonical, rfl⟩ := World.after_eq_ok h
    exact ⟨hash, hcanonical, rfl⟩
  | traceTransaction hash =>
    cases h
    cases hreceipt : w.receipt .l1 hash with
    | none => trivial
    | some receipt => exact ⟨receipt, World.receipt_includes hreceipt, rfl⟩
  | getInvoice id =>
    cases h
    trivial

end Node

end Settlement
