import Mathlib.Order.Monotone.Defs
import EezDashboard.Setup.Tracking

/-!
# The block that consumed a nonce

What `trackPending` returns.  Whoever answers, it asks at most 15 questions, and what it records was
confirmed: `Outcome`.  Where one chain answers, the search ends at the block in which the sender's
transaction count passed the pending nonce, the only block that is examined, and the outcome is what
that block says.  Where the chain is replaced in between, nothing is recorded.
-/

set_option autoImplicit false

namespace Tracking

open Js Setup Dialogue

variable {env : Environment} {keccak256 : String → Digest} {pending : DeploymentPending} {τ : Type}

/-- The blocks that were read whole. -/
def examined (t : Transcript Request (Option Json)) : List String :=
  t.filterMap fun entry ↦ match entry.1 with
    | .getBlockByNumber _ tag true => some tag
    | _ => none

/-- A hash that a block of the transcript shows: the sender's transaction with the pending nonce has it,
and does what was requested. -/
def Shown (env : Environment) (pending : DeploymentPending) (t : Transcript Request (Option Json))
    (hash : Digest) : Prop :=
  ∃ number block transactions tx,
    (Request.getBlockByNumber pending.chain (toHex number) true, block) ∈ t ∧
      transactionsOf number block = some transactions ∧
      transactions.find? (isConsumer env pending) = some tx ∧
      digest? (get (some tx) "hash") = some hash ∧ isRequested env pending tx = true

/-- How a call can return: with nothing changed, from the cache, or from a search whose head was still
there at the end. -/
inductive Outcome (env : Environment) (keccak256 : String → Digest) (lookup : Option Lookup)
    (state : State τ) (t : Transcript Request (Option Json)) : State τ × Option Lookup → Prop
  | unchanged : Outcome env keccak256 lookup state t (state, lookup)
  | cached {pending : DeploymentPending} {hash : Digest} {found : Lookup} {tag : String} {number : ℕ}
      {head : Option Json} (hpending : state.pending = some pending) (hlookup : lookup = some found)
      (hkey : found.key = lookupKey keccak256 pending hash)
      (hread : t[pending.hash.elim 0 fun _ ↦ 1]? =
        some (.getBlockByNumber pending.chain "latest" false, head))
      (hhead : headOf head = some (tag, number, hash))
      (hlength : t.length = (pending.hash.elim 0 fun _ ↦ 1) + 1) :
      Outcome env keccak256 lookup state t (record pending state found.hash, lookup)
  | searched {pending : DeploymentPending} {hash : Digest} {found : Option Digest} {tag : String}
      {number : ℕ} {head current : Option Json} (hpending : state.pending = some pending)
      (hread : t[pending.hash.elim 0 fun _ ↦ 1]? =
        some (.getBlockByNumber pending.chain "latest" false, head))
      (hhead : headOf head = some (tag, number, hash))
      (hshown : ∀ h ∈ found, Shown env pending t h)
      (hlast : t.getLast? = some (.getBlockByNumber pending.chain tag false, current))
      (hcurrent : get current "hash" = some (.str hash.val)) :
      Outcome env keccak256 lookup state t
        (record pending state found, some ⟨lookupKey keccak256 pending hash, found⟩)

/-! ## Whoever answers -/

section Any

variable {Possible : ℕ → Request → Except String (Option Json) → Prop}

/-- The transcript went on by so many questions at most. -/
structure Within (t : Transcript Request (Option Json)) (n : ℕ) (t' : Transcript Request (Option Json)) :
    Prop where
  earlier : t <+: t'
  length : t'.length ≤ t.length + n

theorem Within.refl {t : Transcript Request (Option Json)} {n : ℕ} : Within t n t :=
  ⟨List.prefix_rfl, Nat.le_add_right _ _⟩

theorem Within.trans {t t' t'' : Transcript Request (Option Json)} {m n : ℕ} (h : Within t m t')
    (h' : Within t' n t'') : Within t (m + n) t'' := by
  refine ⟨h.earlier.trans h'.earlier, ?_⟩
  have hm := h.length
  have hn := h'.length
  omega

theorem Within.mono {t t' : Transcript Request (Option Json)} {m n : ℕ} (h : Within t m t')
    (hle : m ≤ n) : Within t n t' :=
  ⟨h.earlier, h.length.trans (Nat.add_le_add_left hle _)⟩

theorem Within.one {t : Transcript Request (Option Json)} {entry : Request × Option Json} :
    Within t 1 (t ++ [entry]) :=
  ⟨List.prefix_append _ _, by simp⟩

theorem wp_nonceAt (number : ℕ) (t : Transcript Request (Option Json)) :
    (nonceAt pending number).wp Possible (fun _ t' ↦ Within t 1 t') t := by
  rw [nonceAt, wp_bind, wp_request]
  refine ⟨fun value _ ↦ ?_, fun e _ ↦ .refl⟩
  rw [andThen_ok]
  split <;> exact .one

/-- Halving an interval of at most `2 ^ n` blocks takes at most `n` questions. -/
theorem wp_search (n low high : ℕ) (hn : high - low ≤ 2 ^ n) (t : Transcript Request (Option Json)) :
    (search pending low high).wp Possible (fun _ t' ↦ Within t n t') t := by
  induction n generalizing low high t with
  | zero =>
    rw [search, dif_neg (by omega)]
    exact .refl
  | succ n ih =>
    rw [search]
    split
    next hwide =>
      rw [wp_bind]
      refine wp_mono (fun r t' ht' ↦ ?_) (wp_nonceAt _ t)
      cases r with
      | error e => exact ht'.mono (Nat.le_add_left _ _)
      | ok count =>
        rw [andThen_ok]
        have hhalf : 2 ^ (n + 1) = 2 * 2 ^ n := by rw [Nat.pow_succ, Nat.mul_comm]
        split
        · refine wp_mono (fun _ t'' ht'' ↦ ?_) (ih low ((high + low) / 2) (by omega) t')
          exact (ht'.trans ht'').mono (by omega)
        · refine wp_mono (fun _ t'' ht'' ↦ ?_) (ih ((high + low) / 2) high (by omega) t')
          exact (ht'.trans ht'').mono (by omega)
    next => exact .refl

theorem wp_examine (number : ℕ) (t : Transcript Request (Option Json)) :
    (examine env pending number).wp Possible
      (fun r t' ↦ Within t 1 t' ∧ ∀ found, r = .ok found → ∀ h ∈ found, Shown env pending t' h) t := by
  rw [examine, wp_bind, wp_request]
  refine ⟨fun block _ ↦ ?_, fun e _ ↦ ⟨.refl, nofun⟩⟩
  rw [andThen_ok]
  split
  next => exact ⟨.one, nofun⟩
  next transactions htransactions =>
    split
    next => exact ⟨.one, fun _ h ↦ by cases h; exact nofun⟩
    next tx hfind =>
      split
      next => exact ⟨.one, nofun⟩
      next hash hhash =>
        rw [wp_bind, wp_check]
        refine ⟨fun hrequested ↦ ⟨.one, fun _ h ↦ ?_⟩, fun _ ↦ ⟨.one, nofun⟩⟩
        cases h
        rintro h ⟨rfl⟩
        exact ⟨number, block, transactions, tx, by simp, htransactions, hfind, hhash, hrequested⟩

theorem Shown.mono {t t' : Transcript Request (Option Json)} {hash : Digest}
    (h : Shown env pending t hash) (ht : t <+: t') : Shown env pending t' hash := by
  obtain ⟨number, block, transactions, tx, hmem, hrest⟩ := h
  exact ⟨number, block, transactions, tx, ht.subset hmem, hrest⟩

theorem wp_discover (head : ℕ) (t : Transcript Request (Option Json)) :
    (discover env pending head).wp Possible
      (fun r t' ↦ Within t 12 t' ∧ ∀ found, r = .ok found → ∀ h ∈ found, Shown env pending t' h) t := by
  rw [discover, wp_bind]
  refine wp_mono (fun r t₁ h₁ ↦ ?_) (wp_nonceAt head t)
  cases r with
  | error e => exact ⟨h₁.mono (by decide), nofun⟩
  | ok highCount =>
    rw [andThen_ok]
    split
    next =>
      rw [wp_bind]
      refine wp_mono (fun r t₂ h₂ ↦ ?_) (wp_nonceAt _ t₁)
      cases r with
      | error e => exact ⟨(h₁.trans h₂).mono (by decide), nofun⟩
      | ok lowCount =>
        rw [andThen_ok]
        split
        next =>
          rw [wp_bind]
          have hwindow : head - (if head > RECOVERY_BLOCKS then head - RECOVERY_BLOCKS else 0) ≤ 2 ^ 9 := by
            rw [RECOVERY_BLOCKS]
            split <;> omega
          refine wp_mono (fun r t₃ h₃ ↦ ?_) (wp_search 9 _ head hwindow t₂)
          cases r with
          | error e => exact ⟨((h₁.trans h₂).trans h₃).mono (by decide), nofun⟩
          | ok high =>
            rw [andThen_ok]
            refine wp_mono (fun r t₄ h₄ ↦ ?_) (wp_examine high t₃)
            exact ⟨((h₁.trans h₂).trans h₃).trans h₄.1, h₄.2⟩
        next => exact ⟨(h₁.trans h₂).mono (by decide), fun _ h ↦ by cases h; exact nofun⟩
    next => exact ⟨h₁.mono (by decide), fun _ h ↦ by cases h; exact nofun⟩

/-- The receipt is asked for when there is a hash. -/
theorem wp_receipted {post : Except String Bool → Transcript Request (Option Json) → Prop}
    (hok : ∀ known t, t.length = (pending.hash.elim 0 fun _ ↦ 1) → post (.ok known) t)
    (herror : ∀ e t, t.length = 0 → post (.error e) t) : (receipted pending).wp Possible post [] := by
  unfold receipted
  split
  next hnone => exact hok false [] (by rw [hnone]; rfl)
  next hash hsome =>
    rw [wp_bind, wp_request]
    refine ⟨fun receipt _ ↦ hok _ _ (by rw [hsome]; rfl), fun e _ ↦ herror e [] rfl⟩

/-- **Whoever answers**: a call asks at most 15 questions, and what it returns is an `Outcome`. -/
theorem wp_trackPending (lookup : Option Lookup) (state : State τ) :
    (trackPending env keccak256 lookup state).wp Possible
      (fun r t ↦ t.length ≤ 15 ∧ ∀ result, r = .ok result → Outcome env keccak256 lookup state t result)
      [] := by
  unfold trackPending
  split
  next => exact ⟨Nat.zero_le _, fun _ h ↦ by cases h; exact .unchanged⟩
  next pending hpending =>
    have hindex : (pending.hash.elim 0 fun _ ↦ 1) ≤ 1 := by cases pending.hash <;> simp
    rw [wp_bind]
    refine wp_receipted (fun known t ht ↦ ?_) fun e t ht ↦ ⟨by omega, nofun⟩
    rw [andThen_ok]
    split
    next => exact ⟨by omega, fun _ h ↦ by cases h; exact .unchanged⟩
    next =>
      rw [wp_bind, wp_request]
      refine ⟨fun head _ ↦ ?_, fun e _ ↦ ⟨by omega, nofun⟩⟩
      rw [andThen_ok]
      have hlength : (t ++ [(Request.getBlockByNumber pending.chain "latest" false, head)]).length =
          t.length + 1 := by simp
      split
      next => exact ⟨by omega, nofun⟩
      next tag number hash hhead =>
        split
        next found hfound =>
          obtain ⟨hlookup, hkey⟩ := Option.filter_eq_some_iff.1 hfound
          refine ⟨by omega, fun _ h ↦ ?_⟩
          cases h
          exact .cached hpending hlookup (of_decide_eq_true hkey) (by rw [← ht]; simp) hhead (by omega)
        next =>
          rw [wp_bind]
          refine wp_mono (fun r t₁ h₁ ↦ ?_) (wp_discover number _)
          have hle := h₁.1.length
          cases r with
          | error e => exact ⟨by omega, nofun⟩
          | ok found =>
            rw [andThen_ok, wp_bind, wp_request]
            refine ⟨fun current _ ↦ ?_, fun e _ ↦ ⟨by omega, nofun⟩⟩
            rw [andThen_ok]
            have hlength' : (t₁ ++ [(Request.getBlockByNumber pending.chain tag false, current)]).length =
                t₁.length + 1 := by simp
            split
            next => exact ⟨by omega, fun _ h ↦ by cases h; exact .unchanged⟩
            next hcurrent =>
              refine ⟨by omega, fun _ h ↦ ?_⟩
              cases h
              refine .searched hpending ?_ hhead (fun h hh ↦ ?_) (by simp) (not_not.1 hcurrent)
              · obtain ⟨rest, hrest⟩ := h₁.1.earlier
                rw [← hrest, ← ht]
                simp
              · exact (h₁.2 found rfl h hh).mono (List.prefix_append _ _)

end Any

theorem run_trackPending (env : Environment) (keccak256 : String → Digest) (lookup : Option Lookup)
    (state : State τ) (answer : ℕ → Request → Except String (Option Json)) :
    ((trackPending env keccak256 lookup state).run answer []).2.length ≤ 15 ∧
      ∀ result, ((trackPending env keccak256 lookup state).run answer []).1 = .ok result →
        Outcome env keccak256 lookup state ((trackPending env keccak256 lookup state).run answer []).2
          result :=
  @run_wp _ _ _ _ (fun _ _ _ ↦ True) answer (fun _ _ ↦ trivial) _ _ [] (wp_trackPending lookup state)

/-! ## Where one chain answers -/

/-- An address as a node writes it. -/
def isNodeAddress (s : String) : Bool :=
  ['0', 'x'].isPrefixOf s.toList && hexOfLength 40 s && lowerCase s = s

structure Transaction where
  hash : Digest
  sender : String
  target : Option String
  input : String
  nonce : ℕ
  value : ℕ
  sender_address : isNodeAddress sender = true
  target_address : ∀ a ∈ target, isNodeAddress a = true

structure Block where
  hash : Digest
  transactions : List Transaction

/-- The canonical chain of a network: its blocks, the transaction count of each account after each block,
and the transactions the node has receipts of. -/
structure Canonical where
  blocks : List Block
  genesis : blocks ≠ []
  count : String → ℕ → ℕ
  monotone : ∀ sender, Monotone (count sender)
  receipts : String → Bool

def Transaction.toJson (tx : Transaction) : Json :=
  .obj [("hash", .str tx.hash.val), ("from", .str tx.sender), ("to", tx.target.elim .null .str),
    ("input", .str tx.input), ("nonce", .str (toHex tx.nonce)), ("value", .str (toHex tx.value))]

def Block.toJson (number : ℕ) (full : Bool) (block : Block) : Json :=
  .obj [("number", .str (toHex number)), ("hash", .str block.hash.val), ("transactions",
    .arr (if full = true then block.transactions.map Transaction.toJson
      else block.transactions.map fun tx ↦ .str tx.hash.val))]

namespace Canonical

variable (chain : Canonical)

def head : ℕ := chain.blocks.length - 1

/-- The block that a tag names. -/
def numberOf (tag : String) : Option ℕ := if tag = "latest" then some chain.head else numberOf? tag

def answer : Request → Except String (Option Json)
  | .getTransactionReceipt _ hash => .ok (some (if chain.receipts hash = true then .obj [] else .null))
  | .getBlockByNumber _ tag full => .ok (some (((chain.numberOf tag).bind fun n ↦
      chain.blocks[n]?.map (Block.toJson n full)).getD .null))
  | .getTransactionCount _ address tag =>
    match chain.numberOf tag with
    | some n => if n ≤ chain.head then .ok (some (.str (toHex (chain.count address n))))
      else .error "header not found"
    | none => .error "header not found"

end Canonical

/-- Whether a transaction is the sender's, with the pending nonce. -/
def Transaction.consumes (pending : DeploymentPending) (tx : Transaction) : Bool :=
  lowerCase tx.sender = lowerCase pending.sender && tx.nonce = pending.number

/-- Whether a transaction has exactly the pending target and data, and no value. -/
def Transaction.fulfils (pending : DeploymentPending) (tx : Transaction) : Bool :=
  tx.target.map lowerCase = pending.target.map lowerCase && lowerCase tx.input = lowerCase pending.data &&
    tx.value = 0

section Answers

@[simp] theorem numberOf?_toHex (n : ℕ) : numberOf? (toHex n) = some n := by
  have hne : hexDigits n ≠ [] := by
    rw [hexDigits]
    split
    next => simp
    next h =>
      intro hnil
      rw [List.reverse_eq_nil_iff, List.map_eq_nil_iff, Nat.digits_eq_nil_iff_eq_zero] at hnil
      exact h hnil
  rw [numberOf?, hexDigits?_toHex]
  simp [hne, hexValue_hexDigits]

@[simp] theorem quantity?_toHex (n : ℕ) : quantity? (some (.str (toHex n))) = some n := numberOf?_toHex n

@[simp] theorem digest?_val (hash : Digest) : digest? (some (.str hash.val)) = some hash := by
  rw [digest?, string?, Option.bind_some, dif_pos hash.property]

theorem isAddress_of_isNodeAddress {s : String} (h : isNodeAddress s = true) :
    env.isAddress (some (.str s)) = true := by
  rw [isNodeAddress, Bool.and_eq_true, Bool.and_eq_true] at h
  obtain ⟨⟨hstart, hhex⟩, hlower⟩ := h
  simp only [Environment.isAddress, string?, Option.any_some, Bool.and_eq_true, Bool.or_eq_true]
  exact ⟨⟨hstart, hhex⟩, .inl hlower⟩

theorem toHex_ne_latest (n : ℕ) : toHex n ≠ "latest" := by
  intro h
  have hlist := congrArg String.toList h
  rw [toHex, String.toList_ofList] at hlist
  cases hlist

namespace Transaction

variable (tx : Transaction)

@[simp] theorem get_hash : get (some tx.toJson) "hash" = some (.str tx.hash.val) := rfl
@[simp] theorem get_from : get (some tx.toJson) "from" = some (.str tx.sender) := rfl
@[simp] theorem get_to : get (some tx.toJson) "to" = some (tx.target.elim .null .str) := rfl
@[simp] theorem get_input : get (some tx.toJson) "input" = some (.str tx.input) := rfl
@[simp] theorem get_nonce : get (some tx.toJson) "nonce" = some (.str (toHex tx.nonce)) := rfl
@[simp] theorem get_value : get (some tx.toJson) "value" = some (.str (toHex tx.value)) := rfl

theorem isConsumer_toJson : isConsumer env pending tx.toJson = tx.consumes pending := by
  simp [isConsumer, consumes, isAddress_of_isNodeAddress tx.sender_address, Setup.same]

theorem isTarget_toJson : isTarget env pending tx.toJson =
    decide (tx.target.map lowerCase = pending.target.map lowerCase) := by
  unfold isTarget
  rw [get_to]
  cases htx : tx.target with
  | none => cases pending.target <;> simp [Setup.same]
  | some target =>
    have haddress : env.isAddress (some (.str target)) = true :=
      isAddress_of_isNodeAddress (tx.target_address target htx)
    cases pending.target <;> simp [Setup.same, haddress]

theorem isRequested_toJson : isRequested env pending tx.toJson = tx.fulfils pending := by
  simp [isRequested, fulfils, isTarget_toJson, Setup.same]

end Transaction

end Answers

/-! ## The search on one chain -/

/-- The nonce was consumed in this block, one of the last 512. -/
structure Consumed (chain : Canonical) (pending : DeploymentPending) (number : ℕ) : Prop where
  pos : 0 < number
  le_head : number ≤ chain.head
  recent : chain.head < number + RECOVERY_BLOCKS
  before : chain.count pending.sender (number - 1) ≤ pending.number
  after : pending.number < chain.count pending.sender number

/-- What the block that consumed the nonce says of the request. -/
def verdict (chain : Canonical) (pending : DeploymentPending) (number : ℕ) :
    Except String (Option Digest) :=
  match ((chain.blocks[number]?.map Block.transactions).getD []).find? (Transaction.consumes pending) with
  | none => .ok none
  | some tx => if tx.fulfils pending = true then .ok (some tx.hash) else .error differentTransaction

section Chain

variable {chain : Canonical}

/-- A node that always answers from one chain. -/
def Sees (chain : Canonical) (_ : ℕ) (q : Request) (r : Except String (Option Json)) : Prop :=
  r = chain.answer q

@[simp] theorem examined_append (t : Transcript Request (Option Json)) (q : Request)
    (a : Option Json) : examined (t ++ [(q, a)]) = examined t ++ examined [(q, a)] := by
  simp [examined]

theorem Consumed.unique {m n : ℕ} (hm : Consumed chain pending m) (hn : Consumed chain pending n) :
    m = n := by
  by_contra hne
  rcases Nat.lt_or_gt_of_ne hne with hlt | hlt
  · have hle := chain.monotone pending.sender (show m ≤ n - 1 by omega)
    have hm := hm.after
    have hn := hn.before
    omega
  · have hle := chain.monotone pending.sender (show n ≤ m - 1 by omega)
    have hn := hn.after
    have hm := hm.before
    omega

theorem answer_count {number : ℕ} (h : number ≤ chain.head) (side : Chain) (sender : String) :
    chain.answer (.getTransactionCount side sender (toHex number)) =
      .ok (some (.str (toHex (chain.count sender number)))) := by
  simp [Canonical.answer, Canonical.numberOf, toHex_ne_latest, h]

theorem answer_block {number : ℕ} {block : Block} (h : chain.blocks[number]? = some block) (side : Chain)
    (full : Bool) : chain.answer (.getBlockByNumber side (toHex number) full) =
      .ok (some (block.toJson number full)) := by
  simp [Canonical.answer, Canonical.numberOf, toHex_ne_latest, h]

theorem answer_latest {block : Block} (h : chain.blocks[chain.head]? = some block) (side : Chain) :
    chain.answer (.getBlockByNumber side "latest" false) =
      .ok (some (block.toJson chain.head false)) := by
  simp [Canonical.answer, Canonical.numberOf, h]

/-- The head block. -/
theorem exists_head (chain : Canonical) : ∃ block, chain.blocks[chain.head]? = some block := by
  have hpos := List.length_pos_iff.2 chain.genesis
  exact ⟨_, List.getElem?_eq_getElem (show chain.head < chain.blocks.length by rw [Canonical.head]; omega)⟩

/-- A question the chain answers. -/
theorem wp_request_chain {q : Request} {a : Option Json} (h : chain.answer q = .ok a)
    {post : Except String (Option Json) → Transcript Request (Option Json) → Prop}
    {t : Transcript Request (Option Json)} (hpost : post (.ok a) (t ++ [(q, a)])) :
    (request q).wp (Sees chain) post t := by
  refine (wp_request q post t).2 ⟨fun a' ha' ↦ ?_, fun e he ↦ ?_⟩
  · rw [Sees, h, Except.ok.injEq] at ha'
    rwa [ha']
  · rw [Sees, h] at he
    cases he

theorem wp_nonceAt_chain {number : ℕ} (hle : number ≤ chain.head)
    {post : Except String ℕ → Transcript Request (Option Json) → Prop}
    {t : Transcript Request (Option Json)}
    (h : ∀ t', examined t' = examined t → post (.ok (chain.count pending.sender number)) t') :
    (nonceAt pending number).wp (Sees chain) post t := by
  rw [nonceAt, wp_bind]
  refine wp_request_chain (answer_count hle _ _) ?_
  rw [andThen_ok, quantity?_toHex]
  exact h _ (by simp [examined])

/-- **The search ends at the block in which the count passes the nonce.** -/
theorem wp_search_chain {low high : ℕ} (hlt : low < high) (hhigh : high ≤ chain.head)
    (hbefore : chain.count pending.sender low ≤ pending.number)
    (hafter : pending.number < chain.count pending.sender high)
    {post : Except String ℕ → Transcript Request (Option Json) → Prop}
    {t : Transcript Request (Option Json)}
    (h : ∀ number t', low < number → number ≤ high →
      chain.count pending.sender (number - 1) ≤ pending.number →
      pending.number < chain.count pending.sender number → examined t' = examined t →
      post (.ok number) t') :
    (search pending low high).wp (Sees chain) post t := by
  induction hwidth : high - low using Nat.strong_induction_on generalizing low high t with
  | _ width ih =>
    subst hwidth
    rw [search]
    split
    next hwide =>
      rw [wp_bind]
      refine wp_nonceAt_chain (by omega) fun t' ht' ↦ ?_
      rw [andThen_ok]
      split
      next hmiddle =>
        refine ih _ (by omega) (by omega) (by omega) hbefore hmiddle (fun number t'' hl hh hb ha ht'' ↦ ?_) rfl
        exact h number t'' hl (by omega) hb ha (ht''.trans ht')
      next hmiddle =>
        refine ih _ (by omega) (by omega) hhigh (Nat.not_lt.1 hmiddle) hafter
          (fun number t'' hl hh hb ha ht'' ↦ ?_) rfl
        exact h number t'' (by omega) hh hb ha (ht''.trans ht')
    next hnarrow =>
      obtain rfl : low = high - 1 := by omega
      exact h high t hlt (Nat.le_refl _) hbefore hafter rfl

/-- The examined block is read whole, and says what it says. -/
theorem wp_examine_chain {number : ℕ} (hle : number ≤ chain.head)
    {post : Except String (Option Digest) → Transcript Request (Option Json) → Prop}
    {t : Transcript Request (Option Json)}
    (h : ∀ t', examined t' = examined t ++ [toHex number] → post (verdict chain pending number) t') :
    (examine env pending number).wp (Sees chain) post t := by
  have hpos := List.length_pos_iff.2 chain.genesis
  obtain ⟨block, hblock⟩ : ∃ block, chain.blocks[number]? = some block :=
    ⟨_, List.getElem?_eq_getElem (show number < chain.blocks.length by rw [Canonical.head] at hle; omega)⟩
  have htransactions : transactionsOf number (some (block.toJson number true)) =
      some (block.transactions.map Transaction.toJson) := by
    rw [transactionsOf, if_pos]
    · rfl
    · exact ⟨quantity?_toHex number, by
        have hdigest : get (some (block.toJson number true)) "hash" = some (.str block.hash.val) := rfl
        rw [hdigest, digest?_val]
        rfl⟩
  have hfind : (block.transactions.map Transaction.toJson).find? (isConsumer env pending) =
      (block.transactions.find? (Transaction.consumes pending)).map Transaction.toJson := by
    rw [List.find?_map]
    congr 2
    funext tx
    exact tx.isConsumer_toJson
  rw [examine, wp_bind]
  refine wp_request_chain (answer_block hblock _ _) ?_
  have hend := h (t ++ [(.getBlockByNumber pending.chain (toHex number) true,
    some (block.toJson number true))]) (by simp [examined])
  rw [verdict, hblock] at hend
  rw [andThen_ok, htransactions]
  dsimp only [Option.map_some, Option.getD_some] at hend ⊢
  rw [hfind]
  cases hconsumer : block.transactions.find? (Transaction.consumes pending) with
  | none =>
    rw [hconsumer] at hend
    exact hend
  | some tx =>
    rw [hconsumer] at hend
    dsimp only [Option.map_some] at hend ⊢
    rw [Transaction.get_hash, digest?_val]
    dsimp only
    rw [wp_bind, wp_check, Transaction.isRequested_toJson]
    constructor
    · intro hfulfils
      rwa [if_pos hfulfils] at hend
    · intro hfulfils
      rwa [if_neg hfulfils] at hend

/-- **Exactly the consuming block is examined**, if it is one of the last 512. -/
theorem wp_discover_chain {post : Except String (Option Digest) → Transcript Request (Option Json) → Prop}
    {t : Transcript Request (Option Json)}
    (hconsumed : ∀ number t', Consumed chain pending number →
      examined t' = examined t ++ [toHex number] → post (verdict chain pending number) t')
    (habsent : ∀ t', (∀ number, ¬Consumed chain pending number) → examined t' = examined t →
      post (.ok none) t') :
    (discover env pending chain.head).wp (Sees chain) post t := by
  have hlow : (if chain.head > RECOVERY_BLOCKS then chain.head - RECOVERY_BLOCKS else 0) =
      chain.head - RECOVERY_BLOCKS := by split <;> omega
  rw [discover, hlow, wp_bind]
  refine wp_nonceAt_chain (Nat.le_refl _) fun t₁ h₁ ↦ ?_
  rw [andThen_ok]
  split
  next hhigh =>
    rw [wp_bind]
    refine wp_nonceAt_chain (Nat.sub_le _ _) fun t₂ h₂ ↦ ?_
    rw [andThen_ok]
    split
    next hbefore =>
      have hlt : chain.head - RECOVERY_BLOCKS < chain.head := by
        refine Nat.lt_of_le_of_ne (Nat.sub_le _ _) fun heq ↦ ?_
        rw [heq] at hbefore
        omega
      rw [wp_bind]
      refine wp_search_chain hlt (Nat.le_refl _) hbefore hhigh fun number t₃ hl hle hb ha h₃ ↦ ?_
      rw [andThen_ok]
      refine wp_examine_chain hle fun t₄ h₄ ↦ hconsumed number t₄ ⟨by omega, hle, by omega, hb, ha⟩ ?_
      rw [h₄, h₃, h₂, h₁]
    next hearlier =>
      refine habsent t₂ (fun number hnumber ↦ hearlier ?_) (h₂.trans h₁)
      have hrecent := hnumber.recent
      exact (chain.monotone _ (by omega)).trans hnumber.before
  next hlater =>
    refine habsent t₁ (fun number hnumber ↦ hlater ?_) h₁
    exact Nat.lt_of_lt_of_le hnumber.after (chain.monotone _ hnumber.le_head)

/-- What a call returns when the chain answers, no receipt is known and nothing is cached for this
request and head; and which blocks it examines. -/
structure Pinpointed (keccak256 : String → Digest) (chain : Canonical) (pending : DeploymentPending)
    (state : State τ) (head : Digest) (r : Except String (State τ × Option Lookup))
    (t : Transcript Request (Option Json)) : Prop where
  consumed : ∀ number, Consumed chain pending number → examined t = [toHex number] ∧
    r = (verdict chain pending number).map fun found ↦
      (record pending state found, some ⟨lookupKey keccak256 pending head, found⟩)
  absent : (∀ number, ¬Consumed chain pending number) → examined t = [] ∧
    r = .ok (state, some ⟨lookupKey keccak256 pending head, none⟩)

/-- A call on a chain without a receipt gets to the head. -/
theorem wp_receipted_chain {post : Except String Bool → Transcript Request (Option Json) → Prop}
    (hreceipt : ∀ hash ∈ pending.hash, chain.receipts hash.val = false)
    (h : ∀ t, examined t = [] → post (.ok false) t) : (receipted pending).wp (Sees chain) post [] := by
  unfold receipted
  split
  next => exact h [] rfl
  next hash hsome =>
    rw [wp_bind]
    have hanswer : chain.answer (.getTransactionReceipt pending.chain hash.val) = .ok (some .null) := by
      simp [Canonical.answer, hreceipt hash hsome]
    exact wp_request_chain hanswer (h _ rfl)

theorem headOf_toJson (block : Block) (number : ℕ) :
    headOf (some (block.toJson number false)) = some (toHex number, number, block.hash) := by
  have hnumber : get (some (block.toJson number false)) "number" = some (.str (toHex number)) := rfl
  have hhash : get (some (block.toJson number false)) "hash" = some (.str block.hash.val) := rfl
  simp [headOf, hnumber, hhash, string?]

/-- What a call does when the chain answers and no receipt is known. -/
def OnChain (keccak256 : String → Digest) (chain : Canonical) (pending : DeploymentPending)
    (lookup : Option Lookup) (state : State τ) (head : Digest) (r : Except String (State τ × Option Lookup))
    (t : Transcript Request (Option Json)) : Prop :=
  (∀ found ∈ lookup, found.key = lookupKey keccak256 pending head →
    examined t = [] ∧ r = .ok (record pending state found.hash, lookup)) ∧
  ((∀ found ∈ lookup, found.key ≠ lookupKey keccak256 pending head) →
    Pinpointed keccak256 chain pending state head r t)

theorem wp_trackPending_chain {lookup : Option Lookup} {state : State τ} {block : Block}
    (hpending : state.pending = some pending)
    (hreceipt : ∀ hash ∈ pending.hash, chain.receipts hash.val = false)
    (hhead : chain.blocks[chain.head]? = some block) :
    (trackPending env keccak256 lookup state).wp (Sees chain)
      (OnChain keccak256 chain pending lookup state block.hash) [] := by
  unfold trackPending
  rw [hpending]
  dsimp only
  rw [wp_bind]
  refine wp_receipted_chain hreceipt fun t ht ↦ ?_
  rw [andThen_ok, if_neg (by decide), wp_bind]
  refine wp_request_chain (answer_latest hhead _) ?_
  rw [andThen_ok, headOf_toJson]
  dsimp only
  have hexamined : examined (t ++ [(Request.getBlockByNumber pending.chain "latest" false,
      some (block.toJson chain.head false))]) = [] := by
    rw [examined_append, ht]
    rfl
  split
  next found hfound =>
    obtain ⟨hlookup, hkey⟩ := Option.filter_eq_some_iff.1 hfound
    rw [pure_eq, wp_ret]
    refine ⟨fun found' hfound' _ ↦ ?_, fun h ↦ absurd (of_decide_eq_true hkey) (h found hlookup)⟩
    rw [hlookup, Option.mem_some_iff] at hfound'
    subst hfound'
    exact ⟨hexamined, rfl⟩
  next hmiss =>
    have hmiss' : ∀ found ∈ lookup, found.key ≠ lookupKey keccak256 pending block.hash := by
      intro found hfound hkey
      rw [hfound] at hmiss
      simp [hkey] at hmiss
    rw [wp_bind]
    have hrecheck : ∀ (found : Option Digest) (t₁ : Transcript Request (Option Json)),
        wp (Sees chain) (do
          let current ← request (.getBlockByNumber pending.chain (toHex chain.head) false)
          if get current "hash" ≠ some (.str block.hash.val) then pure (state, lookup)
          else pure (record pending state found, some ⟨lookupKey keccak256 pending block.hash, found⟩))
        (fun r t ↦ r = .ok (record pending state found,
          some ⟨lookupKey keccak256 pending block.hash, found⟩) ∧ examined t = examined t₁) t₁ := by
      intro found t₁
      rw [wp_bind]
      refine wp_request_chain (answer_block hhead _ _) ?_
      have hsame : get (some (block.toJson chain.head false)) "hash" = some (.str block.hash.val) := rfl
      rw [andThen_ok, if_neg (by simp [hsame])]
      exact ⟨rfl, by simp [examined]⟩
    refine wp_discover_chain (fun number t₁ hnumber h₁ ↦ ?_) fun t₁ hnone h₁ ↦ ?_
    · have hresult : ∀ r t₂, r = (verdict chain pending number).map (fun found ↦ (record pending state found,
          some (Lookup.mk (lookupKey keccak256 pending block.hash) found))) → examined t₂ = examined t₁ →
          Pinpointed keccak256 chain pending state block.hash r t₂ := by
        intro r t₂ hr ht₂
        refine ⟨fun number' hnumber' ↦ ?_, fun hnone ↦ absurd hnumber (hnone number)⟩
        obtain rfl := hnumber'.unique hnumber
        rw [ht₂, h₁, hexamined]
        exact ⟨rfl, hr⟩
      cases hverdict : verdict chain pending number with
      | error e =>
        rw [andThen_error]
        refine ⟨fun found hfound hkey ↦ absurd hkey (hmiss' found hfound), fun _ ↦ ?_⟩
        exact hresult _ _ (by rw [hverdict]; rfl) rfl
      | ok found =>
        rw [andThen_ok]
        refine wp_mono (fun r t₂ h₂ ↦ ?_) (hrecheck found t₁)
        refine ⟨fun found hfound hkey ↦ absurd hkey (hmiss' found hfound), fun _ ↦ ?_⟩
        exact hresult _ _ (by rw [h₂.1, hverdict]; rfl) h₂.2
    · refine wp_mono (fun r t₂ h₂ ↦ ?_) (hrecheck none t₁)
      refine ⟨fun found hfound hkey ↦ absurd hkey (hmiss' found hfound), fun _ ↦ ⟨fun number hnumber ↦
        absurd hnumber (hnone number), fun _ ↦ ?_⟩⟩
      exact ⟨h₂.2.trans (h₁.trans hexamined), h₂.1⟩

theorem run_trackPending_chain {lookup : Option Lookup} {state : State τ} {block : Block}
    (hpending : state.pending = some pending)
    (hreceipt : ∀ hash ∈ pending.hash, chain.receipts hash.val = false)
    (hhead : chain.blocks[chain.head]? = some block) :
    OnChain keccak256 chain pending lookup state block.hash
      ((trackPending env keccak256 lookup state).run (fun _ ↦ chain.answer) []).1
      ((trackPending env keccak256 lookup state).run (fun _ ↦ chain.answer) []).2 :=
  @run_wp _ _ _ _ (Sees chain) (fun _ ↦ chain.answer) (fun _ _ ↦ rfl) _ _ []
    (wp_trackPending_chain hpending hreceipt hhead)

end Chain

/-! ## Where the chain is replaced -/

/-- A node whose chain is replaced before its question number `time`. -/
def replacedAt (time : ℕ) (before after : Canonical) (n : ℕ) (q : Request) :
    Except String (Option Json) :=
  if n < time then before.answer q else after.answer q

/-- The head of the one chain is not on the other. -/
def Replaced (before after : Canonical) : Prop :=
  ∀ block ∈ before.blocks[before.head]?, ∀ block' ∈ after.blocks[before.head]?, block'.hash ≠ block.hash

/-- **A replaced head is not recorded.**  When the chain is replaced after the head was read and before
the last question, nothing changes: the state comes back as it was, or the call fails. -/
theorem trackPending_replaced {before after : Canonical} (hreplaced : Replaced before after)
    {lookup : Option Lookup} {state : State τ} (hpending : state.pending = some pending) {time : ℕ}
    (htime : (pending.hash.elim 0 fun _ ↦ 1) < time)
    (hlate : time < ((trackPending env keccak256 lookup state).run (replacedAt time before after) []).2.length) :
    ((trackPending env keccak256 lookup state).run (replacedAt time before after) []).1 =
        .ok (state, lookup) ∨
      ∃ e, ((trackPending env keccak256 lookup state).run (replacedAt time before after) []).1 =
        .error e := by
  obtain ⟨-, houtcome⟩ := run_trackPending env keccak256 lookup state (replacedAt time before after)
  obtain ⟨-, htranscript⟩ := run_transcript (replacedAt time before after)
    (trackPending env keccak256 lookup state) []
  generalize (trackPending env keccak256 lookup state).run (replacedAt time before after) [] = result
    at hlate houtcome htranscript ⊢
  obtain ⟨r, t⟩ := result
  cases r with
  | error e => exact .inr ⟨e, rfl⟩
  | ok final =>
    cases houtcome final rfl with
    | unchanged => exact .inl rfl
    | cached hpending' _ _ _ _ hlength =>
      cases hpending.symm.trans hpending'
      dsimp only at hlate hlength
      omega
    | @searched _ hash found tag number head current hpending' hread hhead _ hlast hcurrent =>
      cases hpending.symm.trans hpending'
      obtain ⟨block, hblock⟩ := exists_head before
      -- the head is the one of the chain before, and so is the block that is asked for last
      have hlatest := htranscript _ _ _ (Nat.zero_le _) hread
      rw [replacedAt, if_pos htime, answer_latest hblock, Except.ok.injEq] at hlatest
      rw [← hlatest, headOf_toJson, Option.some_inj] at hhead
      cases hhead
      have hindex : t[t.length - 1]? = some (.getBlockByNumber pending.chain (toHex before.head) false,
          current) := by rw [← List.getLast?_eq_getElem?, hlast]
      have hrecheck := htranscript _ _ _ (Nat.zero_le _) hindex
      dsimp only at hlate
      rw [replacedAt, if_neg (by omega)] at hrecheck
      cases hafter : after.blocks[before.head]? with
      | none =>
        have hnull : after.answer (.getBlockByNumber pending.chain (toHex before.head) false) =
            .ok (some .null) := by
          simp [Canonical.answer, Canonical.numberOf, toHex_ne_latest, hafter]
        rw [hnull, Except.ok.injEq] at hrecheck
        rw [← hrecheck] at hcurrent
        cases hcurrent
      | some block' =>
        rw [answer_block hafter, Except.ok.injEq] at hrecheck
        rw [← hrecheck] at hcurrent
        have hhash : block'.hash.val = block.hash.val := by
          have hget : get (some (block'.toJson before.head false)) "hash" = some (.str block'.hash.val) := rfl
          rw [hget] at hcurrent
          simpa using hcurrent
        exact absurd (Subtype.ext hhash) (hreplaced block hblock block' hafter)

/-! ## The cache -/

section Join

theorem split_unique {x y r s : List Char} (hx : ':' ∉ x) (hy : ':' ∉ y)
    (h : x ++ ':' :: r = y ++ ':' :: s) : x = y ∧ r = s := by
  induction x generalizing y with
  | nil =>
    cases y with
    | nil => exact ⟨rfl, by simpa using h⟩
    | cons c y =>
      rw [List.nil_append, List.cons_append, List.cons.injEq] at h
      exact absurd (h.1 ▸ List.mem_cons_self) hy
  | cons c x ih =>
    cases y with
    | nil =>
      rw [List.nil_append, List.cons_append, List.cons.injEq] at h
      exact absurd (h.1 ▸ List.mem_cons_self) hx
    | cons d y =>
      rw [List.mem_cons, not_or] at hx hy
      rw [List.cons_append, List.cons_append, List.cons.injEq] at h
      obtain ⟨hrest, hr⟩ := ih hx.2 hy.2 h.2
      exact ⟨by rw [h.1, hrest], hr⟩

theorem toList_join (p q : String) (parts : List String) :
    (join (p :: q :: parts)).toList = p.toList ++ ':' :: (join (q :: parts)).toList := by
  rw [join, String.toList_append, String.toList_append, List.append_assoc]
  · rfl
  · simp

/-- Parts without a colon can be read off the text they are joined to. -/
theorem join_injective {ps qs : List String} (h : join ps = join qs) (hlength : ps.length = qs.length)
    (hp : ∀ p ∈ ps, ':' ∉ p.toList) (hq : ∀ q ∈ qs, ':' ∉ q.toList) : ps = qs := by
  induction ps generalizing qs with
  | nil => exact (List.length_eq_zero_iff.1 hlength.symm).symm
  | cons p ps ih =>
    obtain ⟨q, qs, rfl⟩ := List.exists_cons_of_length_eq_add_one hlength.symm
    rw [List.forall_mem_cons] at hp hq
    rw [List.length_cons, List.length_cons, Nat.add_right_cancel_iff] at hlength
    cases ps with
    | nil =>
      obtain rfl := List.length_eq_zero_iff.1 hlength.symm
      rw [show p = q from h]
    | cons p' ps =>
      obtain ⟨q', qs, rfl⟩ := List.exists_cons_of_length_eq_add_one hlength.symm
      have hlist := congrArg String.toList h
      rw [toList_join, toList_join] at hlist
      obtain ⟨hfirst, hrest⟩ := split_unique hp.1 hq.1 hlist
      rw [String.toList_inj.1 hfirst, ih (String.toList_inj.1 hrest) hlength hp.2 hq.2]

theorem colon_notMem_of_hexDigits? {s : String} {ds : List Char} (h : hexDigits? s = some ds) :
    ':' ∉ s.toList := by
  have hall : ∀ (x : Char) (es : List Char), (if es.all isHexDigit = true then some es else none) = some ds →
      x ≠ ':' → ':' ∉ '0' :: x :: es := by
    intro x es hes hx
    split at hes
    next hdigits =>
      rw [List.mem_cons, List.mem_cons, not_or, not_or]
      refine ⟨by decide, hx.symm, fun hmem ↦ ?_⟩
      exact absurd (List.all_eq_true.1 hdigits _ hmem) (by decide)
    next => cases hes
  unfold hexDigits? at h
  split at h
  next es hs =>
    rw [hs]
    exact hall _ es h (by decide)
  next es hs =>
    rw [hs]
    exact hall _ es h (by decide)
  next => cases h

theorem colon_notMem_of_hexOfLength {s : String} {n : ℕ} (h : hexOfLength n s = true) :
    ':' ∉ s.toList := by
  cases hds : hexDigits? s with
  | none =>
    rw [hexOfLength, hds] at h
    cases h
  | some ds => exact colon_notMem_of_hexDigits? hds

theorem colon_notMem_lowerCase {s : String} (h : ':' ∉ s.toList) : ':' ∉ (lowerCase s).toList := by
  rw [lowerCase, String.toList_ofList]
  intro hmem
  obtain ⟨c, hc, hcolon⟩ := List.mem_map.1 hmem
  have hsame : c = ':' := by
    unfold Char.toLower at hcolon
    split at hcolon
    next hupper =>
      -- the lower case of a letter is a letter
      have hval : c.val + 32 = 58 := congrArg Char.val hcolon
      have hlow : (65 : UInt32) ≤ c.val := hupper.1
      have hhigh : c.val ≤ (90 : UInt32) := hupper.2
      rw [UInt32.le_iff_toNat_le] at hlow hhigh
      have hnat := congrArg UInt32.toNat hval
      rw [UInt32.toNat_add] at hnat
      simp only [UInt32.reduceToNat] at hlow hhigh hnat
      omega
    next => exact hcolon
  exact h (hsame ▸ hc)

/-- Two requests for the same thing; their data has one hash. -/
structure SameRequest (keccak256 : String → Digest) (p q : DeploymentPending) : Prop where
  chain : p.chain = q.chain
  sender : lowerCase p.sender = lowerCase q.sender
  nonce : p.nonce = q.nonce
  target : p.target.map lowerCase = q.target.map lowerCase
  data : keccak256 p.data = keccak256 q.data

theorem lowerCase_ne_empty {s : String} {n : ℕ} (h : hexOfLength n s = true) : lowerCase s ≠ "" := by
  intro hempty
  have hlist := congrArg String.toList hempty
  rw [lowerCase, String.toList_ofList, String.toList_empty, List.map_eq_nil_iff] at hlist
  rw [hexOfLength, hexDigits?, hlist] at h
  cases h

/-- **The key of a lookup tells the request and the head.** -/
theorem lookupKey_injective {p q : DeploymentPending} {head head' : Digest}
    (h : lookupKey keccak256 p head = lookupKey keccak256 q head') :
    SameRequest keccak256 p q ∧ head = head' := by
  have hparts : ∀ (p : DeploymentPending) (head : Digest), ∀ part ∈ [p.chain.toText, lowerCase p.sender,
      p.nonce, (p.target.map lowerCase).getD "", (keccak256 p.data).val, head.val],
      ':' ∉ part.toList := by
    intro p head part hpart
    simp only [List.mem_cons, List.not_mem_nil, or_false] at hpart
    rcases hpart with rfl | rfl | rfl | rfl | rfl | rfl
    · cases p.chain <;> decide +kernel
    · exact colon_notMem_lowerCase (colon_notMem_of_hexOfLength p.sender_hex)
    · cases hds : hexDigits? p.nonce with
      | none =>
        have hnonce := p.nonce_hex
        rw [isHexNumber, hds] at hnonce
        cases hnonce
      | some ds => exact colon_notMem_of_hexDigits? hds
    · cases htarget : p.target with
      | none => exact List.not_mem_nil
      | some target =>
        exact colon_notMem_lowerCase (colon_notMem_of_hexOfLength (p.target_hex target htarget))
    · exact colon_notMem_of_hexOfLength (keccak256 p.data).property
    · exact colon_notMem_of_hexOfLength head.property
  have hlist := join_injective h rfl (hparts p head) (hparts q head')
  simp only [List.cons.injEq, and_true] at hlist
  obtain ⟨hchain, hsender, hnonce, htarget, hdata, hhead⟩ := hlist
  refine ⟨⟨?_, hsender, hnonce, ?_, Subtype.ext hdata⟩, Subtype.ext hhead⟩
  · revert hchain
    cases p.chain <;> cases q.chain <;> decide
  · have hp := p.target_hex
    have hq := q.target_hex
    cases hpt : p.target with
    | none =>
      cases hqt : q.target with
      | none => rfl
      | some t =>
        rw [hpt, hqt] at htarget
        exact absurd htarget.symm (lowerCase_ne_empty (hq t hqt))
    | some t =>
      cases hqt : q.target with
      | none =>
        rw [hpt, hqt] at htarget
        exact absurd htarget (lowerCase_ne_empty (hp t hpt))
      | some t' =>
        rw [hpt, hqt] at htarget
        exact congrArg some htarget

end Join

/-- What is cached after some calls, whatever they were asked for and whoever answered. -/
inductive Reachable (env : Environment) (keccak256 : String → Digest) (τ : Type) : Option Lookup → Prop
  | start : Reachable env keccak256 τ none
  | call {lookup : Option Lookup} (before : Reachable env keccak256 τ lookup)
      (answer : ℕ → Request → Except String (Option Json)) (state : State τ) :
      Reachable env keccak256 τ (call env keccak256 answer lookup state).2

/-- What is cached was found by a search: for a request, at a head that was still there at the end. -/
theorem Reachable.searched {cached : Option Lookup} (h : Reachable env keccak256 τ cached) :
    ∀ found ∈ cached, ∃ (answer : ℕ → Request → Except String (Option Json)) (lookup : Option Lookup) (state : State τ)
      (p : DeploymentPending) (head : Digest), Reachable env keccak256 τ lookup ∧
      state.pending = some p ∧ found.key = lookupKey keccak256 p head ∧
      ((trackPending env keccak256 lookup state).run answer []).1 =
        .ok (record p state found.hash, some found) ∧
      ∀ hash ∈ found.hash,
        Shown env p ((trackPending env keccak256 lookup state).run answer []).2 hash := by
  induction h with
  | start => exact fun _ h ↦ by cases h
  | @call lookup before answer state ih =>
    intro found hcached
    obtain ⟨-, houtcome⟩ := run_trackPending env keccak256 lookup state answer
    rw [Tracking.call] at hcached
    generalize hrun : (trackPending env keccak256 lookup state).run answer [] = result
      at hcached houtcome
    obtain ⟨r, t⟩ := result
    cases r with
    | error e => exact ih found hcached
    | ok final =>
      obtain ⟨state', lookup'⟩ := final
      dsimp only at hcached
      cases houtcome _ rfl with
      | unchanged => exact ih found hcached
      | cached => exact ih found hcached
      | @searched p hash found' tag number head current hpending _ _ hshown _ _ =>
        cases hcached
        refine ⟨answer, lookup, state, p, hash, before, hpending, rfl, ?_, ?_⟩ <;> rw [hrun]
        exact hshown

/-- **A cached lookup is for this request and this head.** -/
theorem Reachable.sameRequest {found : Lookup} (h : Reachable env keccak256 τ (some found))
    {hash : Digest} (hkey : found.key = lookupKey keccak256 pending hash) :
    ∃ (answer : ℕ → Request → Except String (Option Json)) (lookup : Option Lookup) (state : State τ)
      (p : DeploymentPending), SameRequest keccak256 p pending ∧ state.pending = some p ∧
      found.key = lookupKey keccak256 p hash ∧
      ((trackPending env keccak256 lookup state).run answer []).1 =
        .ok (record p state found.hash, some found) ∧
      ∀ digest ∈ found.hash,
        Shown env p ((trackPending env keccak256 lookup state).run answer []).2 digest := by
  obtain ⟨answer, lookup, state, p, head, -, hpending, hkey', hrun, hshown⟩ := h.searched found rfl
  obtain ⟨hsame, rfl⟩ := lookupKey_injective (hkey'.symm.trans hkey)
  exact ⟨answer, lookup, state, p, hsame, hpending, hkey', hrun, hshown⟩

/-! ## What a call does -/

section Tracks

variable (env keccak256) (lookup : Option Lookup) (state : State τ)

/-- A call with its transcript. -/
def asking (answer : ℕ → Request → Except String (Option Json)) :
    Except String (State τ × Option Lookup) × Transcript Request (Option Json) :=
  (trackPending env keccak256 lookup state).run answer []

/-- What a call does.  `questions` and `outcome` hold whoever answers; `pinpointed` is about a chain that
stays, `replaced` about one that does not. -/
structure Tracks : Prop where
  questions : ∀ answer, (asking env keccak256 lookup state answer).2.length ≤ 15
  outcome : ∀ answer result, (asking env keccak256 lookup state answer).1 = .ok result →
    Outcome env keccak256 lookup state (asking env keccak256 lookup state answer).2 result
  idle : state.pending = none →
    ∀ answer, (asking env keccak256 lookup state answer).1 = .ok (state, lookup)
  receipted : ∀ pending ∈ state.pending, ∀ hash ∈ pending.hash, ∀ answer receipt,
    answer 0 (.getTransactionReceipt pending.chain hash.val) = .ok receipt → truthy receipt = true →
      (asking env keccak256 lookup state answer).1 = .ok (state, lookup)
  pinpointed : ∀ pending ∈ state.pending, ∀ chain : Canonical,
    (∀ hash ∈ pending.hash, chain.receipts hash.val = false) →
    ∀ block ∈ chain.blocks[chain.head]?,
      (∀ found ∈ lookup, found.key ≠ lookupKey keccak256 pending block.hash) →
      Pinpointed keccak256 chain pending state block.hash
        (asking env keccak256 lookup state fun _ ↦ chain.answer).1
        (asking env keccak256 lookup state fun _ ↦ chain.answer).2
  cached : ∀ pending ∈ state.pending, ∀ chain : Canonical,
    (∀ hash ∈ pending.hash, chain.receipts hash.val = false) →
    ∀ block ∈ chain.blocks[chain.head]?,
      ∀ found ∈ lookup, found.key = lookupKey keccak256 pending block.hash →
        (asking env keccak256 lookup state fun _ ↦ chain.answer).1 =
          .ok (record pending state found.hash, lookup)
  replaced : ∀ pending ∈ state.pending, ∀ (before after : Canonical) (time : ℕ), Replaced before after →
    (pending.hash.elim 0 fun _ ↦ 1) < time →
    time < (asking env keccak256 lookup state (replacedAt time before after)).2.length →
      (asking env keccak256 lookup state (replacedAt time before after)).1 = .ok (state, lookup) ∨
        ∃ e, (asking env keccak256 lookup state (replacedAt time before after)).1 = .error e
  sameRequest : Reachable env keccak256 τ lookup → ∀ found ∈ lookup, ∀ (pending : DeploymentPending)
    (hash : Digest), found.key = lookupKey keccak256 pending hash →
      ∃ (answer : ℕ → Request → Except String (Option Json)) (lookup' : Option Lookup) (state' : State τ)
        (p : DeploymentPending), SameRequest keccak256 p pending ∧ state'.pending = some p ∧
        found.key = lookupKey keccak256 p hash ∧
        (asking env keccak256 lookup' state' answer).1 = .ok (record p state' found.hash, some found) ∧
        ∀ digest ∈ found.hash, Shown env p (asking env keccak256 lookup' state' answer).2 digest

/-- **Tracking pinpoints one block.** -/
theorem trackPending_tracks : Tracks env keccak256 lookup state := by
  have hany := run_trackPending env keccak256 lookup state
  constructor
  case questions => exact fun answer ↦ (hany answer).1
  case outcome => exact fun answer ↦ (hany answer).2
  case idle =>
    intro hnone answer
    simp only [asking, trackPending, hnone]
    rfl
  case receipted =>
    intro pending hpending hash hhash answer receipt hanswer htruthy
    rw [Option.mem_def] at hpending hhash
    simp [asking, trackPending, hpending, Tracking.receipted, hhash, request, run, hanswer, htruthy]
  case pinpointed =>
    exact fun pending hpending chain hreceipt block hblock ↦
      (run_trackPending_chain hpending hreceipt hblock).2
  case cached =>
    exact fun pending hpending chain hreceipt block hblock found hfound hkey ↦
      ((run_trackPending_chain hpending hreceipt hblock).1 found hfound hkey).2
  case replaced =>
    exact fun pending hpending before after time hreplaced htime hlate ↦
      trackPending_replaced hreplaced hpending htime hlate
  case sameRequest =>
    intro hreachable found hfound pending hash hkey
    rw [Option.mem_def] at hfound
    subst hfound
    exact hreachable.sameRequest hkey

end Tracks

section Sample

def sampleDigest : Digest := ⟨"0x" ++ String.ofList (List.replicate 64 'a'), by decide +kernel⟩

def sampleDigest' : Digest := ⟨"0x" ++ String.ofList (List.replicate 64 'b'), by decide +kernel⟩

def sampleSender : String := "0x" ++ String.ofList (List.replicate 40 '1')

def samplePending : DeploymentPending where
  chain := .l1
  sender := sampleSender
  nonce := "0x0"
  data := "0x60"
  target := none
  hash := none
  sender_hex := by decide +kernel
  nonce_hex := by decide +kernel
  target_hex := nofun

def sampleState : State Unit := ⟨some samplePending, ()⟩

/-- A genesis block, and the block that creates the requested contract. -/
def sampleBefore : Canonical where
  blocks := [⟨sampleDigest, []⟩, ⟨sampleDigest', [⟨sampleDigest', sampleSender, none, "0x60", 0, 0,
    by decide +kernel, nofun⟩]⟩]
  genesis := by simp
  count _ number := min number 1
  monotone _ _ _ h := min_le_min_right 1 h
  receipts _ := false

/-- The same chain after its last block was dropped. -/
def sampleAfter : Canonical where
  blocks := [⟨sampleDigest, []⟩]
  genesis := by simp
  count _ _ := 0
  monotone _ _ _ _ := Nat.le_refl 0
  receipts _ := false

def sampleEnvironment : Environment := ⟨"", "", "", [], id, fun _ ↦ .error ""⟩

/-- The block that consumed the nonce is dropped before it is read: the call returns nothing. -/
theorem dropped_during_search : Replaced sampleBefore sampleAfter ∧
    Consumed sampleBefore samplePending 1 ∧
    verdict sampleBefore samplePending 1 = .ok (some sampleDigest') ∧
    (asking sampleEnvironment (fun _ ↦ sampleDigest) none sampleState
      (replacedAt 3 sampleBefore sampleAfter)).1 = .error historyUnavailable := by
  have hempty : sampleAfter.blocks[sampleBefore.head]? = none := rfl
  refine ⟨fun block _ block' h ↦ ?_, ⟨?_, ?_, ?_, ?_, ?_⟩, ?_, ?_⟩
  · rw [hempty] at h
    cases h
  · decide
  · decide
  · decide
  · decide +kernel
  · decide +kernel
  · rfl
  · have hlatest : replacedAt 3 sampleBefore sampleAfter 0 (.getBlockByNumber .l1 "latest" false) =
        .ok (some (Block.toJson 1 false ⟨sampleDigest', sampleBefore.blocks[1].transactions⟩)) :=
      answer_latest rfl .l1
    have hcount : ∀ n ≤ 1, sampleBefore.answer (.getTransactionCount .l1 sampleSender (toHex n)) =
        .ok (some (.str (toHex n))) := by
      intro n hn
      have hhead : n ≤ sampleBefore.head := hn
      have hmin : sampleBefore.count sampleSender n = n := min_eq_left hn
      rw [answer_count hhead, hmin]
    have hhigh : replacedAt 3 sampleBefore sampleAfter 1 (.getTransactionCount .l1 sampleSender (toHex 1)) =
        .ok (some (.str (toHex 1))) := hcount 1 (Nat.le_refl 1)
    have hlow : replacedAt 3 sampleBefore sampleAfter 2 (.getTransactionCount .l1 sampleSender (toHex 0)) =
        .ok (some (.str (toHex 0))) := hcount 0 (Nat.zero_le 1)
    have hgone : replacedAt 3 sampleBefore sampleAfter 3 (.getBlockByNumber .l1 (toHex 1) true) =
        .ok (some .null) := by
      simp [replacedAt, Canonical.answer, Canonical.numberOf, toHex_ne_latest, sampleAfter]
    have hnumber : samplePending.number = 0 := by decide +kernel
    have hsearch : search samplePending 0 1 = pure 1 := by rw [search, dif_neg (by decide)]
    have hnull : transactionsOf 1 (some .null) = none := rfl
    have hreceipted : receipted samplePending = pure false := rfl
    have hchain : samplePending.chain = .l1 := rfl
    have hsender : samplePending.sender = sampleSender := rfl
    simp [asking, trackPending, sampleState, hreceipted, hchain, hsender, request, nonceAt, discover, examine,
      run, hlatest, headOf_toJson, hhigh, hlow, hgone, hnumber, hsearch, hnull, RECOVERY_BLOCKS]

end Sample

end Tracking
