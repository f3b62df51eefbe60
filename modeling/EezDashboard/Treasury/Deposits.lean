import Mathlib
import EezDashboard.Treasury.Bridge

/-!
# Locked and minted

A deposit is locked on L1 and minted on L2 within one entry, and the two bridges keep separate
storage: a counter and a flag on L2, the consumed nonces on L1.  Between entries the locks and the
mints agree one by one, `Settled`.  While a deposit is under way the flag is up on L2 and nobody can
change either storage: another `bridgeFromL1` finds the flag, `lockForL2` admits only the proxy of the
L2 bridge, and each entry of the wrong bridge finds the wrong route.  Only the receipt tells
`bridgeFromL1` that its lock was run: `wp_callLockForL2`.
-/

set_option autoImplicit false

namespace Bridge

open Contract Prog

/-! ## Deposits, as the events tell them -/

/-- A deposit: its nonce, who pays, who receives, and how much. -/
structure Deposit where
  nonce : ℕ
  payer : Address
  recipient : Address
  amount : ℕ
  deriving DecidableEq, Repr

def Event.locked : Event → Option Deposit
  | .depositLocked nonce payerAlias recipient amount => some ⟨nonce, payerAlias, recipient, amount⟩
  | .depositMinted .. => none

def Event.minted : Event → Option Deposit
  | .depositLocked .. => none
  | .depositMinted nonce payer recipient amount => some ⟨nonce, payer, recipient, amount⟩

/-- The deposits locked, in order, with the payer's alias. -/
def Storage.locked (s : Storage) : List Deposit := s.log.filterMap Event.locked

/-- The deposits minted, in order, with the payer. -/
def Storage.minted (s : Storage) : List Deposit := s.log.filterMap Event.minted

/-- The deposit as L1 sees it. -/
def Pair.onL1 (pair : Pair) (d : Deposit) : Deposit := { d with payer := pair.aliasOf d.payer }

/-- Between entries: no deposit is under way; what is locked is what was minted; nonces were used in
order; the nonces used are the consumed ones; and the bridge holds what was minted. -/
structure Settled (pair : Pair) (s : Storage) : Prop where
  idle : (s.bridge .l2).depositing = false
  locked : s.locked = s.minted.map pair.onL1
  increasing : (s.minted.map Deposit.nonce).Pairwise (· < ·)
  used : ∀ d ∈ s.minted, d.nonce < (s.bridge .l2).nextDepositNonce
  consumed : ∀ n, (s.bridge .l1).lockedDeposits n = true ↔ n ∈ s.minted.map Deposit.nonce
  held : s.held = (s.minted.map Deposit.amount).sum

theorem settled_initial (pair : Pair) : Settled pair .initial :=
  ⟨rfl, rfl, .nil, by simp [Storage.minted, Storage.initial],
    by simp [Storage.minted, Storage.initial], rfl⟩

/-- A frame finds the pair settled, unless it is entered while a deposit is under way. -/
structure Ready (pair : Pair) (f : Frame) (s : Storage) : Prop where
  idle : (s.bridge .l2).depositing = false → Settled pair s
  outer : f.nested = false → Settled pair s

/-- While a deposit is under way nothing changes; and what is settled stays so. -/
structure Keeps (pair : Pair) (_f : Frame) (s s' : Storage) : Prop where
  busy : (s.bridge .l2).depositing = true → s' = s
  settled : Settled pair s → Settled pair s'

section Frames

variable {pair : Pair} {f : Frame} {s : Storage}

theorem ready_inner (h : (s.bridge .l2).depositing = true) (view : Bool) :
    Ready pair (f.inner view) s :=
  ⟨fun hidle ↦ by simp [h] at hidle, fun hn ↦ by simp at hn⟩

/-- While a deposit is under way a call returns to the storage it left. -/
theorem wp_ask_busy {β : Type} {q : External} {decode : List Word → Option β}
    (hbusy : (s.bridge .l2).depositing = true) {post : β → Storage → Prop} (h : ∀ b, post b s) :
    (ask q decode : BridgeM β).wp f.static (fun q ↦ Ready pair (f.inner q.view))
      (fun q ↦ Keeps pair (f.inner q.view)) post s := by
  refine wp_ask (ready_inner hbusy _) fun b s' hs' ↦ ?_
  rw [hs'.busy hbusy]
  exact h b

/-- On L1, `lockForL2` admits nobody but the proxy of the L2 bridge. -/
theorem wp_lockForL2_outsider {c : Chain} {sender payer recipient : Address} {amount nonce : ℕ}
    (houtsider : c = .l1 → sender ≠ pair.peerProxy .l1) {post : Word → Storage → Prop} :
    (lockForL2 pair c sender payer amount recipient nonce).wp f.static
      (fun q ↦ Ready pair (f.inner q.view)) (fun q ↦ Keeps pair (f.inner q.view)) post s := by
  rw [lockForL2, wp_bind, onlyBridgeProxy, wp_revertIf, not_not]
  intro hsender
  rw [wp_bind, wp_revertIf, not_or, not_not]
  intro hroute
  cases c with
  | l1 =>
    refine absurd ?_ (houtsider rfl)
    rw [hsender, Config.bridgeAddress, if_pos hroute.2, pair.peer, Pair.peerProxy,
      pair.treasuryRollupId, ← pair.rollupId_l2]
    rfl
  | l2 => exact absurd (pair.rollupId_l2.symm.trans hroute.1) pair.treasuryRollupId_ne

/-- The storage after a lock. -/
def Storage.lock (s : Storage) (pair : Pair) (nonce : ℕ) (payer recipient : Address) (amount : ℕ) :
    Storage :=
  let s₁ := s.set .l1 { s.bridge .l1 with
    lockedDeposits := Function.update (s.bridge .l1).lockedDeposits nonce true }
  { s₁ with
    log := s.log ++ [.depositLocked nonce (pair.aliasOf payer) recipient amount]
    held := s.held + amount }

/-- A lock that returns has consumed its nonce, holds exactly the amount and answers its receipt. -/
theorem wp_lockForL2 {sender payer recipient : Address} {amount nonce : ℕ}
    (hbusy : (s.bridge .l2).depositing = true) {post : Word → Storage → Prop}
    (h : post (receipt pair .l1 (pair.config .l1).this (pair.config .l2).this payer amount recipient
      nonce) (s.lock pair nonce payer recipient amount)) :
    (lockForL2 pair .l1 sender payer amount recipient nonce).wp f.static
      (fun q ↦ Ready pair (f.inner q.view)) (fun q ↦ Keeps pair (f.inner q.view)) post s := by
  simp only [lockForL2, onlyBridgeProxy, wp_bind, wp_revertIf, wp_get, wp_modify]
  intro _ _ _ _ _ _
  have hbusy' : ((s.set .l1 { s.bridge .l1 with
      lockedDeposits := Function.update (s.bridge .l1).lockedDeposits nonce true }).bridge
        .l2).depositing = true := by rwa [Storage.set_l1_l2]
  refine wp_ask_busy hbusy' fun beforeBalance ↦ wp_ask_busy hbusy' fun _ ↦
    wp_ask_busy hbusy' fun afterBalance ↦ ?_
  simp only [wp_checkedAdd, not_not, emitLocked, wp_modify]
  rintro _ rfl _
  rw [Nat.add_sub_cancel_left, pair.peer]
  exact h

theorem Storage.lock_depositing {nonce : ℕ} {payer recipient : Address} {amount : ℕ} :
    ((s.lock pair nonce payer recipient amount).bridge .l2).depositing =
      (s.bridge .l2).depositing := by
  simp [Storage.lock]

/-- The proxy is where the manager says it is, deployed or not. -/
theorem wp_getOrDeployProxy {c : Chain} {original : Address} {rollupId : ℕ}
    (hbusy : (s.bridge .l2).depositing = true) {post : Address → Storage → Prop}
    (h : post (pair.computeCrossChainProxyAddress c original rollupId) s) :
    (getOrDeployProxy pair c original rollupId).wp f.static
      (fun q ↦ Ready pair (f.inner q.view)) (fun q ↦ Keeps pair (f.inner q.view)) post s := by
  simp only [getOrDeployProxy, wp_bind]
  refine wp_ask_busy hbusy fun length ↦ ?_
  by_cases hlength : length = 0
  · rw [when, if_pos hlength]
    exact wp_ask_busy hbusy fun _ ↦ h
  · rw [when, if_neg hlength]
    exact h

/-- **The receipt tells that the lock was run**, and with the arguments of the call: nobody else
answers with it, and a lock with other arguments answers with another one. -/
theorem wp_callLockForL2 (hauthentic : pair.Authentic) {call : LockCall}
    (hbusy : (s.bridge .l2).depositing = true) {post : Word → Storage → Prop}
    (h : ∀ answer s', (answer = pair.lockReceipt call →
      s' = s.lock pair call.nonce.toNat call.payer call.recipient call.amount.toNat) →
      (s'.bridge .l2).depositing = true → post answer s') :
    (callLockForL2 pair .l2 (pair.peerProxy .l2) call).wp f.static
      (fun q ↦ Ready pair (f.inner q.view)) (fun q ↦ Keeps pair (f.inner q.view)) post s := by
  rw [callLockForL2, wp_bind]
  refine wp_ask_decoded (ready_inner hbusy _) fun found delivery s' hdelivery hs' ↦ ?_
  rw [hs'.busy hbusy]
  cases delivery with
  | answered answer =>
    exact h answer s (fun hanswer ↦ absurd hanswer (hauthentic.unforged call found answer hdelivery))
      hbusy
  | executed call' =>
    simp only [wp_bind]
    refine wp_lockForL2 hbusy ?_
    have hbusy' : ((s.lock pair call'.nonce.toNat call'.payer call'.recipient
        call'.amount.toNat).bridge .l2).depositing = true := Storage.lock_depositing.trans hbusy
    refine wp_ask_busy hbusy' fun _ ↦ h _ _ (fun hanswer ↦ ?_) hbusy'
    rw [hauthentic.collisionFree call found call' hdelivery hanswer]

/-- The storage after a whole deposit. -/
def Storage.deposit (s : Storage) (pair : Pair) (payer recipient : Address) (amount : ℕ) :
    Storage :=
  let nonce := (s.bridge .l2).nextDepositNonce
  let s₁ := (s.set .l2 ⟨nonce + 1, (s.bridge .l2).lockedDeposits, true⟩).lock pair nonce payer
    recipient amount
  let s₂ : Storage := { s₁ with log := s₁.log ++ [.depositMinted nonce payer recipient amount] }
  s₂.set .l2 { s₂.bridge .l2 with depositing := false }

/-- A deposit locks and mints the same, with a fresh nonce. -/
theorem Settled.deposit (h : Settled pair s) (payer recipient : Address) (amount : ℕ) :
    Settled pair (s.deposit pair payer recipient amount) := by
  have hlog : (s.deposit pair payer recipient amount).log = s.log ++
      [.depositLocked (s.bridge .l2).nextDepositNonce (pair.aliasOf payer) recipient amount,
        .depositMinted (s.bridge .l2).nextDepositNonce payer recipient amount] := by
    simp [Storage.deposit, Storage.lock]
  have hminted : (s.deposit pair payer recipient amount).minted =
      s.minted ++ [⟨(s.bridge .l2).nextDepositNonce, payer, recipient, amount⟩] := by
    rw [Storage.minted, hlog, List.filterMap_append]
    rfl
  have hlocked : (s.deposit pair payer recipient amount).locked =
      s.locked ++ [⟨(s.bridge .l2).nextDepositNonce, pair.aliasOf payer, recipient, amount⟩] := by
    rw [Storage.locked, hlog, List.filterMap_append]
    rfl
  constructor
  case idle => simp [Storage.deposit]
  case locked =>
    rw [hlocked, hminted, h.locked, List.map_append]
    rfl
  case increasing =>
    rw [hminted, List.map_append, List.pairwise_append]
    refine ⟨h.increasing, List.pairwise_singleton _ _, fun n hn m hm ↦ ?_⟩
    obtain ⟨d, hd, rfl⟩ := List.mem_map.1 hn
    obtain rfl := List.mem_singleton.1 hm
    exact h.used d hd
  case used =>
    intro d hd
    have hnext : ((s.deposit pair payer recipient amount).bridge .l2).nextDepositNonce =
        (s.bridge .l2).nextDepositNonce + 1 := by
      simp [Storage.deposit, Storage.lock]
    rw [hnext]
    rw [hminted, List.mem_append, List.mem_singleton] at hd
    rcases hd with hd | rfl
    · exact Nat.lt_succ_of_lt (h.used d hd)
    · exact Nat.lt_succ_self _
  case consumed =>
    intro n
    have hmap : ((s.deposit pair payer recipient amount).bridge .l1).lockedDeposits =
        Function.update (s.bridge .l1).lockedDeposits (s.bridge .l2).nextDepositNonce true := by
      simp [Storage.deposit, Storage.lock]
    rw [hmap, hminted, List.map_append, List.mem_append]
    by_cases hn : n = (s.bridge .l2).nextDepositNonce
    · simp [hn]
    · simp [hn, h.consumed]
  case held =>
    rw [hminted, List.map_append, List.sum_append, ← h.held]
    simp [Storage.deposit, Storage.lock]

/-- The two sides hash the same receipt. -/
theorem Pair.receipt_eq_lockReceipt (pair : Pair) (payer recipient : Address) (amount nonce : ℕ) :
    receipt pair .l2 (pair.config .l2).canonicalBridgeAddress (pair.config .l2).this payer amount
      recipient nonce =
    pair.lockReceipt ⟨payer, BitVec.ofNat 256 amount, recipient, BitVec.ofNat 256 nonce⟩ := by
  simp only [lockReceipt, receipt, pair.peer, Chain.other, pair.treasuryRollupId,
    pair.canonicalToken, BitVec.ofNat_toNat, BitVec.setWidth_eq]

/-- `bridgeFromL1` returns only on L2, when no deposit is under way, and then it has made one. -/
theorem wp_bridgeFromL1 (hauthentic : pair.Authentic) {c : Chain} {sender recipient : Address}
    {amount : ℕ} (hamount : amount < 2 ^ 256) {post : Unit → Storage → Prop}
    (h : (s.bridge .l2).depositing = false → post () (s.deposit pair sender recipient amount)) :
    (bridgeFromL1 pair c sender amount recipient).wp f.static
      (fun q ↦ Ready pair (f.inner q.view)) (fun q ↦ Keeps pair (f.inner q.view)) post s := by
  simp only [bridgeFromL1, wp_bind, wp_revertIf, wp_get, wp_modify, Bool.not_eq_true, not_or,
    not_not]
  intro hroute _ _ hidle hstatic
  cases c with
  | l1 =>
    rw [pair.rollupId_l1, pair.treasuryRollupId] at hroute
    exact absurd hroute.1.symm pair.treasuryRollupId_ne
  | l2 =>
    have hbusy : ((s.set .l2 { s.bridge .l2 with depositing := true }).bridge
        .l2).depositing = true := by rw [Storage.set_self]
    refine wp_ask_busy hbusy fun wrapped _ ↦ ?_
    simp only [Storage.set_self, Storage.set_set, wp_checkedAdd]
    intro hnext _
    have hnonce : (s.bridge .l2).nextDepositNonce < 2 ^ 256 := Nat.lt_of_succ_lt hnext
    have hbusy' : ((s.set .l2 ⟨(s.bridge .l2).nextDepositNonce + 1, (s.bridge .l2).lockedDeposits,
        true⟩).bridge .l2).depositing = true := by rw [Storage.set_self]
    refine wp_getOrDeployProxy hbusy' ?_
    have hproxy : pair.computeCrossChainProxyAddress .l2 (pair.config .l2).canonicalBridgeAddress
        0 = pair.peerProxy .l2 := by
      rw [pair.peer, ← pair.rollupId_l1]
      rfl
    rw [hproxy]
    refine wp_callLockForL2 hauthentic hbusy' fun answer s' hlocked hbusy'' hanswer ↦ ?_
    rw [pair.receipt_eq_lockReceipt] at hanswer
    have hs' := hlocked hanswer
    simp only [BitVec.toNat_ofNat, Nat.mod_eq_of_lt hamount, Nat.mod_eq_of_lt hnonce] at hs'
    refine wp_ask_busy hbusy'' fun _ _ _ ↦ ?_
    subst hs'
    exact h hidle

end Frames

/-! ## Every execution -/

/-- Outside a deposit, a frame found the pair settled and left it so. -/
def SettledAround (pair : Pair) (r : Record (Entry pair) Storage) : Prop :=
  ((r.before.bridge .l2).depositing = false → Settled pair r.before) ∧
    ((r.after.bridge .l2).depositing = false → Settled pair r.after)

theorem Keeps.ready {pair : Pair} {f : Frame} {s s' : Storage} (h : Ready pair f s)
    (hk : Keeps pair f s s') : Ready pair f s' := by
  refine ⟨fun hidle ↦ ?_, fun hn ↦ hk.settled (h.outer hn)⟩
  cases hs : (s.bridge .l2).depositing with
  | true =>
    rw [hk.busy hs, hs] at hidle
    cases hidle
  | false => exact hk.settled (h.idle hs)

/-- **One frame of the bridges**, with the conditions their callees rely on. -/
theorem bridges_discipline {pair : Pair} (hauthentic : pair.Authentic) :
    Discipline (bridges pair) (Ready pair) (Keeps pair) (SettledAround pair) where
  refl _ _ := ⟨fun _ ↦ rfl, id⟩
  trans _ s₁ s₂ s₃ h₁ h₂ := by
    refine ⟨fun hbusy ↦ ?_, fun hs ↦ h₂.settled (h₁.settled hs)⟩
    obtain rfl := h₁.busy hbusy
    exact h₂.busy hbusy
  stable _ _ _ h hk := hk.ready h
  restrict_holds _ _ _ h := ⟨h.idle, h.outer⟩
  restrict_keeps _ _ _ _ _ hk := ⟨hk.busy, hk.settled⟩
  returned f e s h := by
    cases e with
    | bridgeFromL1 c sender amount recipient =>
      refine wp_bridgeFromL1 hauthentic amount.isLt fun hidle ↦ ?_
      have hsettled := (h.idle hidle).deposit sender recipient amount.toNat
      exact ⟨⟨fun hbusy ↦ by simp [hidle] at hbusy, fun _ ↦ hsettled⟩, h.idle, fun _ ↦ hsettled⟩
    | lockForL2 c sender payer amount recipient nonce houtsider =>
      refine (wp_bind _ _ _ _).2 ?_
      exact wp_lockForL2_outsider houtsider
  failed _ _ _ h := ⟨h.idle, h.idle⟩

/-! ## One lock for one mint -/

theorem count_depositLocked (s : Storage) (n : ℕ) (q r : Address) (a : ℕ) :
    s.locked.count ⟨n, q, r, a⟩ = s.log.count (.depositLocked n q r a) := by
  rw [Storage.locked, List.count_filterMap, List.count]
  refine List.countP_congr fun x _ ↦ ?_
  cases x <;> simp [Event.locked]

theorem count_depositMinted (s : Storage) (n : ℕ) (p r : Address) (a : ℕ) :
    s.minted.count ⟨n, p, r, a⟩ = s.log.count (.depositMinted n p r a) := by
  rw [Storage.minted, List.count_filterMap, List.count]
  refine List.countP_congr fun x _ ↦ ?_
  cases x <;> simp [Event.minted]

/-- What L1 has locked and what L2 has minted. -/
structure Agree (pair : Pair) (s : Storage) : Prop where
  lockedOnce : (s.locked.map Deposit.nonce).Nodup
  mintedOnce : (s.minted.map Deposit.nonce).Nodup
  increasing : (s.minted.map Deposit.nonce).Pairwise (· < ·)
  minted : ∀ n p r a, .depositMinted n p r a ∈ s.log →
    s.log.count (.depositLocked n (pair.aliasOf p) r a) = 1
  locked : ∀ n q r a, .depositLocked n q r a ∈ s.log →
    ∃ p, pair.aliasOf p = q ∧ s.log.count (.depositMinted n p r a) = 1 ∧
      ∀ p', .depositMinted n p' r a ∈ s.log → p' = p
  total : s.held = (s.minted.map Deposit.amount).sum

theorem Settled.agree {pair : Pair} {s : Storage} (h : Settled pair s) : Agree pair s := by
  have hnonces : s.locked.map Deposit.nonce = s.minted.map Deposit.nonce := by
    rw [h.locked, List.map_map]
    rfl
  have hminted : (s.minted.map Deposit.nonce).Nodup := h.increasing.imp Nat.ne_of_lt
  have hlocked : (s.locked.map Deposit.nonce).Nodup := by rwa [hnonces]
  have hmem : ∀ n p r a, .depositMinted n p r a ∈ s.log ↔ ⟨n, p, r, a⟩ ∈ s.minted := by
    intro n p r a
    rw [← List.count_pos_iff, ← count_depositMinted, List.count_pos_iff]
  refine ⟨hlocked, hminted, h.increasing, fun n p r a hev ↦ ?_, fun n q r a hev ↦ ?_, h.held⟩
  · rw [← count_depositLocked]
    refine List.count_eq_one_of_mem hlocked.of_map ?_
    rw [h.locked]
    exact List.mem_map.2 ⟨⟨n, p, r, a⟩, (hmem n p r a).1 hev, rfl⟩
  · rw [← List.count_pos_iff, ← count_depositLocked, List.count_pos_iff, h.locked] at hev
    obtain ⟨⟨n', p, r', a'⟩, hd, heq⟩ := List.mem_map.1 hev
    rw [Pair.onL1, Deposit.mk.injEq] at heq
    obtain ⟨rfl, hq, rfl, rfl⟩ := heq
    refine ⟨p, hq, ?_, fun p' hp' ↦ ?_⟩
    · rw [← count_depositMinted]
      exact List.count_eq_one_of_mem hminted.of_map hd
    · have hinj := List.inj_on_of_nodup_map hminted ((hmem _ _ _ _).1 hp') hd rfl
      exact congrArg Deposit.payer hinj

/-- **Locks and mints agree.**  Whatever calls of `bridgeFromL1` and `lockForL2` are made on either
bridge, by whom and in whatever order, and whatever the token, the proxies and the wrapped token do
before they answer, calls back into the bridges included: each nonce is locked at most once and minted
at most once, in increasing order; every mint has exactly one lock and every lock exactly one mint; and
what the L1 bridge was seen to receive is what was minted.  The same holds whenever a bridge is
entered or left and no deposit is under way.  Of the managers it is assumed that a receipt comes from
the lock it is of. -/
theorem locked_iff_minted (pair : Pair) (hauthentic : pair.Authentic) (depth : ℕ)
    (txs : List (ℕ × Act (Entry pair))) :
    Agree pair (history (bridges pair) depth txs .initial).1 ∧
    ∀ r ∈ (history (bridges pair) depth txs .initial).2,
      ((r.before.bridge .l2).depositing = false → Agree pair r.before) ∧
      ((r.after.bridge .l2).depositing = false → Agree pair r.after) := by
  have hinit := settled_initial pair
  obtain ⟨hfinal, hrecords⟩ := (bridges_discipline hauthentic).history
    (fun _ _ _ h ↦ ⟨h.idle, fun _ ↦ h.outer rfl⟩) depth txs .initial
    (fun _ ↦ ⟨fun _ ↦ hinit, fun _ ↦ hinit⟩)
  refine ⟨((hfinal 0).outer rfl).agree, fun r hr ↦ ?_⟩
  obtain ⟨hbefore, hafter⟩ := hrecords r hr
  exact ⟨fun hidle ↦ (hbefore hidle).agree, fun hidle ↦ (hafter hidle).agree⟩

/-- A deposit whose receipt is answered as `0` mints nothing; of one that is executed, the token calls
both entries again before it moves the tokens. -/
theorem locked_iff_minted_sample :
    let before : List (Reply (Entry samplePair)) := [([], some [0xdd]), ([], some [0]), ([], some [])]
    let deposit : Entry samplePair := .bridgeFromL1 .l2 0xaa 5 0xbb
    let again : List (Act (Entry samplePair)) :=
      [.call deposit [], .call (.lockForL2 .l1 0xee 0xaa 5 0xee 1 (by decide)) []]
    let txs : List (ℕ × Act (Entry samplePair)) :=
      [(10, .call deposit (before ++ [([], some [0])])),
        (11, .call deposit (before ++ [([], some []), ([], some [10]), (again, some []),
          ([], some [15]), ([], some []), ([], some [])]))]
    let ran := history (bridges samplePair) 3 txs .initial
    ran.2.map Record.returned = [false, true, false, false] ∧
      ran.1.log = [.depositLocked 0 (samplePair.aliasOf 0xaa) 0xbb 5, .depositMinted 0 0xaa 0xbb 5] ∧
      ran.1.held = 5 ∧ Agree samplePair ran.1 := by
  intro before deposit again txs ran
  refine ⟨by decide +kernel, by decide +kernel, by decide +kernel, ?_⟩
  exact (locked_iff_minted samplePair samplePair_authentic 3 txs).1

end Bridge
