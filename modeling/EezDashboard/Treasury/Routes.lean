import EezDashboard.Treasury.Payment

/-!
# Every route of a payment

A payment has a destination chain and two contributions, and each adapter makes the L1 contribution
its own way.  `Treasury.Payment` accounts for each contribution; here the checks and the authorization
are added, and the books are read off: whichever route is taken, each Safe pays exactly its
contribution, the recipient gains exactly the amount, and nothing stays on the way.
-/

set_option autoImplicit false

namespace Treasury

open Contract Prog

variable {W : Type} {im : Immutables} {dm : DelegateImmutables} {alias_ : Address}
  {serve serveL1 : External → W → Option (List Word) × W} {accounts : W → Accounts}

/-! ## The checks -/

/-- The payment context names the alias the policy acts as on L1, and the account that pays. -/
theorem paymentContext_names (hshared : SharedOutside im serve accounts) {s s' : Storage}
    {w w' : W × DelegateStorage}
    (hadapter : AdapterOutside im dm alias_ serve serveL1 accounts w.2) {p : Address × Address}
    (h : (paymentContext im).run false (handle im dm alias_ serve serveL1) s w = (.ok p, s', w')) :
    p = (alias_, im.payer alias_) := by
  unfold AdapterOutside at hadapter
  unfold Immutables.payer
  cases ha : im.adapter with
  | treasury reader =>
    rw [ha] at hadapter
    simp only [paymentContext, ha] at h
    rw [run_bind_eq_ok] at h
    obtain ⟨a, s₁, w₁, halias, h⟩ := h
    obtain ⟨v, hserve, hdecode, -, -⟩ := run_ask_other rfl halias
    obtain ⟨rfl, -, -⟩ := run_ret_eq_ok.1 h
    rw [hadapter.aliasOf _ _ _ _ hserve hdecode]
  | standard bridgeL1Proxy executor proxy =>
    rw [ha] at hadapter
    obtain ⟨-, -, hpolicy, -⟩ := hadapter
    simp only [paymentContext, ha] at h
    rw [run_bind_eq_ok] at h
    obtain ⟨peer, s₁, w₁, hpeer, h⟩ := h
    obtain ⟨-, -, hd₁⟩ := run_view hshared (quiet_view rfl _) hpeer
    rw [run_revertIf_bind_eq_ok, run_bind_eq_ok] at h
    obtain ⟨-, origin, s₂, w₂, horigin, h⟩ := h
    obtain ⟨-, -, hd₂⟩ := run_view hshared (quiet_view rfl _) horigin
    rw [run_revertIf_bind_eq_ok, run_bind_eq_ok] at h
    obtain ⟨-, a, s₃, w₃, halias, h⟩ := h
    rw [run_revertIf_bind_eq_ok] at h
    obtain ⟨hnonzero, h⟩ := h
    obtain ⟨rfl, -, -⟩ := run_ret_eq_ok.1 h
    obtain ⟨v, hcall, hdecode⟩ := run_ask_eq_ok.1 halias
    have hproxy : im.delegateProxy = some proxy := by rw [Immutables.delegateProxy, ha]
    simp only [handle, hproxy, if_true] at hcall
    cases hcall
    rw [Abi.address_ofAddress, hd₂, hd₁] at hdecode
    cases hdecode
    rw [hpolicy.resolve_left hnonzero]

/-- What the checks of `_pay` establish of its arguments. -/
structure Admissible (im : Immutables) (alias_ recipient : Address) (amount fromL1 : ℕ) : Prop where
  limit : amount ≤ GLOBAL_LIMIT
  fromL1 : fromL1 ≤ amount
  ne_this : recipient ≠ im.this
  ne_alias : recipient ≠ alias_
  ne_safeL1 : recipient ≠ im.safeL1
  ne_safeL2 : recipient ≠ im.safeL2
  ne_bridgeL1 : recipient ≠ im.bridgeL1
  ne_payer : recipient ≠ im.payer alias_

/-- The checks admit only such arguments, and move nothing. -/
theorem checkPayment_admits (hshared : SharedOutside im serve accounts) {s s' : Storage}
    {w w' : W × DelegateStorage}
    (hadapter : AdapterOutside im dm alias_ serve serveL1 accounts w.2) {recipient a : Address}
    {amount expectedEpoch fromL1 epoch : ℕ}
    (h : (checkPayment im recipient amount expectedEpoch fromL1 epoch).run false
      (handle im dm alias_ serve serveL1) s w = (.ok a, s', w')) :
    a = alias_ ∧ s' = s ∧ accounts w'.1 = accounts w.1 ∧ w'.2 = w.2 ∧
      Admissible im alias_ recipient amount fromL1 := by
  rw [checkPayment, run_revertIf_bind_eq_ok, run_revertIf_bind_eq_ok, run_get_bind,
    run_checkedAdd_bind_eq_ok, run_revertIf_bind_eq_ok, run_bind_eq_ok] at h
  obtain ⟨hamount, -, -, -, peer, s₁, w₁, hpeer, h⟩ := h
  obtain ⟨rfl, ha₁, hd₁⟩ := run_view hshared (quiet_view rfl _) hpeer
  rw [run_revertIf_bind_eq_ok, run_bind_eq_ok] at h
  obtain ⟨-, p, s₂, w₂, hcontext, h⟩ := h
  obtain ⟨rfl, ha₂, hd₂⟩ := run_view hshared (quiet_paymentContext im) hcontext
  obtain rfl := paymentContext_names hshared (hd₁ ▸ hadapter) hcontext
  rw [run_revertIf_bind_eq_ok, run_bind_eq_ok] at h
  obtain ⟨hrecipient, capacityL1, s₃, w₃, hL1, h⟩ := h
  obtain ⟨rfl, ha₃, hd₃⟩ := run_view hshared (quiet_capacity im _ _ _) hL1
  rw [run_revertIf_bind_eq_ok, run_bind_eq_ok] at h
  obtain ⟨-, capacityL2, s₄, w₄, hL2, h⟩ := h
  obtain ⟨rfl, ha₄, hd₄⟩ := run_view hshared (quiet_capacity im _ _ _) hL2
  rw [run_revertIf_bind_eq_ok] at h
  obtain ⟨rfl, rfl, rfl⟩ := run_ret_eq_ok.1 h.2
  simp only [not_or] at hamount hrecipient
  obtain ⟨-, hthis, halias, hsafeL1, hsafeL2, -, hbridgeL1, hpayer⟩ := hrecipient
  exact ⟨rfl, rfl, by rw [ha₄, ha₃, ha₂, ha₁], by rw [hd₄, hd₃, hd₂, hd₁],
    ⟨by omega, by omega, hthis, halias, hsafeL1, hsafeL2, hbridgeL1, hpayer⟩⟩

/-! ## The whole payment -/

/-- `_pay` moves what its two contributions move. -/
theorem pay_moves (hshared : SharedOutside im serve accounts) {s s' : Storage}
    {w w' : W × DelegateStorage}
    (hadapter : AdapterOutside im dm alias_ serve serveL1 accounts w.2) {time : ℕ}
    {recipient : Address} {amount expectedEpoch fromL1 : ℕ} {onL1 : Bool} {u : Unit}
    (h : (pay im time recipient amount onL1 expectedEpoch fromL1).run false
      (handle im dm alias_ serve serveL1) s w = (.ok u, s', w')) :
    Admissible im alias_ recipient amount fromL1 ∧
      Moved (accounts w.1) (accounts w'.1)
        (canonicalOfL2 im recipient (amount - fromL1) onL1 + canonicalOfL1 im recipient fromL1 onL1)
        (wrappedOfL2 im recipient (amount - fromL1) onL1 + wrappedOfL1 recipient fromL1 onL1)
        (fun o s ↦ 0 < fromL1 ∧ onL1 = false ∧ im.uses alias_ o s) ∧
      (0 < fromL1 → onL1 = false →
        (accounts w'.1).canonical.approval (im.payer alias_) im.bridgeL1 = 0) := by
  rw [pay, run_bind_eq_ok] at h
  obtain ⟨a, s₁, w₁, hcheck, h⟩ := h
  obtain ⟨rfl, rfl, ha₁, hd₁, hadm⟩ := checkPayment_admits hshared hadapter hcheck
  rw [run_get_bind, run_checkedAdd_bind_eq_ok, run_modify_bind_eq_ok, run_bind_eq_ok] at h
  obtain ⟨-, -, _, s₂, w₂, hL2, h⟩ := h
  rw [run_bind_eq_ok] at h
  obtain ⟨_, s₃, w₃, hL1, h⟩ := h
  obtain ⟨-, -, rfl⟩ := run_modify_eq_ok.1 h
  have hlimit := hadm.limit
  have hfrom := hadm.fromL1
  unfold GLOBAL_LIMIT at hlimit
  -- a contribution of nothing is not made, and moves nothing
  have hmoved₂ : Moved (accounts w.1) (accounts w₂.1)
      (canonicalOfL2 im recipient (amount - fromL1) onL1)
      (wrappedOfL2 im recipient (amount - fromL1) onL1) noApproval := by
    rw [← ha₁]
    rcases run_when_eq_ok.1 hL2 with ⟨-, hrun⟩ | ⟨hzero, -, rfl⟩
    · exact (payL2_moves hshared (by omega) hrun).2.2
    · rw [Nat.eq_zero_of_not_pos hzero]
      refine (Moved.refl _ _).congr ?_ ?_
      · cases onL1 <;> simp [canonicalOfL2]
      · cases onL1 <;> simp [wrappedOfL2]
  rcases run_when_eq_ok.1 hL1 with ⟨hpos, hrun⟩ | ⟨hzero, -, rfl⟩
  · obtain ⟨-, hmoved₁, happroval⟩ := payL1_moves hshared hadapter (by omega) hrun
    exact ⟨hadm, (hmoved₂.mono fun _ _ ht ↦ ht.elim).trans
      (hmoved₁.mono fun _ _ ht ↦ ⟨hpos, ht⟩), fun _ ↦ happroval⟩
  · refine ⟨hadm, (hmoved₂.mono fun _ _ ht ↦ ht.elim).congr ?_ ?_, fun hpos ↦ absurd hpos hzero⟩
    · rw [Nat.eq_zero_of_not_pos hzero, canonicalOfL1, shift_zero, add_zero]
    · rw [Nat.eq_zero_of_not_pos hzero]
      cases onL1 <;> simp [wrappedOfL1]

/-- The authorization moves nothing. -/
theorem authorizePayment_kept (hshared : SharedOutside im serve accounts) {s s' : Storage}
    {w w' : W × DelegateStorage} {sender : Address} {callHash : Word} {u : Unit}
    (h : (authorizePayment im sender callHash).run false (handle im dm alias_ serve serveL1) s w =
      (.ok u, s', w')) :
    accounts w'.1 = accounts w.1 ∧ w'.2 = w.2 := by
  unfold authorizePayment at h
  split at h
  · obtain ⟨-, -, rfl⟩ := run_ret_eq_ok.1 h
    exact ⟨rfl, rfl⟩
  · rw [run_revertIf_bind_eq_ok, run_bind_eq_ok] at h
    obtain ⟨-, safeNonce, s₁, w₁, hnonce, h⟩ := h
    obtain ⟨-, ha₁, hd₁⟩ := run_view hshared (quiet_view rfl _) hnonce
    obtain ⟨-, -, rfl⟩ := run_modify_eq_ok.1 h
    exact ⟨ha₁, hd₁⟩

/-- The accounts a payment passes through are different ones: a Safe is not a bridge, and neither is
a proxy or a delegate; the policy was created when SafeL2 already had code. -/
structure Separate (im : Immutables) (alias_ : Address) : Prop where
  safeL1_bridgeL1 : im.safeL1 ≠ im.bridgeL1
  this_safeL2 : im.this ≠ im.safeL2
  alias_safeL1 : alias_ ≠ im.safeL1
  alias_bridgeL1 : alias_ ≠ im.bridgeL1
  payer_safeL1 : im.payer alias_ ≠ im.safeL1
  payer_bridgeL1 : im.payer alias_ ≠ im.bridgeL1

/-- The books before and after a payment. -/
structure PaidExactly (im : Immutables) (alias_ : Address) (e : PaySplit) (a a' : Accounts) :
    Prop where
  safeL1 : a'.canonical.balance im.safeL1 + e.fromL1 = a.canonical.balance im.safeL1
  safeL2 : a'.wrapped.balance im.safeL2 + (e.amount - e.fromL1) = a.wrapped.balance im.safeL2
  recipientL1 : e.onL1 = true →
    a'.canonical.balance e.recipient = a.canonical.balance e.recipient + e.amount
  recipientL2 : e.onL1 = false →
    a'.wrapped.balance e.recipient = a.wrapped.balance e.recipient + e.amount
  policy : a'.wrapped.balance im.this = a.wrapped.balance im.this
  policyAlias : a'.canonical.balance alias_ = a.canonical.balance alias_
  delegate : a'.canonical.balance (im.payer alias_) = a.canonical.balance (im.payer alias_)
  /-- nobody else on L1 but the bridge, which holds what is bridged -/
  othersL1 : ∀ x, x ≠ im.safeL1 → x ≠ im.bridgeL1 → (e.onL1 = true → x ≠ e.recipient) →
    a'.canonical.balance x = a.canonical.balance x
  /-- nobody else on L2 -/
  othersL2 : ∀ x, x ≠ im.safeL2 → (e.onL1 = false → x ≠ e.recipient) →
    a'.wrapped.balance x = a.wrapped.balance x
  /-- an approval of the bridge is used up, if the payment gave one -/
  bridgeApproval : a'.canonical.approval (im.payer alias_) im.bridgeL1 =
    if 0 < e.fromL1 ∧ e.onL1 = false then 0
    else a.canonical.approval (im.payer alias_) im.bridgeL1
  othersApproval : ∀ o s, ¬im.uses alias_ o s →
    a'.canonical.approval o s = a.canonical.approval o s
  wrappedApproval : a'.wrapped.approval = a.wrapped.approval

/-- What a payment changes on L1, account by account. -/
theorem canonical_apply (im : Immutables) (recipient : Address) {amount fromL1 : ℕ}
    (hfrom : fromL1 ≤ amount) (onL1 : Bool) (x : Address) :
    (canonicalOfL2 im recipient (amount - fromL1) onL1 + canonicalOfL1 im recipient fromL1 onL1) x =
      (if onL1 = true ∧ x = recipient then (amount : ℤ) else 0) -
        (if x = im.safeL1 then (fromL1 : ℤ) else 0) +
        (if x = im.bridgeL1 then
          (if onL1 = true then -((amount - fromL1 : ℕ) : ℤ) else (fromL1 : ℤ)) else 0) := by
  cases onL1
  · simp only [canonicalOfL2, canonicalOfL1, Pi.add_apply, shift_apply, Bool.false_eq_true,
      if_false, false_and, Pi.zero_apply]
    omega
  · simp only [canonicalOfL2, canonicalOfL1, Pi.add_apply, shift_apply, if_true, true_and]
    split_ifs <;> omega

/-- What a payment changes on L2, account by account. -/
theorem wrapped_apply (im : Immutables) (recipient : Address) {amount fromL1 : ℕ}
    (hfrom : fromL1 ≤ amount) (onL1 : Bool) (x : Address) :
    (wrappedOfL2 im recipient (amount - fromL1) onL1 + wrappedOfL1 recipient fromL1 onL1) x =
      (if onL1 = false ∧ x = recipient then (amount : ℤ) else 0) -
        (if x = im.safeL2 then ((amount - fromL1 : ℕ) : ℤ) else 0) := by
  cases onL1
  · simp only [wrappedOfL2, wrappedOfL1, Pi.add_apply, shift_apply, Pi.single_apply,
      Bool.false_eq_true, if_false, true_and]
    split_ifs <;> omega
  · simp only [wrappedOfL2, wrappedOfL1, Pi.add_apply, Pi.neg_apply, Pi.single_apply, if_true,
      Pi.zero_apply, Bool.true_eq_false, false_and, if_false]
    omega

/-- Reading the books off the changes of the two contributions. -/
theorem Moved.paidExactly {e : PaySplit} {a a' : Accounts} (hsep : Separate im alias_)
    (hadm : Admissible im alias_ e.recipient e.amount e.fromL1)
    (hmoved : Moved a a'
      (canonicalOfL2 im e.recipient (e.amount - e.fromL1) e.onL1 +
        canonicalOfL1 im e.recipient e.fromL1 e.onL1)
      (wrappedOfL2 im e.recipient (e.amount - e.fromL1) e.onL1 +
        wrappedOfL1 e.recipient e.fromL1 e.onL1)
      (fun o s ↦ 0 < e.fromL1 ∧ e.onL1 = false ∧ im.uses alias_ o s))
    (hzero : 0 < e.fromL1 → e.onL1 = false →
      a'.canonical.approval (im.payer alias_) im.bridgeL1 = 0) :
    PaidExactly im alias_ e a a' := by
  have hc := hmoved.canonical.balance
  have hw := hmoved.wrapped.balance
  simp only [canonical_apply _ _ hadm.fromL1] at hc
  simp only [wrapped_apply _ _ hadm.fromL1] at hw
  have hothersL1 : ∀ x, x ≠ im.safeL1 → x ≠ im.bridgeL1 → (e.onL1 = true → x ≠ e.recipient) →
      a'.canonical.balance x = a.canonical.balance x := by
    intro x hsafe hbridge hrecipient
    have hx := hc x
    rw [if_neg fun h ↦ hrecipient h.1 h.2, if_neg hsafe, if_neg hbridge] at hx
    omega
  have hothersL2 : ∀ x, x ≠ im.safeL2 → (e.onL1 = false → x ≠ e.recipient) →
      a'.wrapped.balance x = a.wrapped.balance x := by
    intro x hsafe hrecipient
    have hx := hw x
    rw [if_neg fun h ↦ hrecipient h.1 h.2, if_neg hsafe] at hx
    omega
  constructor
  case safeL1 =>
    have hx := hc im.safeL1
    rw [if_neg fun h ↦ hadm.ne_safeL1 h.2.symm, if_pos rfl, if_neg hsep.safeL1_bridgeL1] at hx
    omega
  case safeL2 =>
    have hx := hw im.safeL2
    rw [if_neg fun h ↦ hadm.ne_safeL2 h.2.symm, if_pos rfl] at hx
    omega
  case recipientL1 =>
    intro honL1
    have hx := hc e.recipient
    rw [if_pos ⟨honL1, rfl⟩, if_neg hadm.ne_safeL1, if_neg hadm.ne_bridgeL1] at hx
    omega
  case recipientL2 =>
    intro honL1
    have hx := hw e.recipient
    rw [if_pos ⟨honL1, rfl⟩, if_neg hadm.ne_safeL2] at hx
    omega
  case policy => exact hothersL2 _ hsep.this_safeL2 fun _ ↦ hadm.ne_this.symm
  case policyAlias =>
    exact hothersL1 _ hsep.alias_safeL1 hsep.alias_bridgeL1 fun _ ↦ hadm.ne_alias.symm
  case delegate =>
    exact hothersL1 _ hsep.payer_safeL1 hsep.payer_bridgeL1 fun _ ↦ hadm.ne_payer.symm
  case othersL1 => exact hothersL1
  case othersL2 => exact hothersL2
  case bridgeApproval =>
    split
    next h => exact hzero h.1 h.2
    next h => exact hmoved.canonical.approval _ _ fun ht ↦ h ⟨ht.1, ht.2.1⟩
  case othersApproval => exact fun o s ho ↦ hmoved.canonical.approval o s fun ht ↦ ho ht.2.2
  case wrappedApproval =>
    funext o s
    exact hmoved.wrapped.approval o s id

/-- **A payment pays exactly what was signed.**  Whatever the adapter, the recipient, the amount, the
destination and the split, and whatever the books were before: when `paySplit` succeeds, SafeL1 has
paid `fromL1` and SafeL2 the rest, the recipient has the amount in the token of the chosen chain, and
the policy, its alias and the delegate hold what they held, with no approval of the bridge left. -/
theorem paySplit_paidExactly {d : DelegateStorage} {s : Storage} {w : W} {time : ℕ} {e : PaySplit}
    (hshared : SharedOutside im serve accounts)
    (hadapter : AdapterOutside im dm alias_ serve serveL1 accounts d) (hsep : Separate im alias_)
    (hok : ((paySplit im time e).run false (handle im dm alias_ serve serveL1) s (w, d)).1 =
      .ok ()) :
    PaidExactly im alias_ e (accounts w) (accounts ((paySplit im time e).run false
      (handle im dm alias_ serve serveL1) s (w, d)).2.2.1) := by
  rcases hrun : (paySplit im time e).run false (handle im dm alias_ serve serveL1) s (w, d)
    with ⟨r, s', w'⟩
  rw [hrun] at hok
  obtain rfl : r = .ok () := hok
  rw [paySplit, run_bind_eq_ok] at hrun
  obtain ⟨_, s₁, w₁, hauthorize, h⟩ := hrun
  obtain ⟨ha₁, hd₁⟩ := authorizePayment_kept hshared hauthorize
  rw [run_get_bind, run_revertIf_bind_eq_ok, run_modify_bind_eq_ok, run_bind_eq_ok] at h
  obtain ⟨-, -, _, s₂, w₂, hpay, h⟩ := h
  obtain ⟨-, -, rfl⟩ := run_modify_eq_ok.1 h
  obtain ⟨hadm, hmoved, hzero⟩ := pay_moves hshared (hd₁ ▸ hadapter) hpay
  rw [← ha₁]
  exact hmoved.paidExactly hsep hadm hzero

/-! ## A world of standard accounts

The assumptions describe accounts that exist: two standard tokens, modules that transfer what they are
asked to, and a bridge pair that locks and mints. -/

/-- The accounts around a treasury, as `caller` sees them from L1. -/
def standardWorld (im : Immutables) (caller : Address) (q : External) (a : Accounts) :
    Option (List Word) × Accounts :=
  match q.method with
  | .nonce | .rollupId => (some (Abi.ofNat 0), a)
  | .canonicalBridgeAddress =>
    (some (Abi.ofAddress (if q.target = im.bridge then im.bridgeL1 else im.bridge)), a)
  | .aliasOf .. | .policyAlias => (some (Abi.ofAddress caller), a)
  | .getTokenAllowance .. => (some [BitVec.ofNat 256 GLOBAL_LIMIT, 0, 10, 0, 0], a)
  | .balanceOf owner =>
    (some (Abi.ofNat ((if q.target = im.wrappedToken then a.wrapped else a.canonical).balance
      owner)), a)
  | .allowance owner spender =>
    (if a.canonical.approval owner spender < 2 ^ 256 then
      some (Abi.ofNat (a.canonical.approval owner spender)) else none, a)
  | .executeAllowanceTransfer safe token to_ n _ _ _ _ =>
    if token = im.wrappedToken then
      match a.wrapped.transfer safe to_ n with
      | some t => (some [], { a with wrapped := t })
      | none => (none, a)
    else
      match a.canonical.transfer safe to_ n with
      | some t => (some [], { a with canonical := t })
      | none => (none, a)
  | .approve spender n | .forceApprove spender n =>
    (some [1], { a with canonical := a.canonical.approve caller spender n })
  | .bridgeTokens token n _ recipient =>
    if token = im.wrappedToken then
      match a.wrapped.burn im.this n, a.canonical.transfer im.bridgeL1 recipient n with
      | some t, some c => (some [], ⟨c, t⟩)
      | _, _ => (none, a)
    else
      match a.canonical.transferFrom im.bridgeL1 caller im.bridgeL1 n with
      | some c => (some [], ⟨c, a.wrapped.mint recipient n⟩)
      | none => (none, a)
  | .bridgeFromL1 n recipient =>
    match a.canonical.transferFrom im.bridgeL1 caller im.bridgeL1 n with
    | some c => (some [], ⟨c, a.wrapped.mint recipient n⟩)
    | none => (none, a)
  | .pay .. => (none, a)

theorem standardWorld_view (im : Immutables) (caller : Address) (q : External) (a : Accounts)
    (hq : IsView q) : (standardWorld im caller q a).2 = a := by
  obtain ⟨target, m⟩ := q
  cases m with
  | executeAllowanceTransfer => cases hq
  | bridgeTokens => cases hq
  | approve => cases hq
  | forceApprove => cases hq
  | bridgeFromL1 => cases hq
  | pay => cases hq
  | _ => rfl

theorem standardWorld_shared (im : Immutables) (caller : Address) :
    SharedOutside im (standardWorld im caller) id where
  view := standardWorld_view im caller
  transferL2 to_ n a v a' h := by
    simp only [standardWorld, if_true] at h
    split at h
    next t ht =>
      cases h
      exact ⟨.refl _ _, Token.transfer_moves ht⟩
    next => cases h
  bridgeTokens recipient n a v a' h := by
    simp only [standardWorld, if_true] at h
    split at h
    next t c ht hc =>
      cases h
      exact ⟨Token.transfer_moves hc, Token.burn_moves ht⟩
    next => cases h

theorem standardWorld_allowance {im : Immutables} {caller target owner spender : Address}
    {a a' : Accounts} {v : List Word} {n : ℕ}
    (h : standardWorld im caller ⟨target, .allowance owner spender⟩ a = (some v, a'))
    (hv : Abi.uint256 v = some n) : n = a.canonical.approval owner spender := by
  simp only [standardWorld] at h
  split at h
  next hlt =>
    cases h
    rw [Abi.uint256_ofNat hlt] at hv
    exact (Option.some.inj hv).symm
  next => cases h

theorem standardWorld_delegate (im : Immutables) (dm : DelegateImmutables)
    (htokens : im.canonicalToken ≠ im.wrappedToken) :
    DelegateOutside im dm (standardWorld im dm.this) id where
  view := standardWorld_view im dm.this
  transferL1 to_ n a v a' h := by
    simp only [standardWorld, if_neg htokens] at h
    split at h
    next t ht =>
      cases h
      exact ⟨Token.transfer_moves ht, .refl _ _⟩
    next => cases h
  forceApprove n a v a' h := by
    cases h
    exact ⟨Token.approve_moves _ _ _ _, .refl _ _⟩
  bridgeTokens recipient n a v a' h := by
    simp only [standardWorld, if_neg htokens] at h
    split at h
    next c hc =>
      cases h
      exact ⟨Token.transferFrom_moves hc, Token.mint_moves _ _ _⟩
    next => cases h
  allowance a v a' n h hv := standardWorld_allowance h hv

theorem standardWorld_treasury (im : Immutables) (alias_ reader : Address)
    (htokens : im.canonicalToken ≠ im.wrappedToken) :
    TreasuryOutside im alias_ reader (standardWorld im alias_) id where
  aliasOf a v a' alias' h hv := by
    cases h
    rw [Abi.address_ofAddress] at hv
    exact (Option.some.inj hv).symm
  transferL1 to_ n a v a' h := by
    simp only [standardWorld, if_neg htokens] at h
    split at h
    next t ht =>
      cases h
      exact ⟨Token.transfer_moves ht, .refl _ _⟩
    next => cases h
  approve n a v a' h := by
    cases h
    exact ⟨Token.approve_moves _ _ _ _, .refl _ _⟩
  bridgeFromL1 recipient n a v a' h := by
    simp only [standardWorld] at h
    split at h
    next c hc =>
      cases h
      exact ⟨Token.transferFrom_moves hc, Token.mint_moves _ _ _⟩
    next => cases h
  allowance a v a' n h hv := standardWorld_allowance h hv

/-- A deployment with the given adapter. -/
def sampleImmutables (adapter : Adapter) : Immutables where
  this := 1
  safeL1Proxy := 2
  safeL1 := 3
  safeL2 := 4
  canonicalToken := 5
  wrappedToken := 6
  allowanceL2 := 7
  allowanceL1Proxy := 8
  tokenL1Proxy := 9
  rollupId := 42
  bridge := 10
  bridgeL1 := 11
  adapter := adapter

/-- Books in which both Safes hold something. -/
def sampleAccounts : Accounts where
  canonical := ⟨fun x ↦ if x = 3 then 100 else 0, fun _ _ ↦ 0⟩
  wrapped := ⟨fun x ↦ if x = 4 then 100 else 0, fun _ _ ↦ 0⟩

/-- A payment on L2 to which both Safes contribute. -/
def samplePayment : PaySplit where
  sender := 4
  callHash := 0
  recipient := 16
  amount := 5
  onL1 := false
  expectedEpoch := 0
  fromL1 := 3

/-- The payment goes through in the world of standard accounts, in both adapters, and pays exactly
what was signed. -/
theorem paySplit_paidExactly_sample :
    (let im := sampleImmutables (.treasury 12)
     let dm : DelegateImmutables := ⟨0, 0, 0, 0, 0, 0⟩
     let run := (paySplit im 0 samplePayment).run false
       (handle im dm 15 (standardWorld im 15) (standardWorld im 0)) .initial
       (sampleAccounts, ⟨0, false⟩)
     run.1 = .ok () ∧ PaidExactly im 15 samplePayment sampleAccounts run.2.2.1) ∧
    (let im := sampleImmutables (.standard 12 13 14)
     let dm : DelegateImmutables := ⟨13, 3, 20, 5, 11, 42⟩
     let run := (paySplit im 0 samplePayment).run false
       (handle im dm 15 (standardWorld im 15) (standardWorld im 13)) .initial
       (sampleAccounts, ⟨15, false⟩)
     run.1 = .ok () ∧ PaidExactly im 15 samplePayment sampleAccounts run.2.2.1) := by
  refine ⟨⟨by decide +kernel, ?_⟩, ⟨by decide +kernel, ?_⟩⟩
  · exact paySplit_paidExactly (standardWorld_shared _ _)
      (standardWorld_treasury _ _ _ (by decide))
      ⟨by decide, by decide, by decide, by decide, by decide, by decide⟩ (by decide +kernel)
  · exact paySplit_paidExactly (standardWorld_shared _ _)
      ⟨rfl, ⟨rfl, rfl, rfl, rfl⟩, .inr rfl, standardWorld_delegate _ ⟨13, 3, 20, 5, 11, 42⟩
        (by decide)⟩
      ⟨by decide, by decide, by decide, by decide, by decide, by decide⟩ (by decide +kernel)

end Treasury
