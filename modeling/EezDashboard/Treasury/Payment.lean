import EezDashboard.Contract.Ledger
import EezDashboard.Treasury.Delegate

/-!
# What a payment moves

A payment of the policy goes through different hands on each of its routes: the Safe's allowance
module, the policy, its alias on L1, the delegate, the two bridges.  Here the code of both adapters
is run among accounts of which only the stated behaviour is assumed, and the books of the two tokens
are compared before and after.

What each contribution moves is written down once as a signed change of the balances, and every
function is shown to make its share of it; `paySplit_moves` adds them up.
-/

set_option autoImplicit false

namespace Treasury

open Contract Prog

/-! ## The books -/

/-- The books of the canonical token on L1 and of the wrapped token on L2. -/
structure Accounts where
  canonical : Token Address
  wrapped : Token Address

/-- The balances change by `c` and `w`, and no approval outside `touched`, which concerns the
canonical token, changes. -/
structure Moved (a a' : Accounts) (c w : Address → ℤ) (touched : Address → Address → Prop) :
    Prop where
  canonical : a.canonical.Moves a'.canonical c touched
  wrapped : a.wrapped.Moves a'.wrapped w noApproval

theorem Moved.refl (a : Accounts) (touched : Address → Address → Prop) : Moved a a 0 0 touched :=
  ⟨.refl _ _, .refl _ _⟩

theorem Moved.trans {a a' a'' : Accounts} {c c' w w' : Address → ℤ}
    {touched : Address → Address → Prop} (h : Moved a a' c w touched)
    (h' : Moved a' a'' c' w' touched) : Moved a a'' (c + c') (w + w') touched :=
  ⟨(h.canonical.trans h'.canonical).mono fun _ _ ht ↦ ht.elim id id,
    (h.wrapped.trans h'.wrapped).mono fun _ _ ht ↦ ht.elim id id⟩

theorem Moved.mono {a a' : Accounts} {c w : Address → ℤ} {touched touched' : Address → Address → Prop}
    (h : Moved a a' c w touched) (ht : ∀ o s, touched o s → touched' o s) :
    Moved a a' c w touched' :=
  ⟨h.canonical.mono ht, h.wrapped⟩

/-- The same change, written differently. -/
theorem Moved.congr {a a' : Accounts} {c c' w w' : Address → ℤ}
    {touched : Address → Address → Prop} (h : Moved a a' c w touched) (hc : c = c') (hw : w = w') :
    Moved a a' c' w' touched := by
  rwa [← hc, ← hw]

/-! ## The environment -/

variable {W : Type}

/-- The account the policy reaches its delegate at, in the adapter that has one. -/
def Immutables.delegateProxy (im : Immutables) : Option Address :=
  match im.adapter with
  | .treasury _ => none
  | .standard _ _ proxy => some proxy

/-- A call that someone else answers than the delegate. -/
def elsewhere (serve : External → W → Option (List Word) × W) (q : External) (s : Storage)
    (w : W × DelegateStorage) : Option (List Word) × Storage × W × DelegateStorage :=
  ((serve q w.1).1, s, (serve q w.1).2, w.2)

/-- The environment of the delegate. -/
def delegateHandle (serve : External → W → Option (List Word) × W) (q : External)
    (d : DelegateStorage) (w : W) : Option (List Word) × DelegateStorage × W :=
  ((serve q w).1, d, (serve q w).2)

/-- The environment of the policy.  `serve` answers its calls, on L2 and, through the proxies, on
L1, and `serveL1` those of the delegate `dm`, whose own code is run when the policy calls it as
`alias_`. -/
def handle (im : Immutables) (dm : DelegateImmutables) (alias_ : Address)
    (serve serveL1 : External → W → Option (List Word) × W) (q : External) (s : Storage)
    (w : W × DelegateStorage) : Option (List Word) × Storage × W × DelegateStorage :=
  match q.method with
  | .policyAlias =>
    if im.delegateProxy = some q.target then (some (Abi.ofAddress w.2.policyAlias), s, w)
    else elsewhere serve q s w
  | .pay recipient amount onL1 =>
    if im.delegateProxy = some q.target then
      match (delegatePay dm alias_ recipient amount onL1).run false (delegateHandle serveL1)
          w.2 w.1 with
      | (.ok _, d, w') => (some [], s, w', d)
      | (.error _, d, w') => (none, s, w', d)
    else elsewhere serve q s w
  | _ => elsewhere serve q s w

/-- The account that spends SafeL1's allowance, and the only one to approve the L1 bridge. -/
def Immutables.payer (im : Immutables) (alias_ : Address) : Address :=
  match im.adapter with
  | .treasury _ => alias_
  | .standard _ executor _ => executor

/-- The approval the payment uses on L1. -/
def Immutables.uses (im : Immutables) (alias_ : Address) : Address → Address → Prop :=
  approvalOf (im.payer alias_) im.bridgeL1

/-- What is assumed of the accounts the policy calls in both adapters: view calls leave the books
alone, the module on L2 transfers exactly what is asked from SafeL2, and the bridge burns what it is
given and has its peer release as much. -/
structure SharedOutside (im : Immutables) (serve : External → W → Option (List Word) × W)
    (accounts : W → Accounts) : Prop where
  view : ∀ q w, IsView q → accounts (serve q w).2 = accounts w
  transferL2 : ∀ to_ n w v w',
    serve ⟨im.allowanceL2, .executeAllowanceTransfer im.safeL2 im.wrappedToken to_ n 0 0 im.this []⟩
      w = (some v, w') →
    Moved (accounts w) (accounts w') 0 (shift im.safeL2 to_ n) noApproval
  bridgeTokens : ∀ recipient n w v w',
    serve ⟨im.bridge, .bridgeTokens im.wrappedToken n 0 recipient⟩ w = (some v, w') →
    Moved (accounts w) (accounts w') (shift im.bridgeL1 recipient n) (-Pi.single im.this (n : ℤ))
      noApproval

/-- What is assumed besides of the calls `TreasuryPolicy` makes on L1, where it acts as `alias_`: the
registry names that alias, the module transfers exactly what is asked from SafeL1, the token
approves and reports approvals as a standard token, and the bridge locks what the alias approved and
mints as much. -/
structure TreasuryOutside (im : Immutables) (alias_ reader : Address)
    (serve : External → W → Option (List Word) × W) (accounts : W → Accounts) : Prop where
  aliasOf : ∀ w v w' a, serve ⟨reader, .aliasOf im.this im.rollupId⟩ w = (some v, w') →
    Abi.address v = some a → a = alias_
  transferL1 : ∀ to_ n w v w',
    serve ⟨im.allowanceL1Proxy, .executeAllowanceTransfer im.safeL1 im.canonicalToken to_ n 0 0 alias_
      []⟩ w = (some v, w') →
    Moved (accounts w) (accounts w') (shift im.safeL1 to_ n) 0 noApproval
  approve : ∀ n w v w', serve ⟨im.tokenL1Proxy, .approve im.bridgeL1 n⟩ w = (some v, w') →
    Moved (accounts w) (accounts w') 0 0 (approvalOf alias_ im.bridgeL1)
  bridgeFromL1 : ∀ recipient n w v w',
    serve ⟨im.bridge, .bridgeFromL1 n recipient⟩ w = (some v, w') →
    Moved (accounts w) (accounts w') (shift alias_ im.bridgeL1 n) (Pi.single recipient (n : ℤ))
      (approvalOf alias_ im.bridgeL1)
  allowance : ∀ w v w' n,
    serve ⟨im.tokenL1Proxy, .allowance alias_ im.bridgeL1⟩ w = (some v, w') →
    Abi.uint256 v = some n → n = (accounts w).canonical.approval alias_ im.bridgeL1

/-- What is assumed of the calls the delegate makes on L1, in the same terms. -/
structure DelegateOutside (im : Immutables) (dm : DelegateImmutables)
    (serve : External → W → Option (List Word) × W) (accounts : W → Accounts) : Prop where
  view : ∀ q w, IsView q → accounts (serve q w).2 = accounts w
  transferL1 : ∀ to_ n w v w',
    serve ⟨dm.allowance, .executeAllowanceTransfer im.safeL1 im.canonicalToken to_ n 0 0 dm.this []⟩
      w = (some v, w') →
    Moved (accounts w) (accounts w') (shift im.safeL1 to_ n) 0 noApproval
  forceApprove : ∀ n w v w',
    serve ⟨im.canonicalToken, .forceApprove im.bridgeL1 n⟩ w = (some v, w') →
    Moved (accounts w) (accounts w') 0 0 (approvalOf dm.this im.bridgeL1)
  bridgeTokens : ∀ recipient n w v w',
    serve ⟨im.bridgeL1, .bridgeTokens im.canonicalToken n im.rollupId recipient⟩ w = (some v, w') →
    Moved (accounts w) (accounts w') (shift dm.this im.bridgeL1 n) (Pi.single recipient (n : ℤ))
      (approvalOf dm.this im.bridgeL1)
  allowance : ∀ w v w' n,
    serve ⟨im.canonicalToken, .allowance dm.this im.bridgeL1⟩ w = (some v, w') →
    Abi.uint256 v = some n → n = (accounts w).canonical.approval dm.this im.bridgeL1

/-- The immutables of the delegate the client compares with the policy's before it accepts a
treasury. -/
structure Bound (im : Immutables) (dm : DelegateImmutables) : Prop where
  safe : dm.safe = im.safeL1
  token : dm.token = im.canonicalToken
  bridge : dm.bridge = im.bridgeL1
  rollupId : dm.rollupId = im.rollupId

/-- The assumptions on the L1 side of an adapter.  The delegate is the policy's own, and the Safe has
bound it to the policy's alias, if at all. -/
def AdapterOutside (im : Immutables) (dm : DelegateImmutables) (alias_ : Address)
    (serve serveL1 : External → W → Option (List Word) × W) (accounts : W → Accounts)
    (d : DelegateStorage) : Prop :=
  match im.adapter with
  | .treasury reader => TreasuryOutside im alias_ reader serve accounts
  | .standard _ executor _ =>
    dm.this = executor ∧ Bound im dm ∧ (d.policyAlias = 0 ∨ d.policyAlias = alias_) ∧
      DelegateOutside im dm serveL1 accounts

/-! ## The calls of the policy -/

section Policy

variable {im : Immutables} {dm : DelegateImmutables} {alias_ : Address}
  {serve serveL1 : External → W → Option (List Word) × W} {accounts : W → Accounts}

/-- The methods that are not methods of the delegate. -/
def Method.other : Method → Bool
  | .policyAlias | .pay .. => false
  | _ => true

/-- Calls to anyone but the delegate are served directly. -/
theorem handle_other {q : External} (hq : q.method.other = true) {s s' : Storage}
    {w w' : W × DelegateStorage} {r : Option (List Word)}
    (h : handle im dm alias_ serve serveL1 q s w = (r, s', w')) :
    serve q w.1 = (r, w'.1) ∧ s' = s ∧ w'.2 = w.2 := by
  have helse : handle im dm alias_ serve serveL1 q s w = elsewhere serve q s w := by
    obtain ⟨target, m⟩ := q
    cases m with
    | policyAlias => cases hq
    | pay => cases hq
    | _ => rfl
  rw [helse, elsewhere] at h
  cases h
  exact ⟨rfl, rfl, rfl⟩

theorem run_ask_other {q : External} (hq : q.method.other = true) {β : Type}
    {decode : List Word → Option β} {b : β} {s s' : Storage} {w w' : W × DelegateStorage}
    (h : (ask q decode : PolicyM β).run false (handle im dm alias_ serve serveL1) s w =
      (.ok b, s', w')) :
    ∃ v, serve q w.1 = (some v, w'.1) ∧ decode v = some b ∧ s' = s ∧ w'.2 = w.2 := by
  obtain ⟨v, hv, hb⟩ := run_ask_eq_ok.1 h
  obtain ⟨hserve, hs, hd⟩ := handle_other hq hv
  exact ⟨v, hserve, hb, hs, hd⟩

/-- What the policy, the books and the delegate hold. -/
def seen (accounts : W → Accounts) (s : Storage) (w : W × DelegateStorage) :
    Storage × Accounts × DelegateStorage :=
  (s, accounts w.1, w.2)

/-- A view call leaves all of it alone. -/
theorem handle_view (hout : SharedOutside im serve accounts) (q : External) (s : Storage)
    (w : W × DelegateStorage) (hq : IsView q) :
    seen accounts (handle im dm alias_ serve serveL1 q s w).2.1
      (handle im dm alias_ serve serveL1 q s w).2.2 = seen accounts s w := by
  obtain ⟨target, m⟩ := q
  have hview : accounts (serve ⟨target, m⟩ w.1).2 = accounts w.1 := hout.view _ _ hq
  have helse : seen accounts (elsewhere serve ⟨target, m⟩ s w).2.1
      (elsewhere serve ⟨target, m⟩ s w).2.2 = seen accounts s w := by
    simp only [seen, elsewhere, hview]
  cases m with
  | pay => cases hq
  | policyAlias =>
    unfold handle
    dsimp only
    split
    · rfl
    · exact helse
  | _ => exact helse

/-- So does code that makes view calls only. -/
theorem run_view (hout : SharedOutside im serve accounts) {α : Type} {x : PolicyM α}
    (hx : x.Quiet IsView) {s s' : Storage} {w w' : W × DelegateStorage} {a : α}
    (h : x.run false (handle im dm alias_ serve serveL1) s w = (.ok a, s', w')) :
    s' = s ∧ accounts w'.1 = accounts w.1 ∧ w'.2 = w.2 := by
  have hrun := hx.run false (handle im dm alias_ serve serveL1) (seen accounts)
    (handle_view hout) s w
  rw [h] at hrun
  simpa only [seen, Prod.mk.injEq] using hrun

/-! ## The contributions -/

/-- What the L2 contribution moves of the canonical token. -/
def canonicalOfL2 (im : Immutables) (recipient : Address) (n : ℕ) (onL1 : Bool) : Address → ℤ :=
  if onL1 then shift im.bridgeL1 recipient n else 0

/-- What the L2 contribution moves of the wrapped token. -/
def wrappedOfL2 (im : Immutables) (recipient : Address) (n : ℕ) (onL1 : Bool) : Address → ℤ :=
  if onL1 then -Pi.single im.safeL2 (n : ℤ) else shift im.safeL2 recipient n

/-- What the L1 contribution moves of the canonical token. -/
def canonicalOfL1 (im : Immutables) (recipient : Address) (n : ℕ) (onL1 : Bool) : Address → ℤ :=
  shift im.safeL1 (if onL1 then recipient else im.bridgeL1) n

/-- What the L1 contribution moves of the wrapped token. -/
def wrappedOfL1 (recipient : Address) (n : ℕ) (onL1 : Bool) : Address → ℤ :=
  if onL1 then 0 else Pi.single recipient (n : ℤ)

/-- The L2 contribution leaves SafeL2 and reaches the recipient, directly or over the bridge. -/
theorem payL2_moves (hout : SharedOutside im serve accounts) {recipient : Address} {n : ℕ}
    {onL1 : Bool} (hn : n < 2 ^ 96) {s s' : Storage} {w w' : W × DelegateStorage} {u : Unit}
    (h : (payL2 im recipient n onL1).run false (handle im dm alias_ serve serveL1) s w =
      (.ok u, s', w')) :
    s' = s ∧ w'.2 = w.2 ∧ Moved (accounts w.1) (accounts w'.1) (canonicalOfL2 im recipient n onL1)
      (wrappedOfL2 im recipient n onL1) noApproval := by
  rw [payL2, run_bind_eq_ok] at h
  obtain ⟨beforeBalance, s₁, w₁, hbefore, h⟩ := h
  obtain ⟨rfl, ha₁, hd₁⟩ := run_view hout (quiet_view rfl _) hbefore
  rw [run_bind_eq_ok] at h
  obtain ⟨_, s₂, w₂, htransfer, h⟩ := h
  obtain ⟨v, hserve, -, rfl, hd₂⟩ := run_ask_other rfl htransfer
  rw [Nat.mod_eq_of_lt hn] at hserve
  have hmoved := hout.transferL2 _ _ _ _ _ hserve
  rw [run_bind_eq_ok] at h
  obtain ⟨_, s₃, w₃, hbridge, h⟩ := h
  rw [run_bind_eq_ok] at h
  obtain ⟨afterBalance, s₄, w₄, hafter, h⟩ := h
  obtain ⟨rfl, ha₄, hd₄⟩ := run_view hout (quiet_view rfl _) hafter
  obtain ⟨-, rfl, rfl⟩ := run_revertIf_eq_ok.1 h
  rw [← ha₁, ha₄]
  rcases run_when_eq_ok.1 hbridge with ⟨honL1, hbridge⟩ | ⟨honL1, rfl, rfl⟩
  · obtain ⟨v', hserve', -, rfl, hd₃⟩ := run_ask_other rfl hbridge
    subst honL1
    refine ⟨rfl, by rw [hd₄, hd₃, hd₂, hd₁], (hmoved.trans
      (hout.bridgeTokens _ _ _ _ _ hserve')).congr ?_ ?_⟩
    · simp only [canonicalOfL2, if_true, zero_add]
    · simp only [wrappedOfL2, if_true, shift]
      abel
  · rw [Bool.not_eq_true] at honL1
    subst honL1
    exact ⟨rfl, by rw [hd₄, hd₂, hd₁], hmoved⟩

/-! ## The delegate -/

theorem run_ask_delegate {q : External} {β : Type} {decode : List Word → Option β} {b : β}
    {d d' : DelegateStorage} {w w' : W}
    (h : (ask q decode : DelegateM β).run false (delegateHandle serveL1) d w = (.ok b, d', w')) :
    ∃ v, serveL1 q w = (some v, w') ∧ decode v = some b ∧ d' = d := by
  obtain ⟨v, hv, hb⟩ := run_ask_eq_ok.1 h
  simp only [delegateHandle, Prod.mk.injEq] at hv
  exact ⟨v, Prod.ext hv.1 hv.2.2, hb, hv.2.1.symm⟩

theorem DelegateOutside.kept (hout : DelegateOutside im dm serveL1 accounts) {q : External}
    {r : Option (List Word)} {w w' : W} (h : serveL1 q w = (r, w')) (hq : IsView q) :
    accounts w' = accounts w := by
  have hview := hout.view q w hq
  rwa [h] at hview

/-- What the delegate has received leaves it over the bridge, and the approval it gave is used up. -/
theorem bridgeToL2_moves {d d' : DelegateStorage} (hbound : Bound im dm)
    (hout : DelegateOutside im dm serveL1 accounts) {recipient : Address} {n b : ℕ} {w w' : W}
    {u : Unit}
    (h : (bridgeToL2 dm recipient n b).run false (delegateHandle serveL1) d w = (.ok u, d', w')) :
    d' = d ∧ Moved (accounts w) (accounts w') (shift dm.this im.bridgeL1 n)
      (Pi.single recipient (n : ℤ)) (approvalOf dm.this im.bridgeL1) ∧
      (accounts w').canonical.approval dm.this im.bridgeL1 = 0 := by
  rw [bridgeToL2, hbound.token, hbound.bridge, hbound.rollupId, run_bind_eq_ok] at h
  obtain ⟨received, d₁, w₁, hreceived, h⟩ := h
  obtain ⟨v₁, hserve₁, -, rfl⟩ := run_ask_delegate hreceived
  have ha₁ := hout.kept hserve₁ rfl
  rw [run_checkedAdd_bind_eq_ok, run_revertIf_bind_eq_ok, run_bind_eq_ok] at h
  obtain ⟨-, -, _, d₂, w₂, happrove, h⟩ := h
  rw [run_bind_eq_ok] at h
  obtain ⟨_, d₃, w₃, hbridge, h⟩ := h
  rw [run_bind_eq_ok] at h
  obtain ⟨left, d₄, w₄, hleft, h⟩ := h
  obtain ⟨hzero, rfl, rfl⟩ := run_revertIf_eq_ok.1 h
  obtain ⟨v₂, hserve₂, -, rfl⟩ := run_ask_delegate happrove
  obtain ⟨v₃, hserve₃, -, rfl⟩ := run_ask_delegate hbridge
  obtain ⟨v₄, hserve₄, hdecode, rfl⟩ := run_ask_delegate hleft
  have ha₄ := hout.kept hserve₄ rfl
  have hmoved := (hout.forceApprove _ _ _ _ hserve₂).trans (hout.bridgeTokens _ _ _ _ _ hserve₃)
  rw [zero_add, zero_add] at hmoved
  have hallowance := hout.allowance _ _ _ _ hserve₄ hdecode
  refine ⟨rfl, ?_, ?_⟩
  · rw [← ha₁, ha₄]
    exact hmoved
  · rw [ha₄, ← hallowance]
    exact not_not.1 hzero

/-- **A payment of the delegate** moves the amount from SafeL1 to the recipient, on L1 directly and
otherwise over the bridge, and only its policy can ask for it. -/
theorem delegatePay_moves {d d' : DelegateStorage} (hbound : Bound im dm)
    (hout : DelegateOutside im dm serveL1 accounts) {sender recipient : Address} {n : ℕ}
    {onL1 : Bool} {w w' : W} {u : Unit}
    (h : (delegatePay dm sender recipient n onL1).run false (delegateHandle serveL1) d w =
      (.ok u, d', w')) :
    sender = d.policyAlias ∧ Moved (accounts w) (accounts w') (canonicalOfL1 im recipient n onL1)
      (wrappedOfL1 recipient n onL1) (fun o s ↦ onL1 = false ∧ approvalOf dm.this im.bridgeL1 o s) ∧
      (onL1 = false → (accounts w').canonical.approval dm.this im.bridgeL1 = 0) := by
  rw [delegatePay, hbound.token, hbound.safe] at h
  rw [run_get_bind, run_revertIf_bind_eq_ok, run_revertIf_bind_eq_ok, run_revertIf_bind_eq_ok,
    run_modify_bind_eq_ok, run_bind_eq_ok] at h
  obtain ⟨hsender, -, hargs, -, before, d₁, w₁, hbefore, h⟩ := h
  rw [run_bind_eq_ok] at h
  obtain ⟨_, d₂, w₂, htransfer, h⟩ := h
  rw [run_bind_eq_ok] at h
  obtain ⟨_, d₃, w₃, hbridge, h⟩ := h
  rw [run_bind_eq_ok] at h
  obtain ⟨after, d₄, w₄, hafter, h⟩ := h
  rw [run_revertIf_bind_eq_ok] at h
  obtain ⟨-, -, rfl⟩ := run_modify_eq_ok.1 h.2
  obtain ⟨v₁, hserve₁, -, rfl⟩ := run_ask_delegate hbefore
  obtain ⟨v₂, hserve₂, -, rfl⟩ := run_ask_delegate htransfer
  obtain ⟨v₄, hserve₄, -, rfl⟩ := run_ask_delegate hafter
  have ha₁ := hout.kept hserve₁ rfl
  have ha₄ := hout.kept hserve₄ rfl
  rw [Nat.mod_eq_of_lt (by omega)] at hserve₂
  have hmoved := hout.transferL1 _ _ _ _ _ hserve₂
  refine ⟨not_not.1 hsender, ?_⟩
  rw [← ha₁, ha₄]
  rcases run_when_eq_ok.1 hbridge with ⟨honL1, hrun⟩ | ⟨honL1, -, rfl⟩
  · subst honL1
    obtain ⟨-, hbridged, hzero⟩ := bridgeToL2_moves hbound hout hrun
    refine ⟨?_, fun _ ↦ hzero⟩
    have hsum := (hmoved.mono fun _ _ ht ↦ ht.elim).trans hbridged
    refine (hsum.congr ?_ ?_).mono fun o s ht ↦ ⟨rfl, ht⟩
    · exact shift_add_shift _ _ _ _
    · rw [zero_add]
      rfl
  · rw [Bool.not_eq_false] at honL1
    subst honL1
    exact ⟨hmoved.mono fun _ _ ht ↦ ht.elim, fun ht ↦ Bool.noConfusion ht⟩

/-! ## The L1 contribution -/

/-- The L1 contribution of `TreasuryPolicy`. -/
theorem payL1_treasury_moves {reader : Address} (hadapter : im.adapter = .treasury reader)
    (hshared : SharedOutside im serve accounts)
    (hout : TreasuryOutside im alias_ reader serve accounts) {recipient : Address} {n : ℕ}
    {onL1 : Bool} (hn : n < 2 ^ 96) {s s' : Storage} {w w' : W × DelegateStorage} {u : Unit}
    (h : (payL1 im alias_ recipient n onL1).run false (handle im dm alias_ serve serveL1) s w =
      (.ok u, s', w')) :
    s' = s ∧ Moved (accounts w.1) (accounts w'.1) (canonicalOfL1 im recipient n onL1)
      (wrappedOfL1 recipient n onL1) (fun o s ↦ onL1 = false ∧ approvalOf alias_ im.bridgeL1 o s) ∧
      (onL1 = false → (accounts w'.1).canonical.approval alias_ im.bridgeL1 = 0) := by
  simp only [payL1, hadapter] at h
  rw [run_bind_eq_ok] at h
  obtain ⟨before, s₁, w₁, hbefore, h⟩ := h
  obtain ⟨rfl, ha₁, -⟩ := run_view hshared (.ite (.ret _) (quiet_view rfl _)) hbefore
  rw [run_bind_eq_ok] at h
  obtain ⟨_, s₂, w₂, htransfer, h⟩ := h
  obtain ⟨v₂, hserve₂, -, rfl, -⟩ := run_ask_other rfl htransfer
  rw [Nat.mod_eq_of_lt hn] at hserve₂
  have hmoved := hout.transferL1 _ _ _ _ _ hserve₂
  rw [← ha₁]
  rcases run_when_eq_ok.1 h with ⟨honL1, hrest⟩ | ⟨honL1, rfl, rfl⟩
  · subst honL1
    rw [run_bind_eq_ok] at hrest
    obtain ⟨_, s₃, w₃, happrove, hrest⟩ := hrest
    obtain ⟨v₃, hserve₃, -, rfl, -⟩ := run_ask_other rfl happrove
    rw [run_revertIf_bind_eq_ok, run_bind_eq_ok] at hrest
    obtain ⟨-, _, s₄, w₄, hbridge, hrest⟩ := hrest
    obtain ⟨v₄, hserve₄, -, rfl, -⟩ := run_ask_other rfl hbridge
    rw [run_bind_eq_ok] at hrest
    obtain ⟨_, s₅, w₅, hafter, hrest⟩ := hrest
    obtain ⟨rfl, ha₅, -⟩ := run_view hshared (quiet_view rfl _) hafter
    rw [run_revertIf_bind_eq_ok, run_bind_eq_ok] at hrest
    obtain ⟨-, left, s₆, w₆, hleft, hrest⟩ := hrest
    obtain ⟨rfl, ha₆, -⟩ := run_view hshared (quiet_view rfl _) hleft
    obtain ⟨v₆, hserve₆, hdecode, -, -⟩ := run_ask_other rfl hleft
    obtain ⟨hzero, rfl, rfl⟩ := run_revertIf_eq_ok.1 hrest
    have hsum := (hmoved.mono fun _ _ ht ↦ ht.elim).trans ((hout.approve _ _ _ _ hserve₃).trans
      (hout.bridgeFromL1 _ _ _ _ _ hserve₄))
    have hallowance := hout.allowance _ _ _ _ hserve₆ hdecode
    rw [ha₆, ha₅]
    refine ⟨rfl, (hsum.congr ?_ ?_).mono fun o s ht ↦ ⟨rfl, ht⟩, fun _ ↦ ?_⟩
    · rw [zero_add]
      exact shift_add_shift _ _ _ _
    · rw [zero_add, zero_add]
      rfl
    · rw [← ha₅, ← hallowance]
      exact not_not.1 hzero
  · rw [Bool.not_eq_false] at honL1
    subst honL1
    exact ⟨rfl, hmoved.mono fun _ _ ht ↦ ht.elim, fun ht ↦ Bool.noConfusion ht⟩

/-- **The L1 contribution** leaves SafeL1 and reaches the recipient, directly or over the bridge, in
both adapters, and leaves no approval of the bridge. -/
theorem payL1_moves (hshared : SharedOutside im serve accounts) {d : DelegateStorage}
    (hadapter : AdapterOutside im dm alias_ serve serveL1 accounts d) {recipient : Address} {n : ℕ}
    {onL1 : Bool} (hn : n < 2 ^ 96) {s s' : Storage} {w w' : W × DelegateStorage} {u : Unit}
    (h : (payL1 im alias_ recipient n onL1).run false (handle im dm alias_ serve serveL1) s w =
      (.ok u, s', w')) :
    s' = s ∧ Moved (accounts w.1) (accounts w'.1) (canonicalOfL1 im recipient n onL1)
      (wrappedOfL1 recipient n onL1) (fun o s ↦ onL1 = false ∧ im.uses alias_ o s) ∧
      (onL1 = false → (accounts w'.1).canonical.approval (im.payer alias_) im.bridgeL1 = 0) := by
  unfold AdapterOutside at hadapter
  unfold Immutables.uses Immutables.payer
  cases ha : im.adapter with
  | treasury reader =>
    rw [ha] at hadapter
    exact payL1_treasury_moves ha hshared hadapter hn h
  | standard bridgeL1Proxy executor proxy =>
    rw [ha] at hadapter
    obtain ⟨rfl, hbound, -, hout⟩ := hadapter
    simp only [payL1, ha] at h
    obtain ⟨v, hcall, -⟩ := run_ask_eq_ok.1 h
    have hproxy : im.delegateProxy = some proxy := by rw [Immutables.delegateProxy, ha]
    simp only [handle, hproxy, if_true] at hcall
    split at hcall
    next u' d' w₁ hrun =>
      cases hcall
      obtain ⟨-, hmoved, hzero⟩ := delegatePay_moves hbound hout hrun
      exact ⟨rfl, hmoved, hzero⟩
    next => cases hcall

end Policy

end Treasury
