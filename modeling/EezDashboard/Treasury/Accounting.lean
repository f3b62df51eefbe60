import Mathlib
import EezDashboard.Treasury.Policy

/-!
# The budget of an epoch

The policy counts what it pays in `spent`, one counter for each period of ten minutes, and checks
the counter before it hands control to the allowance module, the bridge, the tokens and the proxies.
This file shows that no behaviour of those, and no caller, can overdraw an epoch, move the counter
of another one, or make the counter differ from the `Paid` events.

A frame entered while another one executes is either static, when it was reached through the view
calls made before the flag is set, or finds the flag set; `Guarded` says so, and either way the
frame cannot return.
-/

set_option autoImplicit false

namespace Treasury

open Contract Prog

/-! ## What the events add up to -/

/-- The contribution of an event to an epoch: `fromL1 + fromL2` of a `Paid` event. -/
def Event.paidIn (epoch : ℕ) : Event → ℕ
  | .l1PaymentAuthorized .. => 0
  | .paid _ _ _ _ fromL1 fromL2 epoch' => if epoch' = epoch then fromL1 + fromL2 else 0

/-- The sum of `fromL1 + fromL2` over the `Paid` events of an epoch. -/
def paidIn (log : List Event) (epoch : ℕ) : ℕ := (log.map (Event.paidIn epoch)).sum

theorem paidIn_append (log log' : List Event) (epoch : ℕ) :
    paidIn (log ++ log') epoch = paidIn log epoch + paidIn log' epoch := by
  rw [paidIn, List.map_append, List.sum_append, paidIn, paidIn]

/-- Between payments: the flag is down, and each counter is within the limit and is the sum of the
events of its epoch. -/
structure Settled (s : Storage) : Prop where
  idle : s.entered = false
  limit : ∀ epoch, s.spent epoch ≤ GLOBAL_LIMIT
  paid : ∀ epoch, s.spent epoch = paidIn s.log epoch

theorem settled_initial : Settled Storage.initial :=
  ⟨rfl, fun _ ↦ Nat.zero_le _, fun _ ↦ rfl⟩

/-- The storage after a payment, with the events `authorized` of the authorization. -/
def Storage.pay (s : Storage) (im : Immutables) (epoch : ℕ) (recipient : Address) (amount : ℕ)
    (onL1 : Bool) (fromL1 : ℕ) : Storage :=
  { s with
    spent := Function.update s.spent epoch (s.spent epoch + amount)
    log := s.log ++ [.paid im.canonicalToken recipient onL1 amount fromL1 (amount - fromL1) epoch] }

/-- A payment within the limit settles again. -/
theorem Settled.pay {s : Storage} (h : Settled s) (im : Immutables) {epoch : ℕ}
    (recipient : Address) {amount : ℕ} (onL1 : Bool) {fromL1 : ℕ} (hfrom : fromL1 ≤ amount)
    (hlimit : s.spent epoch + amount ≤ GLOBAL_LIMIT) :
    Settled (s.pay im epoch recipient amount onL1 fromL1) := by
  refine ⟨h.idle, fun e ↦ ?_, fun e ↦ ?_⟩
  · by_cases he : e = epoch
    · subst he
      simpa [Storage.pay] using hlimit
    · simpa [Storage.pay, he] using h.limit e
  · have hpaid := h.paid e
    by_cases he : e = epoch
    · subst he
      simp only [Storage.pay, Function.update_self, paidIn_append, hpaid]
      simp only [paidIn, List.map_cons, List.map_nil, List.sum_cons, List.sum_nil, Event.paidIn,
        if_true]
      omega
    · have he' : epoch ≠ e := fun h' ↦ he h'.symm
      simp [Storage.pay, he, he', hpaid, paidIn, Event.paidIn]

/-! ## What holds when a frame is entered -/

/-- A frame entered while another one executes is static or finds the flag set; any other frame
finds a settled storage. -/
structure Guarded (f : Frame) (s : Storage) : Prop where
  limit : ∀ epoch, s.spent epoch ≤ GLOBAL_LIMIT
  locked : f.nested = true → f.static = true ∨ s.entered = true
  settled : f.nested = false → Settled s

/-- A nested frame leaves the storage alone, and every frame leaves it settled. -/
structure Keeps (f : Frame) (s s' : Storage) : Prop where
  nested : f.nested = true → s' = s
  settled : Settled s → Settled s'

/-- What a frame of the policy leaves behind. -/
structure Accounted (r : Record PaySplit Storage) : Prop where
  before : ∀ epoch, r.before.spent epoch ≤ GLOBAL_LIMIT
  after : ∀ epoch, r.after.spent epoch ≤ GLOBAL_LIMIT
  returned : r.returned = true → ∀ epoch, epoch ≠ r.frame.time / PERIOD →
    r.after.spent epoch = r.before.spent epoch
  nested : r.frame.nested = true → r.returned = false

section Frames

variable {im : Immutables} {f : Frame} {s : Storage}

/-- While the flag is up, or in a view call, whoever is called finds the policy guarded. -/
theorem guarded_inner (hlimit : ∀ epoch, s.spent epoch ≤ GLOBAL_LIMIT) {view : Bool}
    (h : s.entered = true ∨ view = true ∨ f.static = true) : Guarded (f.inner view) s := by
  refine ⟨hlimit, fun _ ↦ ?_, fun hn ↦ by simp at hn⟩
  rcases h with h | h | h <;> simp [h]

/-- Code without writes of its own runs, while the flag is up, in a storage that does not move. -/
theorem wp_of_quiet {α : Type} {P : External → Prop} {x : PolicyM α} (hx : x.Quiet P)
    (hlimit : ∀ epoch, s.spent epoch ≤ GLOBAL_LIMIT) (hentered : s.entered = true)
    {post : α → Storage → Prop} (h : ∀ a, post a s) :
    x.wp f.static (fun q ↦ Guarded (f.inner ((policy im).view q)))
      (fun q ↦ Keeps (f.inner ((policy im).view q))) post s :=
  hx.wp (fun _ _ ↦ guarded_inner hlimit (.inl hentered)) (fun _ _ _ hr ↦ hr.nested rfl) h

/-- The checks of `_pay` establish what the accounting needs. -/
theorem wp_checkPayment (recipient : Address) (amount expectedEpoch fromL1 epoch : ℕ)
    (hlimit : ∀ epoch, s.spent epoch ≤ GLOBAL_LIMIT) (hentered : s.entered = true)
    {post : Address → Storage → Prop}
    (h : ∀ alias_, fromL1 ≤ amount → s.spent epoch + amount ≤ GLOBAL_LIMIT → post alias_ s) :
    (checkPayment im recipient amount expectedEpoch fromL1 epoch).wp f.static
      (fun q ↦ Guarded (f.inner ((policy im).view q)))
      (fun q ↦ Keeps (f.inner ((policy im).view q))) post s := by
  simp only [checkPayment, wp_bind, wp_revertIf, wp_get, wp_checkedAdd]
  intro hamount _ _ htotal
  have hfrom : fromL1 ≤ amount := by omega
  have hsum : s.spent epoch + amount ≤ GLOBAL_LIMIT := by omega
  -- from here on only calls and checks
  refine wp_of_quiet (quiet_view rfl _) hlimit hentered fun peer _ ↦ ?_
  refine wp_of_quiet (quiet_paymentContext im) hlimit hentered ?_
  rintro ⟨alias_, delegate⟩ _
  refine wp_of_quiet (quiet_capacity im _ _ _) hlimit hentered fun capacityL1 _ ↦ ?_
  refine wp_of_quiet (quiet_capacity im _ _ _) hlimit hentered fun capacityL2 _ ↦ ?_
  exact h alias_ hfrom hsum

/-- `_pay` adds to the counter of its epoch and emits one event; everything it calls in between
finds the flag set. -/
theorem wp_pay (time : ℕ) (recipient : Address) (amount : ℕ) (onL1 : Bool)
    (expectedEpoch fromL1 : ℕ)
    (hlimit : ∀ epoch, s.spent epoch ≤ GLOBAL_LIMIT) (hentered : s.entered = true)
    {post : Unit → Storage → Prop}
    (h : fromL1 ≤ amount → s.spent (time / PERIOD) + amount ≤ GLOBAL_LIMIT →
      post () (s.pay im (time / PERIOD) recipient amount onL1 fromL1)) :
    (pay im time recipient amount onL1 expectedEpoch fromL1).wp f.static
      (fun q ↦ Guarded (f.inner ((policy im).view q)))
      (fun q ↦ Keeps (f.inner ((policy im).view q))) post s := by
  simp only [pay, wp_bind]
  refine wp_checkPayment recipient amount expectedEpoch fromL1 _ hlimit hentered ?_
  intro alias_ hfrom hsum
  simp only [wp_get, wp_checkedAdd, wp_modify]
  intro _ _
  have hlimit' : ∀ epoch, Storage.spent { s with
      spent := Function.update s.spent (time / PERIOD) (s.spent (time / PERIOD) + amount) }
      epoch ≤ GLOBAL_LIMIT := by
    intro epoch
    by_cases he : epoch = time / PERIOD
    · subst he
      simpa using hsum
    · simpa [he] using hlimit epoch
  refine wp_of_quiet (quiet_payL2 im _ _ _).when hlimit' hentered fun _ ↦ ?_
  refine wp_of_quiet (quiet_payL1 im _ _ _ _).when hlimit' hentered fun _ ↦ ?_
  exact fun _ ↦ h hfrom hsum

/-- The authorization emits at most one event, which no counter depends on.  Its only call is a view
call. -/
theorem wp_authorizePayment (sender : Address) (callHash : Word)
    (hlimit : ∀ epoch, s.spent epoch ≤ GLOBAL_LIMIT) {post : Unit → Storage → Prop}
    (h : ∀ authorized, (∀ epoch, paidIn authorized epoch = 0) →
      post () { s with log := s.log ++ authorized }) :
    (authorizePayment im sender callHash).wp f.static
      (fun q ↦ Guarded (f.inner ((policy im).view q)))
      (fun q ↦ Keeps (f.inner ((policy im).view q))) post s := by
  unfold authorizePayment
  split
  · simpa using h [] fun _ ↦ rfl
  · simp only [wp_bind, wp_revertIf, emit, wp_modify]
    intro _
    refine wp_ask (guarded_inner hlimit (.inr (.inl rfl))) fun safeNonce s' hs' _ ↦ ?_
    rw [hs'.nested rfl]
    exact h [.l1PaymentAuthorized safeNonce callHash] fun _ ↦ rfl

/-- `paySplit`, as its frame sees it: it returns only from a frame that may write and found the flag
down, and then it has paid. -/
theorem wp_paySplit (time : ℕ) (e : PaySplit) (hlimit : ∀ epoch, s.spent epoch ≤ GLOBAL_LIMIT)
    {post : Unit → Storage → Prop}
    (h : ∀ authorized, (∀ epoch, paidIn authorized epoch = 0) →
      f.static = false → s.entered = false → e.fromL1 ≤ e.amount →
      s.spent (time / PERIOD) + e.amount ≤ GLOBAL_LIMIT →
      post () ({ s with log := s.log ++ authorized }.pay im (time / PERIOD) e.recipient e.amount
        e.onL1 e.fromL1)) :
    (paySplit im time e).wp f.static
      (fun q ↦ Guarded (f.inner ((policy im).view q)))
      (fun q ↦ Keeps (f.inner ((policy im).view q))) post s := by
  simp only [paySplit, wp_bind]
  refine wp_authorizePayment e.sender e.callHash hlimit fun authorized hauth ↦ ?_
  simp only [wp_get, wp_revertIf, wp_modify, Bool.not_eq_true]
  intro hidle hstatic
  refine wp_pay (s := { s with log := s.log ++ authorized, entered := true }) time e.recipient
    e.amount e.onL1 e.expectedEpoch e.fromL1 hlimit rfl ?_
  intro hfrom hsum _
  have := h authorized hauth hstatic hidle hfrom hsum
  simpa only [Storage.pay, hidle] using this

end Frames

/-- **One frame of the policy**, with the conditions its callees rely on. -/
theorem policy_discipline (im : Immutables) : Discipline (policy im) Guarded Keeps Accounted where
  refl f s := ⟨fun _ ↦ rfl, id⟩
  trans f s₁ s₂ s₃ h₁ h₂ :=
    ⟨fun hn ↦ (h₂.nested hn).trans (h₁.nested hn), fun hs ↦ h₂.settled (h₁.settled hs)⟩
  stable f s s' h hk := by
    cases hn : f.nested with
    | true => rwa [hk.nested hn]
    | false =>
      have hs' := hk.settled (h.settled hn)
      exact ⟨hs'.limit, fun hn' ↦ by simp [hn] at hn', fun _ ↦ hs'⟩
  restrict_holds f b s h :=
    ⟨h.limit, fun hn ↦ (h.locked hn).imp_left fun hst ↦ by simp [hst], h.settled⟩
  restrict_keeps f b s s' _ hk := ⟨hk.nested, hk.settled⟩
  returned f e s h := by
    refine wp_paySplit f.time e h.limit fun authorized hauth hstatic hidle hfrom hsum ↦ ?_
    -- a nested frame is static or finds the flag set
    have hnested : f.nested = false := by
      cases hn : f.nested with
      | false => rfl
      | true =>
        rcases h.locked hn with hst | hent
        · simp [hst] at hstatic
        · simp [hent] at hidle
    have hs := h.settled hnested
    have hauthorized : Settled { s with log := s.log ++ authorized } :=
      ⟨hs.idle, hs.limit, fun epoch ↦ by simp only [paidIn_append, hauth, hs.paid, Nat.add_zero]⟩
    have hsettled := hauthorized.pay im e.recipient e.onL1 hfrom hsum
    refine ⟨⟨fun hn ↦ by simp [hnested] at hn, fun _ ↦ hsettled⟩,
      ⟨hs.limit, hsettled.limit, fun _ epoch he ↦ ?_, fun hn ↦ by simp [hnested] at hn⟩⟩
    exact Function.update_of_ne he _ _
  failed f e s h := ⟨h.limit, h.limit, fun hr ↦ by simp at hr, fun _ ↦ rfl⟩

/-- **The accounting of a treasury policy.**  Whatever transactions are sent to it, by anyone, at
any times, and whatever the accounts it calls do before they answer, calls back into the policy
included: every counter stays within the limit and is the sum of the contributions of the `Paid`
events of its epoch.  Moreover, of every frame of `paySplit` that was entered, undone or not: it found
and left every counter within the limit, if it returned it changed the counter of its block's epoch
at most, and if it was entered while another one was executing it did not return. -/
theorem paySplit_accounting (im : Immutables) (depth : ℕ) (txs : List (ℕ × Act PaySplit)) :
    (∀ epoch, (history (policy im) depth txs .initial).1.spent epoch ≤ GLOBAL_LIMIT ∧
      (history (policy im) depth txs .initial).1.spent epoch =
        paidIn (history (policy im) depth txs .initial).1.log epoch) ∧
    ∀ r ∈ (history (policy im) depth txs .initial).2,
      (∀ epoch, r.before.spent epoch ≤ GLOBAL_LIMIT ∧ r.after.spent epoch ≤ GLOBAL_LIMIT) ∧
      (r.returned = true → ∀ epoch, epoch ≠ r.frame.time / PERIOD →
        r.after.spent epoch = r.before.spent epoch) ∧
      (r.frame.nested = true → r.returned = false) := by
  have htop : ∀ t s, Guarded (.top t) s ↔ Settled s := fun t s ↦
    ⟨fun h ↦ h.settled rfl, fun h ↦ ⟨h.limit, fun hn ↦ Bool.noConfusion hn, fun _ ↦ h⟩⟩
  obtain ⟨hfinal, hrecords⟩ := (policy_discipline im).history
    (fun t t' s h ↦ (htop t' s).2 ((htop t s).1 h)) depth txs .initial
    (fun t ↦ (htop t _).2 settled_initial)
  have hsettled := (htop 0 _).1 (hfinal 0)
  exact ⟨fun epoch ↦ ⟨hsettled.limit epoch, hsettled.paid epoch⟩, fun r hr ↦
    have h := hrecords r hr
    ⟨fun epoch ↦ ⟨h.before epoch, h.after epoch⟩, h.returned, h.nested⟩⟩

end Treasury
