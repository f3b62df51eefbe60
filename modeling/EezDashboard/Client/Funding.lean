import EezDashboard.Client.Payments

/-!
# The preview and the contract

The app refuses a payment that the policy would revert.  Here both are run on one state: the preview on what
`paymentState` has read, and the checks of `_pay` among contracts that answer the same.  The two agree on
every payment, and the split the app proposes passes whenever some split does.
-/

set_option autoImplicit false

namespace Client

open Treasury Contract Prog

/-! ## What the review accepts -/

/-- A payment of a fixed amount is funded by contributions within that amount. -/
theorem checkedPayment_fixed {viem : Viem} {p p' : Payment} (h : checkedPayment viem p = .ok p')
    (hkind : p.kind = none ∨ p.kind = some "fixed") :
    p' = { p with recipient := viem.getAddress p.recipient } ∧ 1 ≤ bigInt p.amount ∧
      bigInt p.amount ≤ 150000000 ∧ ∃ fromL1, p.fromL1 = some fromL1 ∧ bigInt fromL1 ≤ bigInt p.amount := by
  have htransfer : p.kind ≠ some "transfer" := by
    rcases hkind with hkind | hkind <;> simp [hkind]
  have hinvoice : p.kind ≠ some "invoice" := by
    rcases hkind with hkind | hkind <;> simp [hkind]
  simp only [checkedPayment, if_neg htransfer, if_neg hinvoice, if_pos hinvoice, Except.bind_eq_ok,
    raiseIf_eq_ok, Except.pure_eq_ok, not_not, not_or, Option.any_eq_true, Bool.and_eq_true,
    decide_eq_true_eq] at h
  obtain ⟨-, -, -, hamount, -, ⟨fromL1, hfrom, -, hle⟩, -, -, rfl⟩ := h
  exact ⟨rfl, by omega, by omega, fromL1, hfrom, hle⟩

/-- The balance, or what is left of the grant. -/
def capacityOf (balance : ℕ) (a : TokenAllowance) : ℕ := min balance (remaining a)

/-- What the preview of a payment of a fixed amount requires. -/
theorem fundingPreview_fixed {viem : Viem} {s : PaymentState} {p p' : Payment}
    (h : checkedPayment viem p = .ok p') (hkind : p.kind = none ∨ p.kind = some "fixed") {fromL1 : String}
    (hfrom : p.fromL1 = some fromL1) (c : Contributions) :
    fundingPreview viem s p = .ok c ↔ (bigInt p.epoch = s.epoch ∧
      s.spent + bigInt p.amount ≤ s.globalLimit ∧
      bigInt fromL1 ≤ capacityOf s.balanceL1 s.allowanceL1 ∧
      bigInt p.amount - bigInt fromL1 ≤ capacityOf s.balanceL2 s.allowanceL2) ∧
      c = ⟨bigInt fromL1, bigInt p.amount - bigInt fromL1⟩ := by
  obtain ⟨hp, -⟩ := checkedPayment_fixed h hkind
  have htransfer : p'.kind ≠ some "transfer" := by
    rcases hkind with hkind | hkind <;> simp [hp, hkind]
  have hinvoice : p'.kind ≠ some "invoice" := by
    rcases hkind with hkind | hkind <;> simp [hp, hkind]
  have hamount : p'.amount = p.amount := by rw [hp]
  have hepoch : p'.epoch = p.epoch := by rw [hp]
  have hfrom' : p'.fromL1 = some fromL1 := by rw [hp, hfrom]
  simp only [fundingPreview, h, Except.bind_eq_ok, raiseIf_eq_ok, Except.pure_eq_ok, Except.ok.injEq,
    exists_eq_left', if_neg htransfer, if_neg hinvoice, hamount, hepoch, hfrom', Option.getD_some, not_not,
    not_or, not_lt, exists_const, capacityOf, gt_iff_lt]
  constructor
  · rintro ⟨hepoch, hbudget, ⟨hcap1, hcap2⟩, rfl⟩
    exact ⟨⟨hepoch, hbudget, hcap1, hcap2⟩, rfl⟩
  · rintro ⟨⟨hepoch, hbudget, hcap1, hcap2⟩, rfl⟩
    exact ⟨hepoch, hbudget, ⟨hcap1, hcap2⟩, rfl⟩

/-! ## What the app has read -/

/-- A grant that is normalised is one of ten minutes in the given period. -/
theorem normalise_aligned {epoch : ℕ} {a a' : TokenAllowance} (h : normalise epoch a = .ok a') :
    a'.resetTimeMin = 10 ∧ a'.lastResetMin = epoch * 10 := by
  simp only [normalise, Except.bind_eq_ok, raiseIf_eq_ok, Except.pure_eq_ok, not_or] at h
  obtain ⟨-, ⟨hten, haligned, hpast⟩, rfl⟩ := h
  rw [not_not] at hten
  split
  · exact ⟨hten, rfl⟩
  · exact ⟨hten, by omega⟩

/-- Without a predecessor the state is what was read, and the grants as the module reads them now. -/
theorem paymentState_eq {reads : Reads} {s : PaymentState} (h : paymentState reads = .ok s)
    (hcarried : reads.carried = none) :
    s.balanceL1 = reads.balanceL1 ∧ s.balanceL2 = reads.balanceL2 ∧
      normalise s.epoch reads.allowanceL1 = .ok s.allowanceL1 ∧
      normalise s.epoch reads.allowanceL2 = .ok s.allowanceL2 ∧
      s.spent = reads.spent s.epoch ∧ s.globalLimit = GLOBAL_LIMIT := by
  simp only [paymentState, hcarried, Except.bind_eq_ok, raiseIf_eq_ok, Except.pure_eq_ok] at h
  obtain ⟨l1, -, l2, -, -, -, a1, h1, a2, h2, -, -, rfl⟩ := h
  exact ⟨rfl, rfl, h1, h2, rfl, rfl⟩

/-! ## What the contracts answer -/

/-- Contracts that answer view calls by `serve`. -/
def answering (serve : External → Option (List Word)) (q : External) (st : Storage) (w : Unit) :
    Option (List Word) × Storage × Unit :=
  (serve q, st, w)

/-- The contracts and the policy's storage are in the state the app has read; the allowance modules reset a
grant on load, so that they answer what `paymentState` normalises it to. -/
structure Observes (im : Immutables) (delegate : Address) (serve : External → Option (List Word))
    (st : Storage) (epoch : ℕ) (reads : Reads) : Prop where
  spent : st.spent epoch = reads.spent epoch
  allowanceL1 : ∃ a, normalise epoch reads.allowanceL1 = .ok a ∧
    (serve ⟨im.allowanceL1Proxy, .getTokenAllowance im.safeL1 delegate im.canonicalToken⟩).bind
      TokenAllowance.decode = some a
  allowanceL2 : ∃ a, normalise epoch reads.allowanceL2 = .ok a ∧
    (serve ⟨im.allowanceL2, .getTokenAllowance im.safeL2 im.this im.wrappedToken⟩).bind
      TokenAllowance.decode = some a
  balanceL1 : (serve ⟨im.tokenL1Proxy, .balanceOf im.safeL1⟩).bind Abi.uint256 = some reads.balanceL1
  balanceL2 : (serve ⟨im.wrappedToken, .balanceOf im.safeL2⟩).bind Abi.uint256 = some reads.balanceL2

/-- The other checks of `_pay` pass: the bridges are bound to each other, and the recipient is permitted. -/
structure Permits (im : Immutables) (alias_ delegate : Address) (serve : External → Option (List Word))
    (recipient : Address) : Prop where
  peer : (serve ⟨im.bridge, .canonicalBridgeAddress⟩).bind Abi.address = some im.bridgeL1
  context : ∀ static st, (paymentContext im).run static (answering serve) st () =
    (.ok (alias_, delegate), st, ())
  recipient : ¬(recipient = 0 ∨ recipient = im.this ∨ recipient = alias_ ∨ recipient = im.safeL1 ∨
    recipient = im.safeL2 ∨ recipient = im.bridge ∨ recipient = im.bridgeL1 ∨ recipient = delegate)

section Answers

variable {α β : Type} {static : Bool} {serve : External → Option (List Word)} {st : Storage}

theorem run_ask {q : External} {decode : List Word → Option β} {b : β}
    (h : (serve q).bind decode = some b) :
    (ask q decode : PolicyM β).run static (answering serve) st () = (.ok b, st, ()) := by
  obtain ⟨v, hq, hb⟩ := Option.bind_eq_some_iff.1 h
  exact run_ask_eq_ok.2 ⟨v, by rw [answering, hq], hb⟩

/-- Code that returns can be skipped. -/
theorem run_bind_of_ok {x : PolicyM α} {g : α → PolicyM β} {a : α}
    (h : x.run static (answering serve) st () = (.ok a, st, ())) :
    (x >>= g).run static (answering serve) st () = (g a).run static (answering serve) st () := by
  rw [run_bind, h]

theorem run_remaining {module safe delegate token : Address} {epoch : ℕ} {a : TokenAllowance}
    (h : (serve ⟨module, .getTokenAllowance safe delegate token⟩).bind TokenAllowance.decode = some a)
    (haligned : a.resetTimeMin = 10 ∧ a.lastResetMin = epoch * 10) :
    (Treasury.remaining module safe delegate token epoch).run static (answering serve) st () =
      (.ok (remaining a), st, ()) := by
  rw [Treasury.remaining, run_bind_of_ok (run_ask h), run_revertIf_bind_eq_ok, pure_eq, run_ret_eq_ok]
  refine ⟨?_, rfl, rfl, rfl⟩
  rw [haligned.1, haligned.2]
  simp [PERIOD]

end Answers

section Capacity

variable {im : Immutables} {delegate : Address} {serve : External → Option (List Word)} {st : Storage}
  {reads : Reads} {s : PaymentState}

/-- On both chains the policy finds the capacity the app computes. -/
theorem run_capacity (hs : paymentState reads = .ok s) (hcarried : reads.carried = none)
    (h : Observes im delegate serve st s.epoch reads) (static : Bool) :
    (capacity im true delegate s.epoch).run static (answering serve) st () =
        (.ok (capacityOf s.balanceL1 s.allowanceL1), st, ()) ∧
      (capacity im false delegate s.epoch).run static (answering serve) st () =
        (.ok (capacityOf s.balanceL2 s.allowanceL2), st, ()) := by
  obtain ⟨hb1, hb2, ha1, ha2, -, -⟩ := paymentState_eq hs hcarried
  obtain ⟨a1, hn1, hr1⟩ := h.allowanceL1
  obtain ⟨a2, hn2, hr2⟩ := h.allowanceL2
  have hmin : ∀ balance remaining : ℕ,
      (if balance < remaining then balance else remaining) = min balance remaining := by
    intro balance remaining
    split <;> omega
  rw [hn1, Except.ok.injEq] at ha1
  rw [hn2, Except.ok.injEq] at ha2
  subst ha1 ha2
  constructor
  · simp only [capacity, ↓reduceIte]
    rw [run_bind_of_ok (run_remaining hr1 (normalise_aligned hn1)), run_bind_of_ok (run_ask h.balanceL1),
      hmin, capacityOf, hb1]
    rfl
  · simp only [capacity, Bool.false_eq_true, ↓reduceIte]
    rw [run_bind_of_ok (run_remaining hr2 (normalise_aligned hn2)), run_bind_of_ok (run_ask h.balanceL2),
      hmin, capacityOf, hb2]
    rfl

/-- What the checks of `_pay` require of an amount and its split, when the other checks pass. -/
theorem run_checkPayment {alias_ recipient : Address} (hs : paymentState reads = .ok s)
    (hcarried : reads.carried = none) (h : Observes im delegate serve st s.epoch reads)
    (hpermits : Permits im alias_ delegate serve recipient) (static : Bool)
    (amount expectedEpoch fromL1 : ℕ) :
    (checkPayment im recipient amount expectedEpoch fromL1 s.epoch).run static (answering serve) st () =
        (.ok alias_, st, ()) ↔
      (1 ≤ amount ∧ amount ≤ GLOBAL_LIMIT ∧ fromL1 ≤ amount) ∧ expectedEpoch = s.epoch ∧
        s.spent + amount ≤ GLOBAL_LIMIT ∧ fromL1 ≤ capacityOf s.balanceL1 s.allowanceL1 ∧
        amount - fromL1 ≤ capacityOf s.balanceL2 s.allowanceL2 := by
  obtain ⟨-, -, -, -, hspent, -⟩ := paymentState_eq hs hcarried
  obtain ⟨hcap1, hcap2⟩ := run_capacity hs hcarried h static
  have hread : st.spent s.epoch = s.spent := h.spent.trans hspent.symm
  -- past the budget only reads and comparisons are left
  rw [checkPayment, run_revertIf_bind_eq_ok, run_revertIf_bind_eq_ok, run_get_bind,
    run_checkedAdd_bind_eq_ok, run_revertIf_bind_eq_ok, run_bind_of_ok (run_ask hpermits.peer),
    run_revertIf_bind_eq_ok, run_bind_of_ok (hpermits.context static st)]
  dsimp only
  rw [run_revertIf_bind_eq_ok, run_bind_of_ok hcap1, run_revertIf_bind_eq_ok, run_bind_of_ok hcap2,
    run_revertIf_bind_eq_ok, pure_eq, run_ret_eq_ok, hread]
  have hrecipient := hpermits.recipient
  simp only [hrecipient, not_false_eq_true, ne_eq, not_true_eq_false, true_and, and_true, GLOBAL_LIMIT]
  omega

end Capacity

/-! ## Agreement -/

/-- A split of an amount that both contributions have the capacity for. -/
def Funds (cap1 cap2 amount fromL1 : ℕ) : Prop :=
  fromL1 ≤ amount ∧ fromL1 ≤ cap1 ∧ amount - fromL1 ≤ cap2

/-- What a split takes from the Safe on the destination chain. -/
def fromOwn (destination : String) (amount fromL1 : ℕ) : ℕ :=
  if destination = "l1" then fromL1 else amount - fromL1

/-- The proposed split passes when any does, and takes the most from the destination's own Safe. -/
theorem defaultSplit_best (s : PaymentState) (destination : String) {amount fromL1 : ℕ}
    (h : Funds (capacityOf s.balanceL1 s.allowanceL1) (capacityOf s.balanceL2 s.allowanceL2) amount fromL1) :
    Funds (capacityOf s.balanceL1 s.allowanceL1) (capacityOf s.balanceL2 s.allowanceL2) amount
        (defaultSplit s amount destination) ∧
      fromOwn destination amount fromL1 ≤ fromOwn destination amount (defaultSplit s amount destination) := by
  obtain ⟨hle, hcap1, hcap2⟩ := h
  rw [defaultSplit, ← capacityOf, ← capacityOf, Funds, fromOwn, fromOwn]
  split <;> omega

/-- The preview succeeds exactly when the checks of `_pay` pass in the same state, and then the contributions
are the contract's; and the default split is the best that the contract's capacities allow. -/
theorem fundingPreview_agrees {viem : Viem} {reads : Reads} {s : PaymentState}
    (hs : paymentState reads = .ok s) (hcarried : reads.carried = none) {im : Immutables}
    {alias_ delegate : Address} {serve : External → Option (List Word)} {st : Storage} {time : ℕ}
    (htime : time / PERIOD = s.epoch) (h : Observes im delegate serve st s.epoch reads) (static : Bool) :
    (∀ p p', checkedPayment viem p = .ok p' → (p.kind = none ∨ p.kind = some "fixed") →
      Permits im alias_ delegate serve (BitVec.ofNat 160 (bigInt p.recipient)) →
      ∃ fromL1, p.fromL1 = some fromL1 ∧ ∀ c, fundingPreview viem s p = .ok c ↔
        (checkPayment im (BitVec.ofNat 160 (bigInt p.recipient)) (bigInt p.amount) (bigInt p.epoch)
          (bigInt fromL1) (time / PERIOD)).run static (answering serve) st () = (.ok alias_, st, ()) ∧
        c = ⟨bigInt fromL1, bigInt p.amount - bigInt fromL1⟩) ∧
    ∃ cap1 cap2, (capacity im true delegate (time / PERIOD)).run static (answering serve) st () =
        (.ok cap1, st, ()) ∧
      (capacity im false delegate (time / PERIOD)).run static (answering serve) st () =
        (.ok cap2, st, ()) ∧
      ∀ amount destination fromL1, Funds cap1 cap2 amount fromL1 →
        Funds cap1 cap2 amount (defaultSplit s amount destination) ∧
        fromOwn destination amount fromL1 ≤
          fromOwn destination amount (defaultSplit s amount destination) := by
  rw [htime]
  constructor
  · intro p p' hp hkind hpermits
    obtain ⟨-, hpositive, hlimit, fromL1, hfrom, hle⟩ := checkedPayment_fixed hp hkind
    refine ⟨fromL1, hfrom, fun c ↦ ?_⟩
    rw [fundingPreview_fixed hp hkind hfrom, run_checkPayment hs hcarried h hpermits,
      (paymentState_eq hs hcarried).2.2.2.2.2]
    exact and_congr_left' ⟨fun hpasses ↦ ⟨⟨hpositive, hlimit, hle⟩, hpasses⟩, And.right⟩
  · obtain ⟨hcap1, hcap2⟩ := run_capacity hs hcarried h static
    exact ⟨_, _, hcap1, hcap2, fun _ destination _ hfunds ↦ defaultSplit_best s destination hfunds⟩

/-! A payment of 80 in period 2, of which SafeL2's grant was last used in period 1. -/

def sampleViem : Viem := ⟨fun _ ↦ true, id⟩

def sampleReads : Reads where
  l1 := some ⟨7, "0xa", 1200⟩
  l2 := some ⟨9, "0xb", 1199⟩
  balanceL1 := 70
  balanceL2 := 40
  allowanceL1 := ⟨100, 40, 10, 20, 1⟩
  allowanceL2 := ⟨50, 30, 10, 10, 1⟩
  spent _ := 5
  carried := none
  againL1 := some "0xa"
  againL2 := some "0xb"

def sampleState : PaymentState :=
  ⟨2, 1800, "7", "9", 70, 40, ⟨100, 40, 10, 20, 1⟩, ⟨50, 0, 10, 20, 1⟩, 5, 150000000⟩

def samplePayment : Payment :=
  ⟨none, none, "0x0000000000000000000000000000000000000009", "l1", "2", "80", some "60", none, none, []⟩

def sampleImmutables : Immutables :=
  ⟨101, 102, 103, 104, 105, 106, 107, 108, 109, 1, 110, 111, .treasury 112⟩

def sampleAnswers (q : External) : Option (List Word) :=
  if q = ⟨110, .canonicalBridgeAddress⟩ then some [111]
  else if q = ⟨112, .aliasOf 101 1⟩ then some [113]
  else if q = ⟨108, .getTokenAllowance 103 113 105⟩ then some [100, 40, 10, 20, 1]
  else if q = ⟨107, .getTokenAllowance 104 101 106⟩ then some [50, 0, 10, 20, 1]
  else if q = ⟨109, .balanceOf 103⟩ then some [70]
  else if q = ⟨106, .balanceOf 104⟩ then some [40]
  else none

def sampleStorage : Storage := ⟨fun _ ↦ 5, false, []⟩

theorem fundingPreview_agrees_once :
    (checkPayment sampleImmutables 9 80 2 60 (1250 / PERIOD)).run false (answering sampleAnswers)
      sampleStorage () = (.ok 113, sampleStorage, ()) ∧
    ∃ cap1 cap2, ∀ fromL1, Funds cap1 cap2 80 fromL1 →
      Funds cap1 cap2 80 (defaultSplit sampleState 80 "l2") := by
  have hstate : Observes sampleImmutables 113 sampleAnswers sampleStorage 2 sampleReads :=
    ⟨rfl, ⟨_, rfl, rfl⟩, ⟨_, rfl, rfl⟩, rfl, rfl⟩
  obtain ⟨hpreview, cap1, cap2, -, -, hsplit⟩ := fundingPreview_agrees (s := sampleState)
    (show paymentState sampleReads = .ok sampleState from rfl) rfl (show 1250 / PERIOD = 2 from rfl) hstate
    false
  obtain ⟨fromL1, hfrom, hagree⟩ := hpreview samplePayment samplePayment
    (show checkedPayment sampleViem samplePayment = .ok samplePayment from rfl) (.inl rfl)
    ⟨rfl, fun _ _ ↦ rfl, by decide⟩
  obtain rfl : "60" = fromL1 := Option.some.inj hfrom
  exact ⟨((hagree ⟨60, 20⟩).1 rfl).1, cap1, cap2, fun fromL1 hfunds ↦ (hsplit 80 "l2" fromL1 hfunds).1⟩

end Client
