import EezDashboard.Faucet.Request

/-!
# Refilling the faucet

Every contract that the faucet creates brings it an allocation and whatever was sent to the contract's address before.
So the loop ends with the first number of contracts that is enough, `Needed`, and what the faucet has then is the
`stock` for that number.
-/

set_option autoImplicit false

namespace Faucet

open Contract

variable (d : Deployment)

/-- What a contract gives the faucet: its allocation, and the tokens sent to its address beforehand. -/
def forwarded (w : World) (n : ℕ) : ℕ := setupFunds + w.token.balance (d.deployed n)

/-- What the faucet has after `k` more contracts. -/
def stock (w : World) (k : ℕ) : ℕ :=
  w.token.balance d.faucet + ∑ i ∈ Finset.range k, forwarded d w (w.created + i)

/-- `k` more contracts are enough, and fewer are not. -/
structure Needed (amount : ℕ) (w : World) (k : ℕ) : Prop where
  enough : amount ≤ stock d w k
  short : ∀ j < k, stock d w j < amount

/-- What holds whenever an account gets control: the faucet's next contracts have not claimed, and the faucet has
approved nobody, but for the bridge during a delivery. -/
structure Inv (w : World) : Prop where
  supplied : Supplied w
  room : w.created ≤ creations
  fresh : ∀ n, w.created ≤ n → n < creations → d.deployed n ∉ w.claims
  approvals : ∀ s, (s = d.bridge → w.delivering = false) → w.token.approval d.faucet s = 0

/-- What the creation of `k` contracts changes. -/
structure Refilled (k : ℕ) (w w' : World) : Prop where
  inv : Inv d w'
  created : w'.created = w.created + k
  delivering : w'.delivering = w.delivering
  approval : w'.token.approval = w.token.approval
  faucet : w'.token.balance d.faucet = stock d w k
  emptied : ∀ i < k, w'.token.balance (d.deployed (w.created + i)) = 0
  others : ∀ x, x ≠ d.faucet → (∀ i < k, x ≠ d.deployed (w.created + i)) →
    w'.token.balance x = w.token.balance x

variable {d} {w w' : World} {amount k : ℕ}

/-! ## How many contracts are needed -/

@[simp] theorem stock_zero : stock d w 0 = w.token.balance d.faucet := by
  rw [stock, Finset.sum_range_zero, Nat.add_zero]

@[simp] theorem stock_one :
    stock d w 1 = w.token.balance d.faucet + (setupFunds + w.token.balance (d.deployed w.created)) := by
  rw [stock, Finset.sum_range_one, Nat.add_zero, forwarded]

theorem le_stock (k : ℕ) : w.token.balance d.faucet + k * setupFunds ≤ stock d w k := by
  rw [stock]
  refine Nat.add_le_add_left ?_ _
  calc k * setupFunds = ∑ _i ∈ Finset.range k, setupFunds := by
        rw [Finset.sum_const, Finset.card_range, smul_eq_mul]
    _ ≤ ∑ i ∈ Finset.range k, forwarded d w (w.created + i) :=
        Finset.sum_le_sum fun _ _ ↦ Nat.le_add_right _ _

variable (d) in
theorem exists_needed (amount : ℕ) (w : World) : ∃ k, Needed d amount w k := by
  have henough : ∃ k, amount ≤ stock d w k :=
    ⟨amount, le_trans (by rw [setupFunds]; omega) (le_stock amount)⟩
  exact ⟨Nat.find henough, Nat.find_spec henough, fun j hj ↦ Nat.lt_of_not_le (Nat.find_min henough hj)⟩

/-- Each of them brings an allocation at least. -/
theorem Needed.le (h : Needed d amount w k) :
    k ≤ (amount - w.token.balance d.faucet + (setupFunds - 1)) / setupFunds := by
  cases k with
  | zero => exact Nat.zero_le _
  | succ k =>
    have hshort := lt_of_le_of_lt (le_stock k) (h.short k (Nat.lt_succ_self k))
    rw [Nat.le_div_iff_mul_le (by decide), Nat.succ_mul]
    rw [setupFunds] at hshort ⊢
    omega

/-! ## One contract -/

theorem Inv.unclaimed (h : Inv d w) (hroom : w.created < creations) :
    w.claimed (d.deployed w.created) = false := by
  rw [← Bool.not_eq_true, h.supplied.claimed_iff]
  exact h.fresh _ le_rfl hroom

/-- A contract that is created claims, and forwards what it has. -/
theorem create_refills (h : Inv d w) (hroom : w.created < creations) :
    ∃ w', create d w = .ok w' ∧ Refilled d 1 w w' := by
  have hnew := h.unclaimed hroom
  have hfaucet : d.faucet ≠ d.deployed w.created := (d.deployed_ne_faucet _ hroom).symm
  have hclaim := claim_eq_ok (w := { w with created := w.created + 1 }).2
    ⟨hnew, d.deployed_ne_zero _ hroom, h.supplied.room hnew, rfl⟩
  have hgranted : Supplied (World.grant { w with created := w.created + 1 } (d.deployed w.created)) :=
    Supplied.grant (w := { w with created := w.created + 1 })
      ⟨h.supplied.claimed_iff, h.supplied.nodup, h.supplied.supply, h.supplied.total⟩ hnew
  obtain ⟨w', hw'⟩ := transfer_ok (w := World.grant { w with created := w.created + 1 } (d.deployed w.created))
    (d.deployed_ne_zero _ hroom) d.faucet_ne_zero le_rfl
  refine ⟨w', ?_, ?_⟩
  · rw [create, if_pos hroom, newClaim, hclaim]
    exact hw'
  · obtain ⟨token, rfl, hmoves⟩ := transfer_eq_ok hw'
    have hbalance : ∀ x, token.balance x =
        if x = d.faucet then stock d w 1 else if x = d.deployed w.created then 0 else w.token.balance x := by
      intro x
      have hx := hmoves.balance x
      simp only [shift_apply, World.grant, Token.mint, if_true] at hx
      split
      next heq =>
        subst heq
        rw [if_pos rfl, if_neg hfaucet, if_neg hfaucet] at hx
        rw [stock_one]
        omega
      next hne =>
        rw [if_neg hne] at hx
        split
        next heq =>
          subst heq
          simp only [if_true] at hx
          omega
        next hother =>
          simp only [if_neg hother] at hx
          omega
    have happroval : token.approval = w.token.approval := by
      funext o s
      exact hmoves.approval o s id
    refine ⟨⟨hgranted.moves hmoves, hroom, fun n hn hlt hmem ↦ ?_, fun s hs ↦ ?_⟩, rfl, rfl, happroval, ?_,
      fun i hi ↦ ?_, fun x hx hother ↦ ?_⟩
    · rcases List.mem_append.1 hmem with hmem | hmem
      · exact h.fresh n (Nat.le_of_succ_le hn) hlt hmem
      · have hsame := d.injective n hlt _ hroom (List.mem_singleton.1 hmem)
        exact absurd hn (by simp [World.grant, hsame])
    · exact (congrFun (congrFun happroval _) _).trans (h.approvals s hs)
    · exact (hbalance _).trans (if_pos rfl)
    · obtain rfl := Nat.lt_one_iff.1 hi
      exact (hbalance _).trans ((if_neg hfaucet.symm).trans (if_pos rfl))
    · exact (hbalance x).trans ((if_neg hx).trans (if_neg (hother 0 Nat.one_pos)))

/-! ## The loop -/

/-- A contract created first is not missed in the stock. -/
theorem Refilled.stock_succ {w₁ : World} (h : Refilled d 1 w w₁) (hroom : w.created + (k + 1) ≤ creations) :
    stock d w₁ k = stock d w (k + 1) := by
  have hsum : ∑ i ∈ Finset.range k, forwarded d w₁ (w₁.created + i) =
      ∑ i ∈ Finset.range k, forwarded d w (w.created + (i + 1)) := by
    refine Finset.sum_congr rfl fun i hi ↦ ?_
    have hlt : w.created + (i + 1) < creations := by
      have := Finset.mem_range.1 hi
      omega
    rw [h.created, Nat.add_assoc, Nat.add_comm 1 i, forwarded, forwarded,
      h.others _ (d.deployed_ne_faucet _ hlt) fun j hj heq ↦ ?_]
    have hsame := d.injective _ hlt _ (by omega) heq
    omega
  rw [stock, hsum, h.faucet, stock_one, stock, Finset.sum_range_succ', Nat.add_zero, Nat.add_assoc,
    Nat.add_comm (setupFunds + _)]
  rfl

theorem Refilled.succ {w₁ : World} (h : Refilled d 1 w w₁) (h' : Refilled d k w₁ w')
    (hroom : w.created + (k + 1) ≤ creations) : Refilled d (k + 1) w w' := by
  have hshift : ∀ i, w₁.created + i = w.created + (i + 1) := fun i ↦ by
    rw [h.created]
    omega
  refine ⟨h'.inv, ?_, h'.delivering.trans h.delivering, h'.approval.trans h.approval,
    h'.faucet.trans (h.stock_succ hroom), fun i hi ↦ ?_, fun x hx hother ↦ ?_⟩
  · rw [h'.created, hshift]
  · cases i with
    | zero =>
      have hlt : w.created + 0 < creations := by omega
      rw [h'.others _ (d.deployed_ne_faucet _ hlt) fun j hj heq ↦ ?_, h.emptied 0 Nat.one_pos]
      rw [hshift] at heq
      have hsame := d.injective _ hlt _ (by omega) heq
      omega
    | succ i =>
      rw [← hshift]
      exact h'.emptied i (Nat.lt_of_succ_lt_succ hi)
  · rw [h'.others x hx fun i hi ↦ hshift i ▸ hother _ (Nat.succ_lt_succ hi)]
    exact h.others x hx fun i hi ↦ hother i (hi.trans_le (Nat.succ_le_succ (Nat.zero_le k)))

theorem Inv.refilled (h : Inv d w) : Refilled d 0 w w :=
  ⟨h, rfl, rfl, rfl, stock_zero.symm, fun _ hi ↦ absurd hi (Nat.not_lt_zero _), fun _ _ _ ↦ rfl⟩

/-- **The loop creates as many contracts as are needed**, if the faucet can create so many. -/
theorem refill_ok (h : Inv d w) (hneeded : Needed d amount w k) (hroom : w.created + k ≤ creations) :
    ∃ w', refill d amount (w.token.balance d.faucet) w = .ok w' ∧ Refilled d k w w' := by
  induction k generalizing w with
  | zero =>
    have henough := hneeded.enough
    rw [stock_zero] at henough
    refine ⟨w, ?_, h.refilled⟩
    rw [refill, if_neg (Nat.not_lt.2 henough)]
  | succ k ih =>
    have hshort := hneeded.short 0 (Nat.succ_pos k)
    rw [stock_zero] at hshort
    obtain ⟨w₁, hcreate, hone⟩ := create_refills h (by omega)
    have hmore : w.token.balance d.faucet < w₁.token.balance d.faucet := by
      rw [hone.faucet, stock_one, setupFunds]
      omega
    have hneeded₁ : Needed d amount w₁ k := by
      refine ⟨hone.stock_succ hroom ▸ hneeded.enough, fun j hj ↦ ?_⟩
      rw [hone.stock_succ (by omega)]
      exact hneeded.short _ (Nat.succ_lt_succ hj)
    obtain ⟨w', hrefill, hrest⟩ := ih hone.inv hneeded₁ (by rw [hone.created]; omega)
    refine ⟨w', ?_, hone.succ hrest hroom⟩
    rw [refill, if_pos hshort, hcreate]
    dsimp only
    rw [if_neg (Nat.not_le.2 hmore)]
    exact hrefill

/-- A faucet that cannot create enough contracts fails. -/
theorem refill_error {m : ℕ} (h : Inv d w) (hroom : w.created + m = creations)
    (hshort : ∀ j ≤ m, stock d w j < amount) :
    ∃ e, refill d amount (w.token.balance d.faucet) w = .error e := by
  induction m generalizing w with
  | zero =>
    have hlast := hshort 0 le_rfl
    rw [stock_zero] at hlast
    refine ⟨.bubbled, ?_⟩
    rw [refill, if_pos hlast, create, if_neg (by omega)]
  | succ m ih =>
    have hfirst := hshort 0 (Nat.zero_le _)
    rw [stock_zero] at hfirst
    obtain ⟨w₁, hcreate, hone⟩ := create_refills h (by omega)
    have hmore : w.token.balance d.faucet < w₁.token.balance d.faucet := by
      rw [hone.faucet, stock_one, setupFunds]
      omega
    obtain ⟨e, hrefill⟩ := ih hone.inv (by rw [hone.created]; omega) fun j hj ↦ by
      rw [hone.stock_succ (by omega)]
      exact hshort _ (Nat.succ_le_succ hj)
    refine ⟨e, ?_⟩
    rw [refill, if_pos hfirst, hcreate]
    dsimp only
    rw [if_neg (Nat.not_le.2 hmore)]
    exact hrefill

/-- A faucet never creates more contracts than it can. -/
theorem refill_refused (h : Inv d w) (hneeded : Needed d amount w k) (hroom : creations < w.created + k) :
    ∃ e, refill d amount (w.token.balance d.faucet) w = .error e := by
  have hroom' := h.room
  exact refill_error h (Nat.add_sub_of_le hroom') fun j hj ↦ hneeded.short j (by omega)

/-- What the loop leaves when it ends. -/
theorem refilled_of_refill (h : Inv d w) (hrefill : refill d amount (w.token.balance d.faucet) w = .ok w') :
    ∃ k, Needed d amount w k ∧ w.created + k ≤ creations ∧ Refilled d k w w' := by
  obtain ⟨k, hneeded⟩ := exists_needed d amount w
  rcases Nat.lt_or_ge creations (w.created + k) with hroom | hroom
  · obtain ⟨e, herror⟩ := refill_refused h hneeded hroom
    exact nomatch herror.symm.trans hrefill
  · obtain ⟨w₁, hok, hrefilled⟩ := refill_ok h hneeded hroom
    obtain rfl := Except.ok.inj (hok.symm.trans hrefill)
    exact ⟨k, hneeded, hroom, hrefilled⟩

end Faucet
