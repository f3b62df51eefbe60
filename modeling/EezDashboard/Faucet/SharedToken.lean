import Mathlib.Algebra.BigOperators.Pi
import Mathlib.Algebra.Order.BigOperators.Ring.Finset
import Mathlib.Data.BitVec
import Mathlib.Data.FinEnum
import Mathlib.Data.Fintype.BigOperators
import EezDashboard.Contract.Abi
import EezDashboard.Contract.Ledger

/-!
# The shared test token

`SharedTestUSDC` is a standard token that gives every caller one allocation.  What it has given out is the number of
callers that have claimed, times the allocation, and this is the sum of all balances.
-/

set_option autoImplicit false

namespace Faucet

open Contract

inductive Error
  | alreadyClaimed
  | invalidSender
  | invalidReceiver
  | insufficientBalance
  | insufficientAllowance
  | invalidApprover
  | invalidSpender
  | invalidRequest
  | emptyClaim
  | reentered
  deriving DecidableEq, Repr

/-- The token, and what the faucet stores: its flag, and how many contracts it has created.  `claims` are the callers
that have claimed, in order. -/
structure World where
  token : Token Address
  totalSupply : ℕ
  claimed : Address → Bool
  claims : List Address
  delivering : Bool
  created : ℕ

/-- `SETUP_FUNDS` -/
def setupFunds : ℕ := 450000000

abbrev Result := Except (Fault Error) World

/-! ## The code -/

/-- `_mint`; balances need no check of their own, as they are within the supply. -/
def mint (account : Address) (value : ℕ) (w : World) : Result :=
  if account = 0 then .error (.custom .invalidReceiver)
  else if w.totalSupply + value < 2 ^ 256 then
    .ok { w with totalSupply := w.totalSupply + value, token := w.token.mint account value }
  else .error .arithmetic

/-- `_claim` -/
def claim (sender : Address) (w : World) : Result :=
  if w.claimed sender = true then .error (.custom .alreadyClaimed)
  else mint sender setupFunds
    { w with claimed := Function.update w.claimed sender true, claims := w.claims ++ [sender] }

/-- `_transfer` -/
def transfer (source target : Address) (value : ℕ) (w : World) : Result :=
  if source = 0 then .error (.custom .invalidSender)
  else if target = 0 then .error (.custom .invalidReceiver)
  else
    match w.token.transfer source target value with
    | some token => .ok { w with token }
    | none => .error (.custom .insufficientBalance)

/-- `_approve` -/
def approve (owner spender : Address) (value : ℕ) (w : World) : Result :=
  if owner = 0 then .error (.custom .invalidApprover)
  else if spender = 0 then .error (.custom .invalidSpender)
  else .ok { w with token := w.token.approve owner spender value }

/-- `transferFrom`; an approval of everything is not used up. -/
def transferFrom (spender owner target : Address) (value : ℕ) (w : World) : Result :=
  let allowance := w.token.approval owner spender
  if allowance < 2 ^ 256 - 1 then
    if allowance < value then .error (.custom .insufficientAllowance)
    else do
      let w ← approve owner spender (allowance - value) w
      transfer owner target value w
  else transfer owner target value w

/-! ## What it does -/

variable {w w' : World} {a source target owner spender : Address} {value : ℕ}

/-- The token after a claim. -/
def World.grant (w : World) (a : Address) : World :=
  { w with
    totalSupply := w.totalSupply + setupFunds
    token := w.token.mint a setupFunds
    claimed := Function.update w.claimed a true
    claims := w.claims ++ [a] }

theorem claim_eq_ok : claim a w = .ok w' ↔
    w.claimed a = false ∧ a ≠ 0 ∧ w.totalSupply + setupFunds < 2 ^ 256 ∧ w' = w.grant a := by
  rw [claim]
  split
  next h => simp [h]
  next h =>
    rw [mint]
    split
    next ha => simp [ha]
    next ha =>
      dsimp only
      split
      next hroom =>
        rw [Except.ok.injEq, eq_comm]
        exact ⟨fun heq ↦ ⟨Bool.not_eq_true _ ▸ h, ha, hroom, heq⟩, fun heq ↦ heq.2.2.2⟩
      next hroom => exact ⟨nofun, fun heq ↦ absurd heq.2.2.1 hroom⟩

/-- A transfer that succeeds moves what it says, and nothing else. -/
theorem transfer_eq_ok (h : transfer source target value w = .ok w') :
    ∃ token, w' = { w with token } ∧ w.token.Moves token (shift source target value) noApproval := by
  rw [transfer] at h
  split at h
  · cases h
  · split at h
    · cases h
    · split at h
      next token htoken => exact ⟨token, (Except.ok.inj h).symm, Token.transfer_moves htoken⟩
      next => cases h

theorem transfer_ok (hsource : source ≠ 0) (htarget : target ≠ 0) (hvalue : value ≤ w.token.balance source) :
    ∃ w', transfer source target value w = .ok w' := by
  have htoken : ∃ token, w.token.transfer source target value = some token := by
    rw [Token.transfer, if_pos hvalue]
    exact ⟨_, rfl⟩
  obtain ⟨token, htoken⟩ := htoken
  exact ⟨{ w with token }, by rw [transfer, if_neg hsource, if_neg htarget, htoken]⟩

theorem approve_eq_ok (h : approve owner spender value w = .ok w') :
    w' = { w with token := w.token.approve owner spender value } := by
  rw [approve] at h
  split at h
  · cases h
  · split at h
    · cases h
    · exact (Except.ok.inj h).symm

theorem approve_ok (howner : owner ≠ 0) (hspender : spender ≠ 0) :
    approve owner spender value w = .ok { w with token := w.token.approve owner spender value } := by
  rw [approve, if_neg howner, if_neg hspender]

theorem transferFrom_ok (howner : owner ≠ 0) (hspender : spender ≠ 0) (htarget : target ≠ 0)
    (happroved : value ≤ w.token.approval owner spender) (hvalue : value ≤ w.token.balance owner) :
    ∃ w', transferFrom spender owner target value w = .ok w' := by
  rw [transferFrom]
  split
  · rw [if_neg (Nat.not_lt.2 happroved), approve_ok howner hspender]
    exact transfer_ok howner htarget hvalue
  · exact transfer_ok howner htarget hvalue

theorem transferFrom_eq_ok (h : transferFrom spender owner target value w = .ok w') :
    ∃ token, w' = { w with token } ∧
      w.token.Moves token (shift owner target value) (approvalOf owner spender) := by
  rw [transferFrom] at h
  split at h
  · split at h
    · cases h
    · cases happrove : approve owner spender (w.token.approval owner spender - value) w with
      | error e =>
        rw [happrove] at h
        cases h
      | ok w₁ =>
        rw [happrove] at h
        obtain rfl := approve_eq_ok happrove
        obtain ⟨token, rfl, hmoves⟩ := transfer_eq_ok h
        have hboth := (Token.approve_moves w.token owner spender _).trans hmoves
        rw [zero_add] at hboth
        exact ⟨token, rfl, hboth.mono fun _ _ ht ↦ ht.elim id False.elim⟩
  · obtain ⟨token, rfl, hmoves⟩ := transfer_eq_ok h
    exact ⟨token, rfl, hmoves.mono fun _ _ ht ↦ ht.elim⟩

/-! ## The supply -/

theorem sum_single (a : Address) (n : ℤ) : ∑ b, (Pi.single a n : Address → ℤ) b = n := by
  simp only [Pi.single_apply, Finset.sum_ite_eq', Finset.mem_univ, if_true]

theorem sum_shift (source target : Address) (value : ℕ) : ∑ a, shift source target value a = 0 := by
  simp only [shift, Pi.sub_apply, Finset.sum_sub_distrib, sum_single, sub_self]

theorem sum_moves {t t' : Token Address} {δ : Address → ℤ} {touched : Address → Address → Prop}
    (h : t.Moves t' δ touched) : ((∑ a, t'.balance a : ℕ) : ℤ) = (∑ a, t.balance a : ℕ) + ∑ a, δ a := by
  push_cast
  rw [← Finset.sum_add_distrib]
  exact Finset.sum_congr rfl fun a _ ↦ h.balance a

/-- The supply is what the callers that have claimed were given, once each. -/
structure Supplied (w : World) : Prop where
  claimed_iff : ∀ a, w.claimed a = true ↔ a ∈ w.claims
  nodup : w.claims.Nodup
  supply : w.totalSupply = setupFunds * w.claims.length
  total : ∑ a, w.token.balance a = w.totalSupply

/-- A caller that has not claimed can. -/
theorem Supplied.room (h : Supplied w) (hnew : w.claimed a = false) : w.totalSupply + setupFunds < 2 ^ 256 := by
  have hnot : a ∉ w.claims := fun hmem ↦ by simp [(h.claimed_iff a).2 hmem] at hnew
  have hlength := (List.nodup_cons.2 ⟨hnot, h.nodup⟩).length_le_card
  have hcard : Fintype.card Address = 2 ^ 160 := by
    rw [Fintype.card_congr BitVec.equivFin.toEquiv, Fintype.card_fin]
  rw [hcard, List.length_cons] at hlength
  rw [h.supply, setupFunds]
  omega

theorem Supplied.grant (h : Supplied w) (hnew : w.claimed a = false) : Supplied (w.grant a) := by
  refine ⟨fun b ↦ ?_, ?_, ?_, ?_⟩
  · by_cases hb : b = a
    · simp [World.grant, hb]
    · simp [World.grant, hb, h.claimed_iff b]
  · have hnot : a ∉ w.claims := fun hmem ↦ by simp [(h.claimed_iff a).2 hmem] at hnew
    rw [World.grant, List.nodup_append_comm]
    exact List.nodup_cons.2 ⟨hnot, h.nodup⟩
  · simp only [World.grant, List.length_append, List.length_singleton, h.supply, Nat.mul_add, Nat.mul_one]
  · have hsum := sum_moves (Token.mint_moves w.token a setupFunds)
    rw [sum_single, h.total] at hsum
    exact_mod_cast hsum

/-- Moving tokens leaves the supply. -/
theorem Supplied.moves (h : Supplied w) {token : Token Address} {touched : Address → Address → Prop}
    (hmoves : w.token.Moves token (shift source target value) touched) : Supplied { w with token } := by
  refine ⟨h.claimed_iff, h.nodup, h.supply, ?_⟩
  have hsum := sum_moves hmoves
  rw [sum_shift, add_zero, h.total] at hsum
  exact_mod_cast hsum

/-- No balance exceeds the supply, so that none overflows where the supply does not. -/
theorem Supplied.balance_le (h : Supplied w) (a : Address) : w.token.balance a ≤ w.totalSupply := by
  rw [← h.total]
  exact Finset.single_le_sum (fun _ _ ↦ Nat.zero_le _) (Finset.mem_univ a)

/-- The supply counts the distinct callers that have claimed. -/
theorem Supplied.card (h : Supplied w) :
    w.totalSupply = setupFunds * (Finset.univ.filter fun a ↦ w.claimed a = true).card := by
  have heq : (Finset.univ.filter fun a ↦ w.claimed a = true) = w.claims.toFinset := by
    ext a
    simp [h.claimed_iff a]
  rw [heq, List.toFinset_card_of_nodup h.nodup, h.supply]

end Faucet
