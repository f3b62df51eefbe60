import EezDashboard.Contract.Execution
import EezDashboard.Faucet.SharedToken

/-!
# The faucet

`TestUSDCFaucet` refills itself by creating contracts that claim an allocation of the shared token and forward it,
and delivers an exact amount, on L1 or through a bridge.  The code of the token and of these contracts is known; only
the bridge is called as an account that may do anything before it answers.
-/

set_option autoImplicit false

namespace Faucet

open Contract Prog

/-- How many contracts an account can create: its nonce begins with 1 and stays below 2^64 - 1. -/
def creations : ℕ := 2 ^ 64 - 2

/-- The faucet and its bridge.  `deployed n` is the address of its contract number `n`: these are distinct, and none of
them is the faucet. -/
structure Deployment where
  faucet : Address
  bridge : Address
  destinationRollup : ℕ
  deployed : ℕ → Address
  faucet_ne_zero : faucet ≠ 0
  bridge_ne_zero : bridge ≠ 0
  injective : ∀ m < creations, ∀ n < creations, deployed m = deployed n → m = n
  deployed_ne_zero : ∀ n < creations, deployed n ≠ 0
  deployed_ne_faucet : ∀ n < creations, deployed n ≠ faucet

variable (d : Deployment)

/-- The accounts that call on their own: neither the faucet does, nor a contract that it creates. -/
def Deployment.Outside (a : Address) : Prop := a ≠ d.faucet ∧ ∀ n < creations, a ≠ d.deployed n

/-- `TestUSDCClaim`, when it is created by `sender`. -/
def newClaim (self sender : Address) (w : World) : Result := do
  let w ← claim self w
  transfer self sender (w.token.balance self) w

/-- `new TestUSDCClaim(address(token))` -/
def create (w : World) : Result :=
  if w.created < creations then newClaim (d.deployed w.created) d.faucet { w with created := w.created + 1 }
  else .error .bubbled

/-- The loop that refills the faucet, which has `available`. -/
def refill (amount available : ℕ) (w : World) : Result :=
  if available < amount then
    match create d w with
    | .error e => .error e
    | .ok w' =>
      if w'.token.balance d.faucet ≤ available then .error (.custom .emptyClaim)
      else refill amount (w'.token.balance d.faucet) w'
  else .ok w
termination_by amount - available

/-- The bridge is called with the token. -/
inductive External
  | bridgeTokens (amount destination : ℕ) (recipient : Address)

abbrev FaucetM := Prog World External Error

/-- Code that is known. -/
def act (x : World → Result) : FaucetM Unit :=
  load fun w ↦ match x w with
    | .ok w' => store (fun _ ↦ w') (ret ())
    | .error e => fail e

/-- `_request` -/
def request (recipient : Address) (amount : ℕ) (onL2 : Bool) : FaucetM Unit := do
  revertIf (recipient = 0 ∨ recipient = d.faucet ∨ amount = 0) .invalidRequest
  let w ← get
  revertIf (w.delivering = true) .reentered
  modify fun w ↦ { w with delivering := true }
  act fun w ↦ refill d amount (w.token.balance d.faucet) w
  (if onL2 then do
    act (approve d.faucet d.bridge amount)
    ask (.bridgeTokens amount d.destinationRollup recipient) Abi.nothing
    act (approve d.faucet d.bridge 0)
  else act (transfer d.faucet recipient amount))
  modify fun w ↦ { w with delivering := false }

/-- What an account outside can do to the token and the faucet. -/
inductive Entry
  | claim
  | transfer (target : Address) (value : ℕ)
  | approve (spender : Address) (value : ℕ)
  | transferFrom (owner target : Address) (value : ℕ)
  | request (recipient : Address) (amount : ℕ) (onL2 : Bool)

/-- An entry with the account that makes it. -/
structure Call where
  sender : Address
  outside : d.Outside sender
  entry : Entry

def code : Code World External Error (Call d) where
  body _ call :=
    match call.entry with
    | .claim => act (claim call.sender)
    | .transfer target value => act (transfer call.sender target value)
    | .approve spender value => act (approve call.sender spender value)
    | .transferFrom owner target value => act (transferFrom call.sender owner target value)
    | .request recipient amount onL2 => request d recipient amount onL2
  view _ := false

/-- The token that its creator has claimed, before there is a faucet. -/
def initial (creator : Address) : World :=
  let w : World := ⟨⟨fun _ ↦ 0, fun _ _ ↦ 0⟩, 0, fun _ ↦ false, [], false, 0⟩
  w.grant creator

end Faucet
