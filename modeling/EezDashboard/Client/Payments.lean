import Mathlib.Data.Int.Notation
import Mathlib.Data.List.DropRight
import EezDashboard.Codec.Except
import EezDashboard.Treasury.Policy

/-!
# Reviewing a payment in the browser

The part of `payments.ts` that decides, before anybody signs, whether a payment can be made: the review of
its fields, the state of both chains it is compared with, and the split it is funded by.

Bigints are natural numbers, as every difference that is taken is guarded by a comparison, except the one an
error message shows.  `viem` is a parameter, and so is what the nodes answer.
-/

set_option autoImplicit false

namespace Client

open Treasury

/-! ## Text -/

/-- The checks of addresses come from `viem`. -/
structure Viem where
  isAddress : String → Bool
  getAddress : String → String

/-- `/^\d{lo,hi}$/` -/
def digits (lo hi : ℕ) (text : String) : Bool :=
  decide (lo ≤ text.length ∧ text.length ≤ hi) && text.toList.all Char.isDigit

/-- `/^[1-9]\d{0,n}$/` -/
def positiveDigits (n : ℕ) (text : String) : Bool :=
  digits 1 (n + 1) text && text.toList.head? ≠ some '0'

/-- `[\da-f]`, in either case -/
def hexDigit (c : Char) : Bool :=
  c.isDigit || (decide ('a' ≤ c) && decide (c ≤ 'f')) || (decide ('A' ≤ c) && decide (c ≤ 'F'))

/-- `/^0x[\da-f]{n}$/i` -/
def hex (n : ℕ) (text : String) : Bool :=
  match text.toList with
  | '0' :: x :: ds => (x = 'x' || x = 'X') && ds.length = n && ds.all hexDigit
  | _ => false

def digitValue (c : Char) : ℕ :=
  if c.isDigit then c.toNat - '0'.toNat
  else if 'a' ≤ c then c.toNat - 'a'.toNat + 10
  else c.toNat - 'A'.toNat + 10

/-- `BigInt(text)`, of digits or of `0x` and hexadecimal digits -/
def bigInt (text : String) : ℕ :=
  match text.toList with
  | '0' :: 'x' :: ds | '0' :: 'X' :: ds => ds.foldl (fun n c ↦ 16 * n + digitValue c) 0
  | ds => ds.foldl (fun n c ↦ 10 * n + digitValue c) 0

/-- `text.padStart(n, "0")` -/
def padStart (n : ℕ) (text : String) : String :=
  String.ofList (List.replicate (n - text.length) '0') ++ text

/-- Integer division and remainder of a bigint round towards zero. -/
def formatUSDC (value : ℤ) : String :=
  let whole := value.tdiv 1000000
  let fraction := String.ofList
    ((padStart 6 (toString (value.tmod 1000000))).toList.rdropWhile (· = '0'))
  toString whole ++ if fraction ≠ "" then "." ++ fraction else ""

/-! ## Payments -/

/-- A payment as it comes from a form or from storage; `others` names the properties that no payment
should have. -/
structure Payment where
  kind : Option String
  source : Option String
  recipient : String
  destination : String
  epoch : String
  amount : String
  fromL1 : Option String
  rollupId : Option String
  invoiceId : Option String
  others : List String
  deriving DecidableEq, Repr

/-- The checks of a transfer between the two Safes. -/
def badTransfer (p : Payment) : Bool :=
  decide (p.source ≠ some "l1" ∨ p.destination ≠ "l2" ∨ p.fromL1.isSome ∨ "bps" ∈ p.others ∨
    p.invoiceId.isSome ∨ ¬positiveDigits 77 p.amount ∨ bigInt p.amount ≥ 2 ^ 256 ∨
    ¬p.rollupId.any fun id ↦ positiveDigits 19 id && decide (bigInt id < 2 ^ 64))

def checkedPayment (viem : Viem) (p : Payment) : Except String Payment := do
  raiseIf (p.source.any (· ∉ ["l1", "l2"]) ∨ ¬viem.isAddress p.recipient ∨ bigInt p.recipient = 0 ∨
    p.destination ∉ ["l1", "l2"] ∨ "funding" ∈ p.others ∨ ¬digits 1 16 p.epoch) "Invalid payment review"
  if p.kind = some "transfer" then do
    raiseIf (badTransfer p) "Invalid Safe transfer"
    pure { p with recipient := viem.getAddress p.recipient }
  else do
    raiseIf ((p.kind ≠ none ∧ p.kind ≠ some "fixed" ∧ p.kind ≠ some "invoice") ∨ "bps" ∈ p.others ∨
      ¬digits 1 9 p.amount ∨ bigInt p.amount < 1 ∨ bigInt p.amount > 150000000)
      "Invalid fixed payment review"
    (if p.kind ≠ some "invoice" then
      raiseIf (¬p.fromL1.any fun fromL1 ↦
        digits 1 9 fromL1 && decide (bigInt fromL1 ≤ bigInt p.amount)) "Invalid Safe contributions"
    else raiseIf p.fromL1.isSome "Unexpected Safe contribution")
    (if p.kind = some "invoice" then
      raiseIf (p.destination ≠ "l1" ∨ ¬p.invoiceId.any fun id ↦ hex 64 id && decide (bigInt id ≠ 0))
        "Invalid invoice payment"
    else raiseIf p.invoiceId.isSome "Unexpected invoice condition")
    pure { p with recipient := viem.getAddress p.recipient }

/-! ## The state of both chains -/

structure PaymentState where
  epoch : ℕ
  resetsAt : ℕ
  observedL1 : String
  observedL2 : String
  balanceL1 : ℕ
  balanceL2 : ℕ
  allowanceL1 : TokenAllowance
  allowanceL2 : TokenAllowance
  spent : ℕ
  globalLimit : ℕ

structure Header where
  number : ℕ
  hash : String
  timestamp : ℕ

/-- What the nodes answer to the reads of `paymentState`; `again` are the two blocks read a second time,
and `carried` is `carriedSpending`, which is read when there is a predecessor. -/
structure Reads where
  l1 : Option Header
  l2 : Option Header
  balanceL1 : ℕ
  balanceL2 : ℕ
  allowanceL1 : TokenAllowance
  allowanceL2 : TokenAllowance
  spent : ℕ → ℕ
  carried : Option (ℕ → ℕ × ℕ)
  againL1 : Option String
  againL2 : Option String

/-- The reset that `AllowanceModule` makes on load, applied to a historical read. -/
def normalise (epoch : ℕ) (a : TokenAllowance) : Except String TokenAllowance := do
  raiseIf (a.resetTimeMin ≠ 10 ∨ a.lastResetMin % 10 ≠ 0 ∨ a.lastResetMin > epoch * 10)
    "Safe allowance periods do not match the shared budget"
  pure (if a.lastResetMin < epoch * 10 then { a with spent := 0, lastResetMin := epoch * 10 } else a)

def paymentState (reads : Reads) : Except String PaymentState := do
  let l1 ← reads.l1.elim (.error "Missing payment chain observation") .ok
  let l2 ← reads.l2.elim (.error "Missing payment chain observation") .ok
  let epoch := l1.timestamp / 600
  raiseIf (l2.timestamp / 600 > epoch) "Waiting for L1 to reach the observed L2 budget period"
  let a1 ← normalise epoch reads.allowanceL1
  let a2 ← normalise epoch reads.allowanceL2
  let carried := (reads.carried.map (· epoch)).getD (0, 0)
  raiseIf (reads.againL1 ≠ some l1.hash ∨ reads.againL2 ≠ some l2.hash)
    "Chain state changed while reading payment capacity"
  pure {
    epoch := epoch
    resetsAt := (epoch + 1) * 600
    observedL1 := toString l1.number
    observedL2 := toString l2.number
    balanceL1 := reads.balanceL1
    balanceL2 := reads.balanceL2
    allowanceL1 := { a1 with spent := a1.spent + carried.1 }
    allowanceL2 := { a2 with spent := a2.spent + carried.2 }
    spent := reads.spent epoch
    globalLimit := 150000000 }

/-! ## Funding -/

def remaining (a : TokenAllowance) : ℕ :=
  if a.amount > a.spent then a.amount - a.spent else 0

def defaultSplit (s : PaymentState) (amount : ℕ) (destination : String) : ℕ :=
  if destination = "l1" then min amount (min s.balanceL1 (remaining s.allowanceL1))
  else amount - min amount (min s.balanceL2 (remaining s.allowanceL2))

structure Contributions where
  fromL1 : ℕ
  fromL2 : ℕ
  deriving DecidableEq, Repr

def fundingPreview (viem : Viem) (s : PaymentState) (p : Payment) : Except String Contributions := do
  let p ← checkedPayment viem p
  let amount := bigInt p.amount
  if p.kind = some "transfer" then do
    raiseIf (amount > s.balanceL1) "Insufficient balance in the source Safe"
    pure ⟨amount, 0⟩
  else do
    raiseIf (bigInt p.epoch ≠ s.epoch) "The budget period changed. Review the payment again."
    raiseIf (s.spent + amount > s.globalLimit)
      ("Shared budget exceeded: " ++ formatUSDC (s.globalLimit - s.spent) ++ " USDC remains globally")
    let cap1 := min s.balanceL1 (remaining s.allowanceL1)
    let cap2 := min s.balanceL2 (remaining s.allowanceL2)
    let fromL1 := if p.kind = some "invoice" then min amount cap1 else bigInt (p.fromL1.getD "")
    let fromL2 := amount - fromL1
    raiseIf (fromL1 > cap1 ∨ fromL2 > cap2)
      "Insufficient balance or Safe allowance for this funding route"
    pure ⟨fromL1, fromL2⟩

end Client
