import EezDashboard.Contract.Program

/-!
# Decoding returndata

The decoders a caller applies to the words a callee returned.  Each one takes the words it needs
from the front, ignores what follows, and refuses what is too short or does not fit the type.
-/

set_option autoImplicit false

namespace Contract

/-- An account. -/
abbrev Address := BitVec 160

namespace Abi

/-- No result is expected, so nothing is decoded. -/
def nothing (_ : List Word) : Option Unit := some ()

/-- `uint256` -/
def uint256 : List Word → Option ℕ
  | w :: _ => some w.toNat
  | [] => none

/-- `uint64` -/
def uint64 : List Word → Option ℕ
  | w :: _ => if w.toNat < 2 ^ 64 then some w.toNat else none
  | [] => none

/-- `bool` -/
def bool : List Word → Option Bool
  | w :: _ => if w = 0 then some false else if w = 1 then some true else none
  | [] => none

/-- `address` -/
def address : List Word → Option Address
  | w :: _ => if w.toNat < 2 ^ 160 then some (w.setWidth 160) else none
  | [] => none

/-- The words a number is returned as. -/
def ofNat (n : ℕ) : List Word := [BitVec.ofNat 256 n]

/-- The words an account is returned as. -/
def ofAddress (a : Address) : List Word := [a.setWidth 256]

theorem uint256_ofNat {n : ℕ} (h : n < 2 ^ 256) : uint256 (ofNat n) = some n := by
  rw [ofNat, uint256, BitVec.toNat_ofNat, Nat.mod_eq_of_lt h]

theorem address_ofAddress (a : Address) : address (ofAddress a) = some a := by
  have ha : (a.setWidth 256).toNat = a.toNat := by
    rw [BitVec.toNat_setWidth, Nat.mod_eq_of_lt (Nat.lt_trans a.isLt (by decide))]
  rw [ofAddress, address, ha, if_pos a.isLt]
  simp

end Abi

end Contract
