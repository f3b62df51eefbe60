import Mathlib

/-!
# Loosely typed values

What a decoded event or table entry holds under a name: a text, a number or a truth value, or nothing.  The
functions are those by which JavaScript compares such values without knowing their types.
-/

set_option autoImplicit false

namespace Js

inductive Value
  | text (s : String)
  | int (n : ℤ)
  | bool (b : Bool)
  deriving DecidableEq, Repr

/-- `Record<string, unknown>`; what is not there is `undefined`. -/
abbrev Record := String → Option Value

/-- `String(value)` -/
def Value.toText : Value → String
  | .text s => s
  | .int n => toString n
  | .bool b => toString b

/-- `String(a ?? fallback)` -/
def textOr (fallback : String) (a : Option Value) : String :=
  (a.map Value.toText).getD fallback

/-- Both are texts, and equal without regard to case. -/
def same (a b : Option Value) : Bool :=
  match a, b with
  | some (.text a), some (.text b) => a.toLower = b.toLower
  | _, _ => false

def digitValue (c : Char) : ℕ :=
  if c.isDigit then c.toNat - '0'.toNat else c.toLower.toNat - 'a'.toNat + 10

/-- The digits of a number in a given base, of which there is at least one. -/
def natural (base : ℕ) (ds : List Char) : Option ℕ :=
  if ds ≠ [] ∧ ds.all fun c ↦ c.isAlphanum && decide (digitValue c < base) then
    some (ds.foldl (fun n c ↦ base * n + digitValue c) 0)
  else none

/-- White space or the end of a line. -/
def isSpace (c : Char) : Bool :=
  (0x9 ≤ c.toNat && c.toNat ≤ 0xd) || (0x2000 ≤ c.toNat && c.toNat ≤ 0x200a) ||
    [0x20, 0xa0, 0x1680, 0x2028, 0x2029, 0x202f, 0x205f, 0x3000, 0xfeff].contains c.toNat

/-- `text.trim()` -/
def trim (text : List Char) : List Char := (text.dropWhile isSpace).rdropWhile isSpace

/-- `BigInt(text)`, if it does not throw -/
def bigInt (text : String) : Option ℤ :=
  match trim text.toList with
  | [] => some 0
  | '0' :: 'x' :: ds | '0' :: 'X' :: ds => (natural 16 ds).map Int.ofNat
  | '0' :: 'o' :: ds | '0' :: 'O' :: ds => (natural 8 ds).map Int.ofNat
  | '0' :: 'b' :: ds | '0' :: 'B' :: ds => (natural 2 ds).map Int.ofNat
  | '-' :: ds => (natural 10 ds).map fun n ↦ -(n : ℤ)
  | '+' :: ds => (natural 10 ds).map Int.ofNat
  | ds => (natural 10 ds).map Int.ofNat

/-- `BigInt(String(a ?? 0))`, or -1 -/
def amount (a : Option Value) : ℤ := (bigInt (textOr "0" a)).getD (-1)

example : bigInt "\u000c0x1f " = some 31 := by decide +kernel
example : amount (some (.text "12 gwei")) = -1 := by rfl

end Js
