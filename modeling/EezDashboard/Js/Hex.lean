import Mathlib.Data.Nat.Digits.Lemmas
import EezDashboard.Js.Value

/-!
# Hexadecimal texts

What the regular expressions accept, the number that is written, and how a number is written.
-/

set_option autoImplicit false

namespace Js

/-- `[0-9a-f]`, without regard to case -/
def isHexDigit (c : Char) : Bool := c.isDigit || (('a' ≤ c && c ≤ 'f') || ('A' ≤ c && c ≤ 'F'))

/-- `s.toLowerCase()`, of what may be compared with a hexadecimal text -/
def lowerCase (s : String) : String := String.ofList (s.toList.map Char.toLower)

/-- `/^0x[0-9a-f]*$/i`, and the digits -/
def hexDigits? (s : String) : Option (List Char) :=
  match s.toList with
  | '0' :: 'x' :: ds | '0' :: 'X' :: ds => if ds.all isHexDigit then some ds else none
  | _ => none

/-- `/^0x[0-9a-f]{n}$/i` -/
def hexOfLength (n : ℕ) (s : String) : Bool := (hexDigits? s).any fun ds ↦ ds.length = n

/-- `/^0x[0-9a-f]+$/i` -/
def isHexNumber (s : String) : Bool := (hexDigits? s).any fun ds ↦ ds ≠ []

/-- `/^\d+$/` -/
def isDecimal (s : String) : Bool := s ≠ "" && s.toList.all Char.isDigit

/-- The number that digits write. -/
def hexValue (ds : List Char) : ℕ := ds.foldl (fun n c ↦ 16 * n + digitValue c) 0

/-- `n.toString(16)` -/
def hexDigits (n : ℕ) : List Char := if n = 0 then ['0'] else ((Nat.digits 16 n).map Nat.digitChar).reverse

/-- `0x${n.toString(16)}` -/
def toHex (n : ℕ) : String := String.ofList ('0' :: 'x' :: hexDigits n)

/-- A `Hex` value: `0x`, and digits in either case. -/
structure Hex where
  digits : List Char
  hex : ∀ c ∈ digits, isHexDigit c = true

/-- The text itself. -/
def Hex.text (h : Hex) : List Char := '0' :: 'x' :: h.digits

/-- Where a text of length `n` is cut by an index, which counts from the end when it is negative. -/
def cut (n : ℕ) (i : ℤ) : ℕ := if i < 0 then (n + i).toNat else i.toNat

/-- `text.slice(i, j)` -/
def slice (text : List Char) (i j : ℤ) : List Char := (text.take (cut text.length j)).drop (cut text.length i)

/-- `text.slice(i)` -/
def sliceFrom (text : List Char) (i : ℤ) : List Char := text.drop (cut text.length i)

theorem digitValue_digitChar {d : ℕ} (h : d < 16) : digitValue (Nat.digitChar d) = d := by
  revert d
  decide

theorem isHexDigit_digitChar {d : ℕ} (h : d < 16) : isHexDigit (Nat.digitChar d) = true := by
  revert d
  decide

theorem hexValue_reverse (ds : List ℕ) (h : ∀ d ∈ ds, d < 16) :
    hexValue (ds.map Nat.digitChar).reverse = Nat.ofDigits 16 ds := by
  induction ds with
  | nil => rfl
  | cons d ds ih =>
    rw [List.forall_mem_cons] at h
    rw [List.map_cons, List.reverse_cons, hexValue, List.foldl_append, ← hexValue, ih h.2, Nat.ofDigits_cons,
      List.foldl_cons, List.foldl_nil, digitValue_digitChar h.1, Nat.add_comm]

/-- The digits of a number write it. -/
theorem hexValue_hexDigits (n : ℕ) : hexValue (hexDigits n) = n := by
  rw [hexDigits]
  split
  · rename_i h
    rw [h]
    rfl
  · rw [hexValue_reverse _ fun d hd ↦ Nat.digits_lt_base (by decide) hd, Nat.ofDigits_digits]

theorem isHexDigit_of_mem_hexDigits {n : ℕ} {c : Char} (h : c ∈ hexDigits n) : isHexDigit c = true := by
  rw [hexDigits] at h
  split at h
  · rw [List.mem_singleton.1 h]
    rfl
  · obtain ⟨d, hd, rfl⟩ := List.mem_map.1 (List.mem_reverse.1 h)
    exact isHexDigit_digitChar (Nat.digits_lt_base (by decide) hd)

theorem hexDigits?_toHex (n : ℕ) : hexDigits? (toHex n) = some (hexDigits n) := by
  rw [hexDigits?, toHex, String.toList_ofList]
  exact if_pos (List.all_eq_true.2 fun c ↦ isHexDigit_of_mem_hexDigits)

/-- A number has few digits when it is small. -/
theorem length_hexDigits_le {n k : ℕ} (hk : 0 < k) (h : n < 16 ^ k) : (hexDigits n).length ≤ k := by
  rw [hexDigits]
  split
  · exact hk
  · rw [List.length_reverse, List.length_map]
    exact (Nat.digits_length_le_iff (by decide) n).2 h

example : toHex 255 = "0xff" := by decide +kernel

end Js
