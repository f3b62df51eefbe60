import Mathlib.Data.Rat.Init
import EezDashboard.Js.Value

/-!
# What `JSON.parse` returns

Values of unknown shape: saved state, answers of a server or of a wallet.  A stored text is given by the value
it is parsed to, so that two texts written by `JSON.stringify` are equal when their values are.

Reading a property of `null` or `undefined` throws; here it gives nothing.  A check that reads it refuses the
value just as well.
-/

set_option autoImplicit false

namespace Js

/-- A value; the properties of an object are in the order in which they are enumerated. -/
inductive Json
  | null
  | bool (b : Bool)
  | num (n : ℚ)
  | str (s : String)
  | arr (items : List Json)
  | obj (properties : List (String × Json))

namespace Json

/-! ## Equality -/

mutual

def same : Json → Json → Bool
  | .null, .null => true
  | .bool a, .bool b => a == b
  | .num a, .num b => decide (a = b)
  | .str a, .str b => decide (a = b)
  | .arr a, .arr b => sameItems a b
  | .obj a, .obj b => sameProperties a b
  | _, _ => false

def sameItems : List Json → List Json → Bool
  | [], [] => true
  | a :: as, b :: bs => same a b && sameItems as bs
  | _, _ => false

def sameProperties : List (String × Json) → List (String × Json) → Bool
  | [], [] => true
  | (k, a) :: as, (l, b) :: bs => decide (k = l) && same a b && sameProperties as bs
  | _, _ => false

end

mutual

theorem same_iff : ∀ a b : Json, same a b = true ↔ a = b
  | .null, b => by cases b <;> simp [same]
  | .bool a, b => by cases b <;> simp [same]
  | .num a, b => by cases b <;> simp [same]
  | .str a, b => by cases b <;> simp [same]
  | .arr a, b => by cases b <;> simp [same, sameItems_iff a]
  | .obj a, b => by cases b <;> simp [same, sameProperties_iff a]

theorem sameItems_iff : ∀ as bs : List Json, sameItems as bs = true ↔ as = bs
  | [], bs => by cases bs <;> simp [sameItems]
  | a :: as, bs => by cases bs <;> simp [sameItems, same_iff a, sameItems_iff as]

theorem sameProperties_iff : ∀ as bs : List (String × Json), sameProperties as bs = true ↔ as = bs
  | [], bs => by cases bs <;> simp [sameProperties]
  | (k, a) :: as, bs => by
    cases bs with
    | nil => simp [sameProperties]
    | cons p bs => simp [sameProperties, same_iff a, sameProperties_iff as, Prod.ext_iff]

end

instance : DecidableEq Json := fun a b ↦ decidable_of_iff _ (same_iff a b)

/-! ## Properties -/

/-- `Object.entries(value)` -/
def entries : Json → List (String × Json)
  | .obj properties => properties
  | .arr items => items.zipIdx.map fun (item, index) ↦ (toString index, item)
  | .str s => s.toList.zipIdx.map fun (c, index) ↦ (toString index, .str (String.singleton c))
  | _ => []

/-- `value[key]`; the characters of a text are not read that way. -/
def field (key : String) : Json → Option Json
  | .str _ => none
  | value => value.entries.lookup key

/-- `Array.isArray(value)`, and its items -/
def items? : Json → Option (List Json)
  | .arr items => some items
  | _ => none

end Json

/-- `value?.[key]` -/
def get (value : Option Json) (key : String) : Option Json := value.bind (Json.field key)

/-- `!!value` -/
def truthy : Option Json → Bool
  | none | some .null => false
  | some (.bool b) => b
  | some (.num n) => n ≠ 0
  | some (.str s) => s ≠ ""
  | some (.arr _) | some (.obj _) => true

/-- `value ?? fallback` -/
def orElse (value : Option Json) (fallback : Json) : Json :=
  match value with
  | none | some .null => fallback
  | some v => v

/-- `typeof value === "string"`, and the text -/
def string? : Option Json → Option String
  | some (.str s) => some s
  | _ => none

theorem string?_eq_some {value : Option Json} {s : String} : string? value = some s ↔ value = some (.str s) := by
  cases value with
  | none => exact iff_of_false nofun nofun
  | some v => cases v <;> simp [string?]

/-- `Number.isSafeInteger(value)`, and the integer -/
def safeInteger? : Option Json → Option ℤ
  | some (.num n) => if n.den = 1 ∧ n.num.natAbs < 2 ^ 53 then some n.num else none
  | _ => none

mutual

/-- `String(value)`; a number that has a point or an exponent is not written out. -/
def Json.toText : Json → String
  | .null => "null"
  | .bool b => toString b
  | .num n => if n.den = 1 ∧ n.num.natAbs < 10 ^ 21 then toString n.num else "1e+21"
  | .str s => s
  | .arr items => ",".intercalate (itemTexts items)
  | .obj _ => "[object Object]"

def itemTexts : List Json → List String
  | [] => []
  | .null :: items => "" :: itemTexts items
  | item :: items => item.toText :: itemTexts items

end

/-- `String(value)` -/
def text (value : Option Json) : String := (value.map Json.toText).getD "undefined"

end Js
