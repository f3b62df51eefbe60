import Mathlib.Logic.Function.Basic
import Mathlib.Data.List.Nodup

/-!
# A list threaded through a function

`next` gives each element the one that follows it.  `Chain next a l z` says that from `a` it runs
through the elements of `l` and ends at `z`; when `a` and `z` are one element the list is a ring with
that element as its sentinel, and elements are taken out and put in behind it by two assignments.
-/

set_option autoImplicit false

namespace Linked

variable {α : Type}

/-- From `a` the links run through `l` to `z`. -/
def Chain (next : α → α) (a : α) : List α → α → Prop
  | [], z => next a = z
  | b :: l, z => next a = b ∧ Chain next b l z

/-- What the links run through before they come to `z`, at most `n` elements. -/
def walk [DecidableEq α] (next : α → α) (z : α) : ℕ → α → List α
  | 0, _ => []
  | n + 1, a => if next a = z then [] else next a :: walk next z n (next a)

variable {next next' : α → α} {a b z : α} {l : List α}

/-- Only the links of the elements passed through matter. -/
theorem Chain.congr (h : Chain next a l z) (hsame : ∀ x ∈ a :: l, next' x = next x) : Chain next' a l z := by
  induction l generalizing a with
  | nil => exact (hsame a List.mem_cons_self).trans h
  | cons b l ih =>
    refine ⟨(hsame a List.mem_cons_self).trans h.1, ih h.2 fun x hx ↦ hsame x (List.mem_cons_of_mem _ hx)⟩

/-- Each element has another behind it, or the end. -/
theorem Chain.next_mem {x : α} (h : Chain next a l z) (hx : x ∈ a :: l) : next x ∈ l ∨ next x = z := by
  induction l generalizing a with
  | nil => exact .inr (List.mem_singleton.1 hx ▸ h)
  | cons b l ih =>
    obtain rfl | hx := List.mem_cons.1 hx
    · exact .inl (h.1 ▸ List.mem_cons_self)
    · exact (ih h.2 hx).imp_left (List.mem_cons_of_mem _)

variable [DecidableEq α]

theorem Chain.walk_eq (h : Chain next a l z) (hz : z ∉ l) : walk next z l.length a = l := by
  induction l generalizing a with
  | nil => rfl
  | cons b l ih =>
    rw [List.mem_cons, not_or] at hz
    rw [List.length_cons, walk, h.1, if_neg (Ne.symm hz.1), ih h.2 hz.2]

/-- Take out the first element: the one before it points past it. -/
theorem Chain.remove (h : Chain next a (b :: l) z) (hb : b ∉ l) (ha : a ∉ l) (hab : a ≠ b) (x : α) :
    Chain (Function.update (Function.update next a (next b)) b x) a l z := by
  have hfirst : Function.update (Function.update next a (next b)) b x a = next b := by
    rw [Function.update_of_ne hab, Function.update_self]
  cases l with
  | nil => exact hfirst.trans h.2
  | cons c l =>
    refine ⟨hfirst.trans h.2.1, h.2.2.congr fun y hy ↦ ?_⟩
    have hyb : y ≠ b := fun e ↦ hb (e ▸ hy)
    have hya : y ≠ a := fun e ↦ ha (e ▸ hy)
    rw [Function.update_of_ne hyb, Function.update_of_ne hya]

/-- Put `c` in the place of the first element. -/
theorem Chain.replace {c : α} (h : Chain next a (b :: l) z) (hb : b ∉ l) (ha : a ∉ l) (hc : c ∉ l)
    (hab : a ≠ b) (hac : a ≠ c) (hbc : b ≠ c) (x : α) :
    Chain (Function.update (Function.update (Function.update next c (next b)) a c) b x) a (c :: l) z := by
  have hlink : Function.update (Function.update (Function.update next c (next b)) a c) b x c = next b := by
    rw [Function.update_of_ne hbc.symm, Function.update_of_ne hac.symm, Function.update_self]
  refine ⟨by rw [Function.update_of_ne hab, Function.update_self], ?_⟩
  cases l with
  | nil => exact hlink.trans h.2
  | cons d l =>
    refine ⟨hlink.trans h.2.1, h.2.2.congr fun y hy ↦ ?_⟩
    have hyb : y ≠ b := fun e ↦ hb (e ▸ hy)
    have hya : y ≠ a := fun e ↦ ha (e ▸ hy)
    have hyc : y ≠ c := fun e ↦ hc (e ▸ hy)
    rw [Function.update_of_ne hyb, Function.update_of_ne hya, Function.update_of_ne hyc]

end Linked
