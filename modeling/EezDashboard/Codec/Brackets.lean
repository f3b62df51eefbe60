import Mathlib.Data.List.Basic
import Mathlib.Tactic.Common

/-!
# Words of brackets

A word over several kinds of brackets, each bracket with a label of its own.  A word is well nested
when it is the word of a `Forest`: every node is an opening bracket, a forest between, and the
closing bracket of the same kind.

A machine that reads such a word keeps a stack of the kinds that are open (`track`).  The main
result is `trackAll_eq_some_nil`: the stack is empty at both ends of a word exactly when the word
is well nested.  A reader with more state than the stack is brought under it by showing that its
stack moves as `track` does.
-/

set_option autoImplicit false

universe u

namespace Brackets

variable {κ : Type u} {O C : κ → Type u}

/-- One bracket: its kind, whether it opens or closes, and the label it carries. -/
inductive Bracket (O C : κ → Type u)
  | opening (k : κ) (a : O k)
  | closing (k : κ) (b : C k)

/-- A sequence of nodes, given by its first node and the rest. -/
inductive Forest (O C : κ → Type u)
  | nil
  | node (k : κ) (a : O k) (body : Forest O C) (b : C k) (rest : Forest O C)

/-- The word of a forest. -/
def Forest.word : Forest O C → List (Bracket O C)
  | .nil => []
  | .node k a body b rest => .opening k a :: (body.word ++ .closing k b :: rest.word)

variable [DecidableEq κ]

/-- What one bracket does to the stack of open kinds, innermost first. -/
def track : List κ → Bracket O C → Option (List κ)
  | stack, .opening k _ => some (k :: stack)
  | [], .closing _ _ => none
  | k' :: stack, .closing k _ => if k' = k then some stack else none

def trackAll (stack : List κ) (w : List (Bracket O C)) : Option (List κ) := w.foldlM track stack

@[simp] theorem trackAll_nil (stack : List κ) :
    trackAll stack ([] : List (Bracket O C)) = some stack := rfl

@[simp] theorem trackAll_opening (stack : List κ) (k : κ) (a : O k) (w : List (Bracket O C)) :
    trackAll stack (.opening k a :: w) = trackAll (k :: stack) w := rfl

theorem trackAll_closing {stack stack' : List κ} {k : κ} {b : C k} {w : List (Bracket O C)} :
    trackAll stack (.closing k b :: w) = some stack' ↔
      ∃ below, stack = k :: below ∧ trackAll below w = some stack' := by
  cases stack with
  | nil => simp [trackAll, track]
  | cons k' below =>
    by_cases h : k' = k
    · simp [trackAll, track, h]
    · simp [trackAll, track, h]

theorem trackAll_append {stack : List κ} {v w : List (Bracket O C)} :
    trackAll stack (v ++ w) = (trackAll stack v).bind fun stack ↦ trackAll stack w := by
  rw [trackAll, List.foldlM_append]
  rfl

/-- The word of a forest leaves the stack as it was. -/
@[simp] theorem trackAll_word (f : Forest O C) (stack : List κ) :
    trackAll stack f.word = some stack := by
  induction f generalizing stack with
  | nil => rfl
  | node k a body b rest ihb ihr =>
    rw [Forest.word, trackAll_opening, trackAll_append, ihb, Option.bind_some, trackAll_closing]
    exact ⟨stack, rfl, ihr stack⟩

/-- A word that empties the stack starts with a forest, and goes on with the bracket that closes
what was open in front of it, if anything was. -/
theorem exists_forest_of_trackAll (n : ℕ) {stack : List κ} {w : List (Bracket O C)}
    (hn : w.length ≤ n) (h : trackAll stack w = some []) :
    ∃ f : Forest O C, (w = f.word ∧ stack = []) ∨
      ∃ k b rest below, w = f.word ++ .closing k b :: rest ∧ stack = k :: below ∧
        trackAll below rest = some [] := by
  induction n generalizing stack w with
  | zero =>
    obtain rfl := List.length_eq_zero_iff.mp (Nat.le_zero.mp hn)
    exact ⟨.nil, Or.inl ⟨rfl, by simpa using h⟩⟩
  | succ n ih =>
    rcases w with _ | ⟨⟨k, a⟩ | ⟨k, b⟩, w⟩
    · exact ⟨.nil, Or.inl ⟨rfl, by simpa using h⟩⟩
    · -- the bracket that opens here is closed behind the forest that `w` starts with
      rw [trackAll_opening] at h
      rw [List.length_cons] at hn
      obtain ⟨body, ⟨-, hbad⟩ | ⟨k', b, rest, below, rfl, hstack, hrest⟩⟩ := ih (by omega) h
      · cases hbad
      · obtain ⟨rfl, rfl⟩ := List.cons.inj hstack
        rw [List.length_append, List.length_cons] at hn
        obtain ⟨f, ⟨rfl, hempty⟩ | ⟨k', b', rest', below, rfl, hbelow, hrest'⟩⟩ :=
          ih (by omega) hrest
        · exact ⟨.node k a body b f, Or.inl ⟨rfl, hempty⟩⟩
        · refine ⟨.node k a body b f, Or.inr ⟨k', b', rest', below, ?_, hbelow, hrest'⟩⟩
          rw [Forest.word, List.cons_append, List.append_assoc, List.cons_append]
    · obtain ⟨below, hstack, hrest⟩ := trackAll_closing.mp h
      exact ⟨.nil, Or.inr ⟨k, b, w, below, rfl, hstack, hrest⟩⟩

/-- **The stack tells well nested words.** -/
theorem trackAll_eq_some_nil {w : List (Bracket O C)} :
    trackAll [] w = some [] ↔ ∃ f : Forest O C, f.word = w := by
  constructor
  · intro h
    obtain ⟨f, ⟨rfl, -⟩ | ⟨k, b, rest, below, -, hbad, -⟩⟩ :=
      exists_forest_of_trackAll w.length (Nat.le_refl _) h
    · exact ⟨f, rfl⟩
    · cases hbad
  · rintro ⟨f, rfl⟩
    exact trackAll_word f []

end Brackets
