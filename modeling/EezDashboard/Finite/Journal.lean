import Mathlib.Data.List.Basic
import Mathlib.Tactic.Common

/-!
# Journals

Entries are written to a journal inside of scopes.  A scope that fails takes back what was written in it, so the
newest entry at any moment is the last one that was written in no scope which has failed by then.  A note says what
the newest entry is where the note is made.

What a word of closed scopes leaves and notes does not depend on the journal it starts with, except for the entry
that is the newest there (`Nested.run`).
-/

set_option autoImplicit false

namespace Journal

universe u v

variable {α : Type u} {β : Type v}

/-- `leave` closes the innermost scope that is open, and says whether it has failed. -/
inductive Event (α : Type u) (β : Type v)
  | enter
  | write (a : α)
  | note (b : β)
  | leave (failed : Bool)

/-- The entries, the newest first, how many there were when each open scope was entered, and the notes. -/
structure State (α : Type u) (β : Type v) where
  entries : List α := []
  marks : List ℕ := []
  notes : List (β × Option α) := []

def State.step (s : State α β) : Event α β → State α β
  | .enter => { s with marks := s.entries.length :: s.marks }
  | .write a => { s with entries := a :: s.entries }
  | .note b => { s with notes := s.notes ++ [(b, s.entries.head?)] }
  | .leave failed =>
    { s with
      entries := if failed then s.entries.drop (s.entries.length - s.marks.headD 0) else s.entries
      marks := s.marks.tail }

def run (s : State α β) (w : List (Event α β)) : State α β := w.foldl State.step s

theorem run_append (s : State α β) (w w' : List (Event α β)) : run s (w ++ w') = run (run s w) w' :=
  List.foldl_append

/-- A note made where `a` was the newest entry before the word began. -/
def under (a : Option α) (n : β × Option α) : β × Option α := (n.1, n.2.or a)

@[simp] theorem under_none (n : β × Option α) : under none n = n := by rw [under, Option.or_none]

theorem under_under (a a' : Option α) (n : β × Option α) : under a' (under a n) = under (a.or a') n := by
  rw [under, under, under, Option.or_assoc]

/-- A word all of whose scopes are closed, with the entries it leaves and its notes, which know of the entries of
the word only. -/
inductive Nested : List (Event α β) → List α → List (β × Option α) → Prop
  | nil : Nested [] [] []
  | write (a : α) : Nested [.write a] [a] []
  | note (b : β) : Nested [.note b] [] [(b, none)]
  | scope {w : List (Event α β)} {kept : List α} {notes : List (β × Option α)} (h : Nested w kept notes)
      (failed : Bool) : Nested (.enter :: (w ++ [.leave failed])) (if failed then [] else kept) notes
  | append {w w' : List (Event α β)} {kept kept' : List α} {notes notes' : List (β × Option α)}
      (h : Nested w kept notes) (h' : Nested w' kept' notes') :
      Nested (w ++ w') (kept' ++ kept) (notes ++ notes'.map (under kept.head?))

section Nested

variable {w : List (Event α β)} {kept : List α} {notes : List (β × Option α)}

/-- **What a word does to any journal.** -/
theorem Nested.run (h : Nested w kept notes) (s : State α β) :
    run s w = ⟨kept ++ s.entries, s.marks, s.notes ++ notes.map (under s.entries.head?)⟩ := by
  induction h generalizing s with
  | nil => simp [Journal.run]
  | write a => simp [Journal.run, State.step]
  | note b => simp [Journal.run, State.step, under]
  | @scope w kept notes h failed ih =>
    have henter : Journal.run s [.enter] = { s with marks := s.entries.length :: s.marks } := rfl
    rw [← List.singleton_append, run_append, run_append, henter, ih]
    cases failed with
    | false => rfl
    | true =>
      -- the scope began when the journal was as long as it is without what was kept
      have hdrop : (kept ++ s.entries).drop ((kept ++ s.entries).length - s.entries.length) = s.entries := by
        rw [List.length_append, Nat.add_sub_cancel, List.drop_left]
      simp only [Journal.run, List.foldl_cons, List.foldl_nil, State.step, List.headD_cons, List.tail_cons, hdrop,
        if_true, List.nil_append]
  | @append w w' kept kept' notes notes' _ _ ih ih' =>
    rw [run_append, ih, ih']
    simp only [List.append_assoc, List.map_append, List.map_map, List.head?_append]
    congr 3
    exact List.map_congr_left fun n _ ↦ (under_under _ _ n).symm

/-- What is left was written. -/
theorem Nested.write_mem (h : Nested w kept notes) : ∀ a ∈ kept, Event.write a ∈ w := by
  induction h with
  | nil => simp
  | write a => simp
  | note b => simp
  | @scope w kept notes h failed ih =>
    intro a ha
    cases failed with
    | true => cases ha
    | false => exact List.mem_cons_of_mem _ (List.mem_append_left _ (ih a ha))
  | append _ _ ih ih' =>
    intro a ha
    rcases List.mem_append.1 ha with ha | ha
    · exact List.mem_append_right _ (ih' a ha)
    · exact List.mem_append_left _ (ih a ha)

end Nested

end Journal
