import Mathlib.Data.List.Perm.Subperm
import Mathlib.Logic.Relation
import Mathlib.Tactic.Common

/-!
# Forests given by their lists of children

A walk from the roots of a graph that lists a node and then what its children list visits every node
exactly once, if each node has one place, among the roots or among the children of one node, and no node
is above itself.  `Acc (Parent children)` says the latter of one node: climbing from it comes to an end.
-/

set_option autoImplicit false

namespace Forest

variable {α : Type*} (children : α → List α)

/-- The nodes listed by a walk of `n` levels from a list of nodes. -/
def walk : ℕ → List α → List α
  | 0, _ => []
  | n + 1, nodes => nodes.flatMap fun a ↦ a :: walk n (children a)

/-- The first node is a parent of the second. -/
def Parent (a b : α) : Prop := b ∈ children a

variable {children}

@[simp] theorem walk_nil (n : ℕ) : walk children n [] = [] := by cases n <;> rfl

theorem walk_append (n : ℕ) (l l' : List α) :
    walk children n (l ++ l') = walk children n l ++ walk children n l' := by
  cases n with
  | zero => rfl
  | succ n => rw [walk, walk, walk, List.flatMap_append]

theorem walk_flatMap (n : ℕ) (l : List α) :
    walk children n (l.flatMap children) = l.flatMap fun a ↦ walk children n (children a) := by
  induction l with
  | nil => rw [List.flatMap_nil, List.flatMap_nil, walk_nil]
  | cons a l ih => rw [List.flatMap_cons, List.flatMap_cons, walk_append, ih]

/-- The first level of a walk, and the walk from the next. -/
theorem walk_succ_perm (n : ℕ) (l : List α) :
    (walk children (n + 1) l).Perm (l ++ walk children n (l.flatMap children)) := by
  rw [walk_flatMap, walk]
  induction l with
  | nil => exact List.Perm.refl _
  | cons a l ih =>
    rw [List.flatMap_cons, List.flatMap_cons, List.cons_append, List.cons_append]
    refine List.Perm.cons a ?_
    refine (ih.append_left _).trans ?_
    rw [← List.append_assoc, ← List.append_assoc]
    exact List.perm_append_comm.append_right _

/-- Nodes that have their parents among themselves do not exist. -/
theorem eq_nil_of_closed {l : List α} (hacc : ∀ a ∈ l, Acc (Parent children) a)
    (h : (l.flatMap children).Perm l) : l = [] := by
  rw [List.eq_nil_iff_forall_not_mem]
  intro a ha
  have climb : ∀ a, Acc (Parent children) a → a ∉ l := by
    intro a hacc
    induction hacc with
    | intro a _ ih =>
      intro ha
      obtain ⟨p, hp, hchild⟩ := List.mem_flatMap.1 (h.mem_iff.2 ha)
      exact ih p hchild hp
  exact climb a (hacc a ha) ha

/-- **A walk through a forest.**  When each node has one place and climbing comes to an end, the walk from
the roots lists every node once, and is complete after as many levels as there are nodes. -/
theorem walk_perm {roots nodes : List α} (hacc : ∀ a ∈ nodes, Acc (Parent children) a)
    (hplace : (roots ++ nodes.flatMap children).Perm nodes) :
    ∀ n, nodes.length ≤ n → (walk children n roots).Perm nodes := by
  intro n
  induction n generalizing roots nodes with
  | zero =>
    intro hn
    rw [List.length_eq_zero_iff.1 (Nat.le_zero.1 hn)]
    exact List.Perm.refl _
  | succ n ih =>
    intro hn
    cases hroots : roots with
    | nil =>
      rw [hroots, List.nil_append] at hplace
      rw [eq_nil_of_closed hacc hplace, walk_nil]
    | cons root rest =>
      -- what is not a root is a child; the children of the roots are the roots of the rest
      have hsub : nodes.flatMap children ⊆ nodes :=
        fun a ha ↦ hplace.mem_iff.1 (List.mem_append_right _ ha)
      have hplace' := (hplace.flatMap_right children)
      rw [List.flatMap_append] at hplace'
      have hlen := hplace.length_eq
      rw [List.length_append, hroots, List.length_cons] at hlen
      have hrest := ih (fun a ha ↦ hacc a (hsub ha)) hplace' (by omega)
      rw [← hroots]
      exact ((walk_succ_perm n roots).trans (hrest.append_left roots)).trans hplace

/-- What climbing from comes to an end is not above itself. -/
theorem not_above_self {r : α → α → Prop} {a : α} (h : Acc r a) : ¬ Relation.TransGen r a a := by
  intro hself
  have hne : ∀ b, Acc (Relation.TransGen r) b → ¬ Relation.TransGen r b b := by
    intro b hb
    induction hb with
    | intro b _ ih => exact fun hbb ↦ ih b hbb hbb
  exact hne a h.transGen hself

end Forest
