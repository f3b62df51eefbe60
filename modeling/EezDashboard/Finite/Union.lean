import Mathlib.Logic.Function.Iterate
import Mathlib.Logic.Relation
import Mathlib.Data.Nat.Notation
import Mathlib.Tactic.Common

/-!
# Merging classes

Each element links to another one of its class, or to itself when it stands for the class; following the
links is how one finds it.  Joining two elements links one representative to the other.  After any joins, two
elements have the same representative exactly when the joined pairs connect them.
-/

set_option autoImplicit false

/-- Links that are followed to an end within `depth` steps. -/
structure Links (α : Type*) where
  link : α → α
  depth : ℕ
  ends : ∀ a, link (link^[depth] a) = link^[depth] a

namespace Links

variable {α : Type*}

/-- Everything stands for itself. -/
def single : Links α := ⟨id, 0, fun _ ↦ rfl⟩

/-- The representative. -/
def root (l : Links α) (a : α) : α := l.link^[l.depth] a

@[simp] theorem root_single (a : α) : (single : Links α).root a = a := rfl

theorem link_root (l : Links α) (a : α) : l.link (l.root a) = l.root a := l.ends a

/-- An element that links to itself, and that nothing else links to. -/
def Alone (l : Links α) (x : α) : Prop := ∀ y, l.link y = x ↔ y = x

theorem alone_single (x : α) : (single : Links α).Alone x := fun _ ↦ Iff.rfl

theorem Alone.root_eq_iff {l : Links α} {x : α} (h : l.Alone x) (y : α) : l.root y = x ↔ y = x := by
  have hwalk : ∀ n, l.link^[n] y = x ↔ y = x := by
    intro n
    induction n with
    | zero => exact Iff.rfl
    | succ n ih => rw [Function.iterate_succ_apply', h, ih]
  exact hwalk l.depth

variable [DecidableEq α]

/-- What a changed link does to a walk: it ends where it ended, unless it came to `b`, and goes on to `a`. -/
theorem iterate_update {link : α → α} {a b : α} (ha : link a = a) (hb : link b = b) (n : ℕ) (x : α)
    (hx : link (link^[n] x) = link^[n] x) :
    (Function.update link b a)^[n + 1] x = if link^[n] x = b then a else link^[n] x := by
  have hfix : Function.update link b a a = a := by
    by_cases hab : a = b
    · rw [← hab, Function.update_self]
    · rw [Function.update_of_ne hab, ha]
  induction n generalizing x with
  | zero =>
    rw [Function.iterate_one, Function.iterate_zero_apply]
    by_cases hxb : x = b
    · rw [hxb, Function.update_self, if_pos rfl]
    · rw [Function.update_of_ne hxb, if_neg hxb]
      exact hx
  | succ n ih =>
    rw [Function.iterate_succ_apply _ (n + 1)]
    by_cases hxb : x = b
    · rw [hxb, Function.update_self, Function.iterate_fixed hfix, Function.iterate_fixed hb, if_pos rfl]
    · rw [Function.update_of_ne hxb, Function.iterate_succ_apply]
      exact ih (link x) hx

/-- Joining two elements: the second representative links to the first. -/
def join (l : Links α) (a b : α) : Links α where
  link := Function.update l.link (l.root b) (l.root a)
  depth := l.depth + 1
  ends x := by
    have ha := l.link_root a
    have hb := l.link_root b
    rw [iterate_update ha hb l.depth x (l.ends x)]
    split
    · by_cases hab : l.root a = l.root b
      · rw [hab, Function.update_self]
      · rw [Function.update_of_ne hab, ha]
    · rename_i hne
      rw [Function.update_of_ne hne, l.ends]

theorem root_join (l : Links α) (a b x : α) :
    (l.join a b).root x = if l.root x = l.root b then l.root a else l.root x :=
  iterate_update (l.link_root a) (l.link_root b) l.depth x (l.ends x)

/-- Linking an element to itself. -/
def set (l : Links α) (a : α) : Links α where
  link := Function.update l.link a a
  depth := l.depth
  ends x := by
    -- a walk comes to `a` and stays there, or goes on as before
    have hwalk : ∀ n, (Function.update l.link a a)^[n] x = a ∨
        (Function.update l.link a a)^[n] x = l.link^[n] x := by
      intro n
      induction n with
      | zero => exact .inr rfl
      | succ n ih =>
        rw [Function.iterate_succ_apply', Function.iterate_succ_apply']
        rcases ih with h | h
        · rw [h, Function.update_self]
          exact .inl rfl
        · rw [h]
          by_cases hx : l.link^[n] x = a
          · rw [hx, Function.update_self]
            exact .inl rfl
          · rw [Function.update_of_ne hx]
            exact .inr rfl
    by_cases hx : (Function.update l.link a a)^[l.depth] x = a
    · rw [hx, Function.update_self]
    · rw [Function.update_of_ne hx, (hwalk l.depth).resolve_left hx, l.ends]

theorem Alone.set_eq {l : Links α} {x : α} (h : l.Alone x) : l.set x = l := by
  have hlink : Function.update l.link x x = l.link := by
    rw [Function.update_eq_self_iff]
    exact ((h x).2 rfl).symm
  cases l
  simp only [set, mk.injEq, and_true]
  exact hlink

/-- Joining others leaves an element alone. -/
theorem Alone.join {l : Links α} {x a b : α} (h : l.Alone x) (ha : a ≠ x) (hb : b ≠ x) :
    (l.join a b).Alone x := by
  have hroot : l.root b ≠ x := fun heq ↦ hb ((h.root_eq_iff b).1 heq)
  intro y
  change Function.update l.link (l.root b) (l.root a) y = x ↔ y = x
  by_cases hy : y = l.root b
  · rw [hy, Function.update_self, h.root_eq_iff]
    exact iff_of_false ha hroot
  · rw [Function.update_of_ne hy, h]

/-- Joins in a row. -/
def joinAll (l : Links α) (pairs : List (α × α)) : Links α :=
  pairs.foldl (fun l p ↦ l.join p.1 p.2) l

theorem joinAll_append (l : Links α) (pairs pairs' : List (α × α)) :
    l.joinAll (pairs ++ pairs') = (l.joinAll pairs).joinAll pairs' :=
  List.foldl_append

theorem Alone.joinAll {x : α} (pairs : List (α × α)) : ∀ {l : Links α}, l.Alone x →
    (∀ p ∈ pairs, p.1 ≠ x ∧ p.2 ≠ x) → (l.joinAll pairs).Alone x := by
  induction pairs with
  | nil => exact fun h _ ↦ h
  | cons p pairs ih =>
    intro l h hne
    rw [List.forall_mem_cons] at hne
    exact ih (h.join hne.1.1 hne.1.2) hne.2

/-- Equal representatives stay equal. -/
theorem root_joinAll_congr (pairs : List (α × α)) : ∀ (l : Links α) {x y : α}, l.root x = l.root y →
    (l.joinAll pairs).root x = (l.joinAll pairs).root y := by
  induction pairs with
  | nil => exact fun _ _ _ h ↦ h
  | cons p pairs ih =>
    intro l x y h
    refine ih (l.join p.1 p.2) ?_
    rw [root_join, root_join, h]

/-- A joined pair has one representative. -/
theorem root_joinAll_pair (pairs : List (α × α)) : ∀ (l : Links α) {a b : α}, (a, b) ∈ pairs →
    (l.joinAll pairs).root a = (l.joinAll pairs).root b := by
  induction pairs with
  | nil => exact fun _ _ _ h ↦ absurd h List.not_mem_nil
  | cons p pairs ih =>
    intro l a b h
    rcases List.mem_cons.1 h with rfl | h
    · refine root_joinAll_congr pairs _ ?_
      rw [root_join, root_join, if_pos rfl]
      split <;> rfl
    · exact ih (l.join p.1 p.2) h

/-- A representative is connected to what it stands for. -/
theorem root_joinAll_connected {r : α → α → Prop} (pairs : List (α × α))
    (hr : ∀ p ∈ pairs, r p.1 p.2) : ∀ (l : Links α), (∀ x, Relation.EqvGen r x (l.root x)) →
    ∀ x, Relation.EqvGen r x ((l.joinAll pairs).root x) := by
  induction pairs with
  | nil => exact fun _ h ↦ h
  | cons p pairs ih =>
    intro l h
    rw [List.forall_mem_cons] at hr
    refine ih hr.2 (l.join p.1 p.2) fun x ↦ ?_
    rw [root_join]
    split
    · rename_i hx
      have hback := (h p.2).symm
      rw [← hx] at hback
      exact (((h x).trans _ _ _ hback).trans _ _ _ (Relation.EqvGen.rel _ _ hr.1).symm).trans _ _ _ (h p.1)
    · exact h x

/-- **Same class.**  Two elements have the same representative exactly when joined pairs connect them. -/
theorem root_joinAll_eq_iff (pairs : List (α × α)) (x y : α) :
    ((single : Links α).joinAll pairs).root x = ((single : Links α).joinAll pairs).root y ↔
      Relation.EqvGen (fun a b ↦ (a, b) ∈ pairs) x y := by
  constructor
  · intro h
    have hconnected := root_joinAll_connected pairs (r := fun a b ↦ (a, b) ∈ pairs) (fun _ hp ↦ hp)
      single fun x ↦ Relation.EqvGen.refl x
    have hx := hconnected x
    rw [h] at hx
    exact hx.trans _ _ _ (hconnected y).symm
  · intro h
    induction h with
    | rel a b hab => exact root_joinAll_pair pairs single hab
    | refl a => rfl
    | symm a b _ ih => exact ih.symm
    | trans a b c _ _ ih ih' => exact ih.trans ih'

/-! ## Looking up with halved paths

A lookup makes every element it passes link past the next one.  That changes no representative. -/

/-- A link past the next element leads to where the walk ended. -/
theorem iterate_halve {link : α → α} (x : α) (n : ℕ) (y : α) (h : link (link^[n] y) = link^[n] y) :
    (Function.update link x (link (link x)))^[n] y = link^[n] y := by
  induction n generalizing y with
  | zero => rfl
  | succ n ih =>
    rw [Function.iterate_succ_apply, Function.iterate_succ_apply] at *
    by_cases hyx : y = x
    · rw [hyx] at h ⊢
      have hnext : link^[n] (link (link x)) = link^[n] (link x) := by
        rw [← Function.iterate_succ_apply, Function.iterate_succ_apply', h]
      rw [Function.update_self, ih _ (by rw [hnext, h]), hnext]
    · rw [Function.update_of_ne hyx, ih _ h]

theorem update_fixed {link : α → α} {x y : α} (h : link y = y) :
    Function.update link x (link (link x)) y = y := by
  by_cases hyx : y = x
  · rw [hyx] at h ⊢
    rw [Function.update_self, h, h]
  · rw [Function.update_of_ne hyx, h]

/-- `parent.set(x, parent.get(parent.get(x)))` -/
def halve (l : Links α) (x : α) : Links α where
  link := Function.update l.link x (l.link (l.link x))
  depth := l.depth
  ends y := by
    rw [iterate_halve x _ _ (l.ends y)]
    exact update_fixed (l.ends y)

theorem root_halve (l : Links α) (x y : α) : (l.halve x).root y = l.root y := iterate_halve x _ _ (l.ends y)

omit [DecidableEq α] in
theorem root_of_fixed {l : Links α} {x : α} (h : l.link x = x) : l.root x = x := Function.iterate_fixed h _

omit [DecidableEq α] in
theorem root_link (l : Links α) (x : α) : l.root (l.link x) = l.root x := by
  rw [root, ← Function.iterate_succ_apply, Function.iterate_succ_apply']
  exact l.link_root x

/-- The loop: while the element does not stand for itself, halve its path and go on. -/
def findFrom : ℕ → Links α → α → Links α × α
  | 0, l, x => (l, x)
  | n + 1, l, x => if l.link x = x then (l, x) else findFrom n (l.halve x) (l.link (l.link x))

/-- The representative, found with halved paths; as many turns as the links are deep are enough. -/
def find (l : Links α) (x : α) : Links α × α := findFrom l.depth l x

theorem findFrom_spec (n : ℕ) (l : Links α) (x : α) (h : l.link (l.link^[n] x) = l.link^[n] x) :
    (findFrom n l x).2 = l.root x ∧ ∀ y, (findFrom n l x).1.root y = l.root y := by
  induction n generalizing l x with
  | zero => exact ⟨(root_of_fixed h).symm, fun _ ↦ rfl⟩
  | succ n ih =>
    rw [findFrom]
    split
    next hfixed => exact ⟨(root_of_fixed hfixed).symm, fun _ ↦ rfl⟩
    next hmoves =>
      have hend : l.link (l.link^[n] (l.link (l.link x))) = l.link^[n] (l.link (l.link x)) := by
        have hnext : l.link^[n] (l.link (l.link x)) = l.link (l.link^[n + 1] x) := by
          rw [← Function.iterate_succ_apply, Function.iterate_succ_apply', ← Function.iterate_succ_apply l.link n x]
        rw [hnext, h, h]
      have hend' : (l.halve x).link ((l.halve x).link^[n] (l.link (l.link x))) =
          (l.halve x).link^[n] (l.link (l.link x)) := by
        rw [halve, iterate_halve x n _ hend]
        exact update_fixed hend
      obtain ⟨hroot, hsame⟩ := ih (l.halve x) _ hend'
      refine ⟨?_, fun y ↦ (hsame y).trans (root_halve l x y)⟩
      rw [hroot, root_halve, root_link, root_link]

theorem find_root (l : Links α) (x : α) : (l.find x).2 = l.root x := (findFrom_spec _ l x (l.ends x)).1

theorem root_find (l : Links α) (x y : α) : (l.find x).1.root y = l.root y := (findFrom_spec _ l x (l.ends x)).2 y

/-- Look both up, and let the first representative link to the second. -/
def unite (l : Links α) (a b : α) : Links α :=
  let (l, ra) := l.find a
  let (l, rb) := l.find b
  if ra ≠ rb then l.join rb ra else l

theorem root_unite (l : Links α) (a b x : α) :
    (l.unite a b).root x = if l.root x = l.root a then l.root b else l.root x := by
  have hidem (y : α) : l.root (l.root y) = l.root y := root_of_fixed (l.link_root y)
  rw [unite]
  simp only [find_root, root_find]
  split
  · rw [root_join, root_find, root_find, root_find, root_find, root_find, root_find, hidem, hidem]
  next hsame =>
    rw [not_not] at hsame
    rw [root_find, root_find, hsame]
    split <;> simp [*]

/-- Pairs united in a row. -/
def uniteAll (l : Links α) (pairs : List (α × α)) : Links α := pairs.foldl (fun l p ↦ l.unite p.1 p.2) l

theorem root_uniteAll (pairs : List (α × α)) : ∀ (l l' : Links α), (∀ x, l.root x = l'.root x) →
    ∀ x, (l.uniteAll pairs).root x = (l'.joinAll (pairs.map Prod.swap)).root x := by
  induction pairs with
  | nil => exact fun _ _ h ↦ h
  | cons p pairs ih =>
    intro l l' h
    refine ih (l.unite p.1 p.2) (l'.join p.2 p.1) fun x ↦ ?_
    rw [root_unite, root_join, h, h, h]

omit [DecidableEq α] in
/-- What is connected stays connected when each step can be made in another way. -/
theorem eqvGen_of_steps {r p : α → α → Prop} (h : ∀ a b, r a b → Relation.EqvGen p a b) {a b : α}
    (hab : Relation.EqvGen r a b) : Relation.EqvGen p a b := by
  induction hab with
  | rel a b hab => exact h a b hab
  | refl a => exact .refl a
  | symm a b _ ih => exact ih.symm
  | trans a b c _ _ ih ih' => exact ih.trans _ _ _ ih'

/-- **Same class.**  United pairs connect the elements that have the same representative. -/
theorem root_uniteAll_eq_iff (pairs : List (α × α)) (x y : α) :
    ((single : Links α).uniteAll pairs).root x = ((single : Links α).uniteAll pairs).root y ↔
      Relation.EqvGen (fun a b ↦ (a, b) ∈ pairs) x y := by
  have hswap (x y : α) : Relation.EqvGen (fun a b ↦ (a, b) ∈ pairs.map Prod.swap) x y ↔
      Relation.EqvGen (fun a b ↦ (a, b) ∈ pairs) x y := by
    have hmem (a b : α) : (a, b) ∈ pairs.map Prod.swap ↔ (b, a) ∈ pairs := by
      rw [List.mem_map]
      exact ⟨fun ⟨p, hp, heq⟩ ↦ Prod.swap_inj.1 (heq.trans Prod.swap_prod_mk.symm) ▸ hp, fun h ↦ ⟨_, h, rfl⟩⟩
    constructor
    · exact eqvGen_of_steps fun a b hab ↦ (Relation.EqvGen.rel b a ((hmem a b).1 hab)).symm
    · exact eqvGen_of_steps fun a b hab ↦ (Relation.EqvGen.rel b a ((hmem b a).2 hab)).symm
  rw [root_uniteAll pairs single single fun _ ↦ rfl, root_uniteAll pairs single single fun _ ↦ rfl,
    root_joinAll_eq_iff, hswap]

end Links
