import Mathlib.Data.Finite.Defs
import Mathlib.Order.WellFounded
import Mathlib.Data.Fintype.Order
import EezDashboard.Finite.Forest

/-!
# Listings of a forest

`Lists children nodes l` says that `l` lists every node of `nodes` with what is below it, each before its
children.  A listing is what a walk of enough levels gives, and exists where descending comes to an end.
-/

set_option autoImplicit false

namespace Forest

variable {α : Type*} {children children' : α → List α} {a : α} {as bs l m : List α}

inductive Lists (children : α → List α) : List α → List α → Prop
  | nil : Lists children [] []
  | cons {a : α} {as below rest : List α} : Lists children (children a) below → Lists children as rest →
      Lists children (a :: as) (a :: (below ++ rest))

theorem Lists.cons_inv (h : Lists children (a :: as) l) :
    ∃ below rest, l = a :: (below ++ rest) ∧ Lists children (children a) below ∧ Lists children as rest := by
  cases h with
  | cons hbelow hrest => exact ⟨_, _, rfl, hbelow, hrest⟩

theorem Lists.nil_inv (h : Lists children [] l) : l = [] := by
  cases h
  rfl

theorem Lists.append (h : Lists children as l) (h' : Lists children bs m) : Lists children (as ++ bs) (l ++ m) := by
  induction h with
  | nil => exact h'
  | cons hbelow _ _ ih =>
    rw [List.cons_append, List.cons_append, List.append_assoc]
    exact .cons hbelow ih

theorem Lists.split (h : Lists children (as ++ bs) l) :
    ∃ m n, l = m ++ n ∧ Lists children as m ∧ Lists children bs n := by
  induction as generalizing l with
  | nil => exact ⟨[], l, rfl, .nil, h⟩
  | cons a as ih =>
    obtain ⟨below, rest, rfl, hbelow, hrest⟩ := h.cons_inv
    obtain ⟨m, n, rfl, hm, hn⟩ := ih hrest
    exact ⟨a :: (below ++ m), n, by simp, .cons hbelow hm, hn⟩

theorem Lists.singleton (h : Lists children (children a) l) : Lists children [a] (a :: l) := by
  simpa using Lists.cons h .nil

theorem Lists.singleton_inv (h : Lists children [a] l) : ∃ below, l = a :: below ∧ Lists children (children a) below := by
  obtain ⟨below, rest, rfl, hbelow, hrest⟩ := h.cons_inv
  rw [hrest.nil_inv, List.append_nil]
  exact ⟨below, rfl, hbelow⟩

/-- A listing only looks at the children of what it lists. -/
theorem Lists.congr (h : Lists children as l) (heq : ∀ a ∈ l, children' a = children a) : Lists children' as l := by
  induction h with
  | nil => exact .nil
  | cons _ _ ih ih' =>
    obtain ⟨ha, hl⟩ := List.forall_mem_cons.1 heq
    obtain ⟨hbelow, hrest⟩ := List.forall_mem_append.1 hl
    exact .cons (ha.symm ▸ ih hbelow) (ih' hrest)

/-- What is listed is a root, or a child of something listed, as often as it is listed. -/
theorem Lists.perm (h : Lists children as l) : l.Perm (as ++ l.flatMap children) := by
  induction h with
  | nil => exact List.Perm.refl _
  | @cons a as below rest _ _ ih ih' =>
    simp only [List.flatMap_cons, List.flatMap_append, List.cons_append]
    refine List.Perm.cons a ((ih.append ih').trans ?_)
    rw [← List.append_assoc (children a)]
    exact List.perm_append_comm_assoc _ _ _

theorem Lists.mem_children (h : Lists children as l) {p : α} (hp : p ∈ l) (ha : a ∈ children p) : a ∈ l :=
  h.perm.mem_iff.2 (List.mem_append_right _ (List.mem_flatMap.2 ⟨p, hp, ha⟩))

theorem Lists.subset (h : Lists children as l) : as ⊆ l := fun _ ha ↦ h.perm.mem_iff.2 (List.mem_append_left _ ha)

/-- In a listing without repetitions, what has a parent is not a root. -/
theorem Lists.not_root (h : Lists children as l) (hl : l.Nodup) {p : α} (hp : p ∈ l) (ha : a ∈ children p) : a ∉ as :=
  fun hroot ↦ List.disjoint_of_nodup_append (h.perm.nodup_iff.1 hl) hroot (List.mem_flatMap.2 ⟨p, hp, ha⟩)

/-- What is listed is what can be reached. -/
theorem Lists.mem_iff (h : Lists children as l) :
    a ∈ l ↔ ∃ r ∈ as, Relation.ReflTransGen (Parent children) r a := by
  constructor
  · intro ha
    induction h with
    | nil => cases ha
    | @cons b as below rest _ _ ih ih' =>
      obtain rfl | ha := List.mem_cons.1 ha
      · exact ⟨a, List.mem_cons_self, .refl⟩
      obtain ha | ha := List.mem_append.1 ha
      · obtain ⟨c, hc, hreach⟩ := ih ha
        exact ⟨b, List.mem_cons_self, .head hc hreach⟩
      · obtain ⟨r, hr, hreach⟩ := ih' ha
        exact ⟨r, List.mem_cons_of_mem _ hr, hreach⟩
  · rintro ⟨r, hr, hreach⟩
    induction hreach with
    | refl => exact h.subset hr
    | tail _ hc ih => exact h.mem_children ih hc

/-- Nothing that is listed once is above itself. -/
theorem Lists.acyclic (h : Lists children as l) (hl : l.Nodup) : ∀ a ∈ l, ¬Relation.TransGen (Parent children) a a := by
  induction h with
  | nil => exact nofun
  | @cons b as below rest hbelow hrest ih ih' =>
    obtain ⟨hb, hl⟩ := List.nodup_cons.1 hl
    obtain ⟨hnodup, hnodup', -⟩ := List.nodup_append.1 hl
    refine List.forall_mem_cons.2 ⟨fun hself ↦ ?_, List.forall_mem_append.2 ⟨ih hnodup, ih' hnodup'⟩⟩
    obtain ⟨c, hc, hreach⟩ := Relation.TransGen.head'_iff.1 hself
    exact hb (List.mem_append_left _ (hbelow.mem_iff.2 ⟨c, hc, hreach⟩))

/-- What is below something listed is listed behind it. -/
theorem Lists.of_mem (h : Lists children as l) (ha : a ∈ l) :
    ∃ below, Lists children (children a) below ∧ (a :: below).Sublist l := by
  induction h with
  | nil => cases ha
  | @cons b as below rest hbelow _ ih ih' =>
    obtain rfl | ha := List.mem_cons.1 ha
    · exact ⟨below, hbelow, (List.sublist_append_left below rest).cons_cons a⟩
    obtain ha | ha := List.mem_append.1 ha
    · obtain ⟨m, hm, hsub⟩ := ih ha
      exact ⟨m, hm, (hsub.trans (List.sublist_append_left below rest)).cons b⟩
    · obtain ⟨m, hm, hsub⟩ := ih' ha
      exact ⟨m, hm, (hsub.trans (List.sublist_append_right below rest)).cons b⟩

/-- **A listing is what a walk gives**, once it has as many levels as are listed. -/
theorem Lists.walk_eq (h : Lists children as l) : ∀ n, l.length ≤ n → walk children n as = l := by
  induction h with
  | nil => exact fun n _ ↦ walk_nil n
  | @cons a as below rest _ _ ih ih' =>
    intro n hn
    rw [List.length_cons, List.length_append] at hn
    obtain ⟨n, rfl⟩ := Nat.exists_eq_succ_of_ne_zero (by omega : n ≠ 0)
    have hrest := ih' (n + 1) (by omega)
    rw [walk] at hrest ⊢
    rw [List.flatMap_cons, ih n (by omega), hrest, List.cons_append]

theorem Lists.unique (h : Lists children as l) (h' : Lists children as m) : l = m :=
  (h.walk_eq _ (le_max_left _ _)).symm.trans (h'.walk_eq _ (le_max_right _ _))

/-! ## Finite forests -/

variable {nodes : List α}

/-- Among finitely many nodes none of which is above itself, climbing and descending come to an end. -/
theorem wellFounded_above (hacyclic : ∀ a ∈ nodes, ¬Relation.TransGen (Parent children) a a) :
    WellFounded (fun a b : {a // a ∈ nodes} ↦ Relation.TransGen (Parent children) a.1 b.1) ∧
      WellFounded (fun a b : {a // a ∈ nodes} ↦ Relation.TransGen (Parent children) b.1 a.1) := by
  have : Finite {a // a ∈ nodes} := nodes.finite_toSet.to_subtype
  constructor
  · have : IsTrans {a // a ∈ nodes} fun a b ↦ Relation.TransGen (Parent children) a.1 b.1 :=
      ⟨fun _ _ _ hab hbc ↦ hab.trans hbc⟩
    have : Std.Irrefl fun a b : {a // a ∈ nodes} ↦ Relation.TransGen (Parent children) a.1 b.1 :=
      ⟨fun a ↦ hacyclic a.1 a.2⟩
    exact Finite.wellFounded_of_trans_of_irrefl _
  · have : IsTrans {a // a ∈ nodes} fun a b ↦ Relation.TransGen (Parent children) b.1 a.1 :=
      ⟨fun _ _ _ hab hbc ↦ hbc.trans hab⟩
    have : Std.Irrefl fun a b : {a // a ∈ nodes} ↦ Relation.TransGen (Parent children) b.1 a.1 :=
      ⟨fun a ↦ hacyclic a.1 a.2⟩
    exact Finite.wellFounded_of_trans_of_irrefl _

theorem exists_lists (hclosed : ∀ a ∈ nodes, children a ⊆ nodes)
    (hacyclic : ∀ a ∈ nodes, ¬Relation.TransGen (Parent children) a a) (has : as ⊆ nodes) :
    ∃ l, Lists children as l ∧ l ⊆ nodes := by
  have hall (bs : List α) (hbs : bs ⊆ nodes) (hof : ∀ b ∈ bs, ∃ l, Lists children (children b) l ∧ l ⊆ nodes) :
      ∃ l, Lists children bs l ∧ l ⊆ nodes := by
    induction bs with
    | nil => exact ⟨[], .nil, List.nil_subset _⟩
    | cons b bs ih =>
      obtain ⟨hb, hbs⟩ := List.cons_subset.1 hbs
      obtain ⟨⟨below, hbelow, hmem⟩, hof⟩ := List.forall_mem_cons.1 hof
      obtain ⟨rest, hrest, hmem'⟩ := ih hbs hof
      exact ⟨_, .cons hbelow hrest, List.cons_subset.2 ⟨hb, List.append_subset.2 ⟨hmem, hmem'⟩⟩⟩
  have hone (a : {a // a ∈ nodes}) : ∃ l, Lists children (children a.1) l ∧ l ⊆ nodes := by
    induction a using (wellFounded_above hacyclic).2.induction with
    | _ a ih =>
      exact hall _ (hclosed a.1 a.2) fun b hb ↦ ih ⟨b, hclosed a.1 a.2 hb⟩ (.single hb)
  exact hall as has fun a ha ↦ hone ⟨a, has ha⟩

theorem count_flatMap_of_unique [DecidableEq α] {p : α} (hp : (children p).count a = 1)
    (hunique : ∀ b ∈ l, a ∈ children b → b = p) : (l.flatMap children).count a = l.count p := by
  induction l with
  | nil => rfl
  | cons b l ih =>
    obtain ⟨hb, hl⟩ := List.forall_mem_cons.1 hunique
    rw [List.flatMap_cons, List.count_append, ih hl, List.count_cons, Nat.add_comm]
    by_cases heq : b = p
    · subst heq
      rw [hp, if_pos (beq_self_eq_true b)]
    · rw [List.count_eq_zero.2 fun ha ↦ heq (hb ha), if_neg (by simpa using heq)]

/-- **A forest is listed without repetitions**, when each node has one place and none is above itself. -/
theorem Lists.nodup (h : Lists children as l) (hsub : l ⊆ nodes) (hplace : (as ++ nodes.flatMap children).Nodup)
    (hacyclic : ∀ a ∈ nodes, ¬Relation.TransGen (Parent children) a a) : l.Nodup := by
  classical
  obtain ⟨hroots, hchildren, hdisjoint⟩ := List.nodup_append'.1 hplace
  have hcount (a : {a // a ∈ nodes}) : l.count a.1 ≤ 1 := by
    induction a using (wellFounded_above hacyclic).1.induction with
    | _ a ih =>
      rw [h.perm.count_eq, List.count_append]
      by_cases hparent : ∃ p ∈ l, a.1 ∈ children p
      · obtain ⟨p, hp, hap⟩ := hparent
        have hroot : a.1 ∉ as := fun hroot ↦ hdisjoint hroot (List.mem_flatMap.2 ⟨p, hsub hp, hap⟩)
        have hone : (children p).count a.1 = 1 :=
          List.count_eq_one_of_mem ((List.nodup_flatMap.1 hchildren).1 p (hsub hp)) hap
        have hunique : ∀ b ∈ l, a.1 ∈ children b → b = p := by
          intro b hb hab
          by_contra hne
          have : Std.Symm (Function.onFun List.Disjoint children) := ⟨fun _ _ hdis ↦ hdis.symm⟩
          exact (List.nodup_flatMap.1 hchildren).2.forall (hsub hb) (hsub hp) hne hab hap
        rw [List.count_eq_zero.2 hroot, Nat.zero_add, count_flatMap_of_unique hone hunique]
        exact ih ⟨p, hsub hp⟩ (.single hap)
      · have hnone : a.1 ∉ l.flatMap children := fun hmem ↦ hparent (List.mem_flatMap.1 hmem)
        rw [List.count_eq_zero.2 hnone]
        exact List.nodup_iff_count_le_one.1 hroots a.1
  refine List.nodup_iff_count_le_one.2 fun a ↦ ?_
  by_cases ha : a ∈ l
  · exact hcount ⟨a, hsub ha⟩
  · rw [List.count_eq_zero.2 ha]
    exact Nat.zero_le 1

end Forest
