import EezDashboard.Flow.Anchors

/-!
# The rows of the timeline

`alignTimelineRows`: the chosen anchors become shared rows, and the steps between two anchors get rows of their own,
those of L1 and of L2 in turn.
-/

set_option autoImplicit false

namespace Flow

/-- `${left?.id ?? '-'}|${right?.id ?? '-'}` is given by the two identifiers. -/
structure TimelineRow where
  id : Option Id × Option Id
  l1 : Option TimelineStep
  l2 : Option TimelineStep
  connection : Option Connection

/-- `add` -/
def rowOf (left right : Option TimelineStep) (connection : Option Connection) : TimelineRow where
  id := (left.map TimelineStep.id, right.map TimelineStep.id)
  l1 := left
  l2 := right
  connection := connection

/-- `unpaired`, of the steps that lie between. -/
def unpaired : List TimelineStep → List TimelineStep → List TimelineRow
  | [], [] => []
  | x :: xs, [] => rowOf (some x) none none :: unpaired xs []
  | [], y :: ys => rowOf none (some y) none :: unpaired [] ys
  | x :: xs, y :: ys => rowOf (some x) none none :: rowOf none (some y) none :: unpaired xs ys

section Rows

variable (l1 l2 : List TimelineStep)

/-- The loop over the chosen anchors, from positions `a` and `b` on. -/
def rowsFrom : ℕ → ℕ → List Anchor → List TimelineRow
  | a, b, [] => unpaired (l1.drop a) (l2.drop b)
  | a, b, anchor :: rest =>
    let a' := max a anchor.a
    let b' := max b anchor.b
    unpaired ((l1.take anchor.a).drop a) ((l2.take anchor.b).drop b) ++
      rowOf l1[a']? l2[b']? (some anchor.connection) :: rowsFrom (a' + 1) (b' + 1) rest

end Rows

def alignTimelineRows (timeline : Timeline) : List TimelineRow :=
  rowsFrom timeline.steps₁ timeline.steps₂ 0 0 timeline.chosen

/-! ## Pairs of steps -/

/-- A step of L1 and a step of L2 with a connection. -/
structure Pair where
  left : TimelineStep
  right : TimelineStep
  connection : Connection

/-- A shared row. -/
def TimelineRow.pair (row : TimelineRow) : Option Pair :=
  match row.l1, row.l2, row.connection with
  | some left, some right, some connection => some ⟨left, right, connection⟩
  | _, _, _ => none

/-- The connection joins the two steps, and is not ambiguous. -/
structure Joins (timeline : Timeline) (pair : Pair) : Prop where
  left : pair.left ∈ timeline.steps₁
  right : pair.right ∈ timeline.steps₂
  connection : pair.connection ∈ timeline.connections
  ambiguous : pair.connection.ambiguous = false
  joins : (pair.connection.source = pair.left.id ∧ pair.connection.target = pair.right.id) ∨
    (pair.connection.source = pair.right.id ∧ pair.connection.target = pair.left.id)

/-- One step is recorded before another. -/
def Earlier (steps : List TimelineStep) (x y : TimelineStep) : Prop :=
  ∃ i j : ℕ, i < j ∧ steps[i]? = some x ∧ steps[j]? = some y

/-- The pairs share no step and do not cross. -/
def Parallel (timeline : Timeline) (p q : Pair) : Prop :=
  (Earlier timeline.steps₁ p.left q.left ∧ Earlier timeline.steps₂ p.right q.right) ∨
    (Earlier timeline.steps₁ q.left p.left ∧ Earlier timeline.steps₂ q.right p.right)

def Pair.isExact (pair : Pair) : Bool := pair.connection.basis = .matchingCallHash

def Pair.isIncomingExact (pair : Pair) : Bool :=
  pair.isExact && (Timeline.isIncoming (some pair.left) || Timeline.isIncoming (some pair.right))

/-- The number of exact hashes, then of the incoming calls among them, then of replays. -/
def rank (pairs : List Pair) : ℕ ×ₗ ℕ ×ₗ ℕ :=
  toLex (pairs.countP Pair.isExact, toLex (pairs.countP Pair.isIncomingExact, pairs.countP fun pair ↦ !pair.isExact))

/-! ## Rows -/

section Unpaired

variable (xs ys : List TimelineStep)

theorem unpaired_l1 : (unpaired xs ys).filterMap TimelineRow.l1 = xs := by
  fun_induction unpaired xs ys <;> simp_all [rowOf]

theorem unpaired_l2 : (unpaired xs ys).filterMap TimelineRow.l2 = ys := by
  fun_induction unpaired xs ys <;> simp_all [rowOf]

theorem unpaired_connection : ∀ row ∈ unpaired xs ys, row.connection = none ∧ (row.l1 = none ∨ row.l2 = none) := by
  fun_induction unpaired xs ys <;> simp_all [rowOf]

theorem unpaired_pair : (unpaired xs ys).filterMap TimelineRow.pair = [] := by
  rw [List.filterMap_eq_nil_iff]
  intro row hrow
  rw [TimelineRow.pair, (unpaired_connection xs ys row hrow).1]
  split
  · rename_i h
    cases h
  · rfl

end Unpaired

/-- An anchor and the pair of the steps that it names. -/
structure Names (timeline : Timeline) (x : Anchor) (p : Pair) : Prop where
  left : timeline.steps₁[x.a]? = some p.left
  right : timeline.steps₂[x.b]? = some p.right
  connection : x.connection = p.connection

theorem drop_split {l : List TimelineStep} {a k : ℕ} {x : TimelineStep} (hle : a ≤ k) (hx : l[k]? = some x) :
    l.drop a = (l.take k).drop a ++ x :: l.drop (k + 1) := by
  obtain ⟨hlt, rfl⟩ := List.getElem?_eq_some_iff.1 hx
  conv_lhs => rw [← List.take_append_drop k l]
  rw [List.drop_append_of_le_length (by rw [List.length_take]; omega), List.drop_eq_getElem_cons hlt]

/-- The rows from a position on hold the steps from there on, and the pairs of the anchors. -/
structure Aligned (timeline : Timeline) (a b : ℕ) (ps : List Pair) (rows : List TimelineRow) : Prop where
  l1 : rows.filterMap TimelineRow.l1 = timeline.steps₁.drop a
  l2 : rows.filterMap TimelineRow.l2 = timeline.steps₂.drop b
  pairs : rows.filterMap TimelineRow.pair = ps
  shared : ∀ row ∈ rows, row.l1 = none ∨ row.l2 = none ∨
    ∃ p ∈ ps, row.l1 = some p.left ∧ row.l2 = some p.right ∧ row.connection = some p.connection

variable {timeline : Timeline}

theorem rowsFrom_aligned {xs : List Anchor} {ps : List Pair} (hnames : List.Forall₂ (Names timeline) xs ps)
    (horder : Timeline.InOrder xs) {a b : ℕ} (hstart : ∀ x ∈ xs, a ≤ x.a ∧ b ≤ x.b) :
    Aligned timeline a b ps (rowsFrom timeline.steps₁ timeline.steps₂ a b xs) := by
  induction hnames generalizing a b with
  | nil =>
    exact ⟨unpaired_l1 _ _, unpaired_l2 _ _, unpaired_pair _ _,
      fun row hrow ↦ (unpaired_connection _ _ row hrow).2.imp_right .inl⟩
  | @cons x p xs ps hname _ ih =>
    obtain ⟨ha, hb⟩ := hstart x List.mem_cons_self
    rw [Timeline.InOrder, List.pairwise_cons] at horder
    obtain ⟨hl1, hl2, hpairs, hshared⟩ := ih horder.2 (a := x.a + 1) (b := x.b + 1) horder.1
    rw [rowsFrom, Nat.max_eq_right ha, Nat.max_eq_right hb, hname.left, hname.right, hname.connection]
    generalize hnew : rowOf (some p.left) (some p.right) (some p.connection) = row
    have hrow₁ : row.l1 = some p.left := by rw [← hnew, rowOf]
    have hrow₂ : row.l2 = some p.right := by rw [← hnew, rowOf]
    have hpair : row.pair = some p := by rw [← hnew, rowOf, TimelineRow.pair]
    refine ⟨?_, ?_, ?_, fun row hrow ↦ ?_⟩
    · rw [List.filterMap_append, unpaired_l1, List.filterMap_cons_some hrow₁, hl1, ← drop_split ha hname.left]
    · rw [List.filterMap_append, unpaired_l2, List.filterMap_cons_some hrow₂, hl2, ← drop_split hb hname.right]
    · rw [List.filterMap_append, unpaired_pair, List.filterMap_cons_some hpair, hpairs, List.nil_append]
    · rcases List.mem_append.1 hrow with hrow | hrow
      · exact (unpaired_connection _ _ row hrow).2.imp_right .inl
      · rcases List.mem_cons.1 hrow with rfl | hrow
        · exact .inr (.inr ⟨p, List.mem_cons_self, hrow₁, hrow₂, by rw [← hnew, rowOf]⟩)
        · refine (hshared row hrow).imp_right (Or.imp_right ?_)
          rintro ⟨q, hq, hrow⟩
          exact ⟨q, List.mem_cons_of_mem _ hq, hrow⟩

/-! ## Anchors and pairs -/

theorem exists_names {x : Anchor} (h : x ∈ timeline.anchors) : ∃ p, Names timeline x p ∧ Joins timeline p := by
  obtain ⟨connection, hmem, hanchor⟩ := timeline.mem_anchors.1 h
  obtain ⟨rfl, hambiguous, left, right, hleft, hright, hjoins⟩ := Timeline.anchorOf_eq_some hanchor
  exact ⟨⟨left, right, x.connection⟩, ⟨hleft, hright, rfl⟩,
    ⟨List.mem_of_getElem? hleft, List.mem_of_getElem? hright, hmem, hambiguous, hjoins⟩⟩

theorem exists_pairs {xs : List Anchor} (h : ∀ x ∈ xs, x ∈ timeline.anchors) :
    ∃ ps, List.Forall₂ (Names timeline) xs ps ∧ ∀ p ∈ ps, Joins timeline p := by
  induction xs with
  | nil => exact ⟨[], .nil, fun p hp ↦ absurd hp List.not_mem_nil⟩
  | cons x xs ih =>
    rw [List.forall_mem_cons] at h
    obtain ⟨p, hname, hjoins⟩ := exists_names h.1
    obtain ⟨ps, hnames, hall⟩ := ih h.2
    exact ⟨p :: ps, .cons hname hnames, List.forall_mem_cons.2 ⟨hjoins, hall⟩⟩

theorem pairwise_parallel {xs : List Anchor} {ps : List Pair} (h : List.Forall₂ (Names timeline) xs ps)
    (horder : Timeline.InOrder xs) : ps.Pairwise (Parallel timeline) := by
  induction h with
  | nil => exact .nil
  | @cons x p xs ps hname hnames ih =>
    rw [Timeline.InOrder, List.pairwise_cons] at horder
    refine List.pairwise_cons.2 ⟨fun q hq ↦ ?_, ih horder.2⟩
    obtain ⟨i, hi, rfl⟩ := List.getElem_of_mem hq
    have hname' := (List.forall₂_iff_get.1 hnames).2 i (by rw [hnames.length_eq]; exact hi) hi
    have hlt := horder.1 _ (List.get_mem xs ⟨i, by rw [hnames.length_eq]; exact hi⟩)
    exact .inl ⟨⟨_, _, hlt.1, hname.left, hname'.left⟩, ⟨_, _, hlt.2, hname.right, hname'.right⟩⟩

theorem rank_eq {xs : List Anchor} {ps : List Pair} (h : List.Forall₂ (Names timeline) xs ps) :
    rank ps = timeline.count xs := by
  have hexact {x : Anchor} {p : Pair} (hname : Names timeline x p) : Timeline.isExact x = p.isExact := by
    rw [Timeline.isExact, Pair.isExact, hname.connection]
  have hincoming {x : Anchor} {p : Pair} (hname : Names timeline x p) :
      timeline.isIncomingExact x = p.isIncomingExact := by
    rw [Timeline.isIncomingExact, Pair.isIncomingExact, hexact hname, hname.left, hname.right]
  have hcount (f : Anchor → Bool) (g : Pair → Bool) (hfg : ∀ {x p}, Names timeline x p → f x = g p) :
      xs.countP f = ps.countP g := by
    induction h with
    | nil => rfl
    | cons hname _ ih => rw [List.countP_cons, List.countP_cons, hfg hname, ih]
  rw [rank, Timeline.count, hcount _ _ hexact, hcount _ _ hincoming,
    hcount _ (fun p ↦ !p.isExact) fun hname ↦ congrArg _ (hexact hname)]

theorem Earlier.lt {steps : List TimelineStep} (hnodup : (steps.map TimelineStep.id).Nodup) {x y : TimelineStep}
    {i j : ℕ} (h : Earlier steps x y) (hi : steps[i]? = some x) (hj : steps[j]? = some y) : i < j := by
  obtain ⟨i', j', hlt, hi', hj'⟩ := h
  have hsteps := hnodup.of_map
  have heq {k k' : ℕ} {z : TimelineStep} (hk : steps[k]? = some z) (hk' : steps[k']? = some z) : k = k' := by
    obtain ⟨hlt, rfl⟩ := List.getElem?_eq_some_iff.1 hk
    obtain ⟨hlt', heq⟩ := List.getElem?_eq_some_iff.1 hk'
    exact (hsteps.getElem_inj_iff.1 heq).symm
  rwa [heq hi hi', heq hj hj']

theorem Timeline.nodup_ids (timeline : Timeline) :
    (timeline.steps₁.map TimelineStep.id).Nodup ∧ (timeline.steps₂.map TimelineStep.id).Nodup := by
  have hsteps := timeline.nodup_steps
  rw [steps, groups, List.flatMap_append, List.map_append] at hsteps
  exact ⟨hsteps.of_append_left, hsteps.of_append_right⟩

theorem Parallel.symm {p q : Pair} (h : Parallel timeline p q) : Parallel timeline q p := Or.symm h

/-- Pairs that do not cross are in the order of their anchors. -/
theorem exists_inOrder {ps : List Pair} (hjoins : ∀ p ∈ ps, Joins timeline p) (hparallel : ps.Pairwise (Parallel timeline)) :
    ∃ qs xs, qs.Perm ps ∧ List.Forall₂ (Names timeline) xs qs ∧ Timeline.InOrder xs ∧ ∀ x ∈ xs, x ∈ timeline.anchors := by
  have hleft : ∀ p ∈ ps, ∃ i, timeline.steps₁[i]? = some p.left := fun p hp ↦ List.mem_iff_getElem?.1 (hjoins p hp).left
  have hright : ∀ p ∈ ps, ∃ i, timeline.steps₂[i]? = some p.right :=
    fun p hp ↦ List.mem_iff_getElem?.1 (hjoins p hp).right
  choose! a ha using hleft
  choose! b hb using hright
  have hnames : ∀ p ∈ ps, Names timeline ⟨p.connection, a p, b p⟩ p := fun p hp ↦ ⟨ha p hp, hb p hp, rfl⟩
  have hmem : ∀ p ∈ ps, (⟨p.connection, a p, b p⟩ : Anchor) ∈ timeline.anchors := fun p hp ↦
    timeline.mem_anchors.2 ⟨_, (hjoins p hp).connection,
      Timeline.anchorOf_of_joins (hjoins p hp).ambiguous (ha p hp) (hb p hp) (hjoins p hp).joins⟩
  have hperm := List.mergeSort_perm ps fun p q ↦ decide (a p ≤ a q)
  have hsorted := @List.pairwise_mergeSort Pair (fun p q ↦ decide (a p ≤ a q))
    (fun p q r hpq hqr ↦ by simp only [decide_eq_true_eq] at *; omega)
    (fun p q ↦ by simp only [Bool.or_eq_true, decide_eq_true_eq]; omega) ps
  have hparallel' := (hperm.pairwise_iff fun h ↦ h.symm).2 hparallel
  obtain ⟨hnodup, hnodup'⟩ := timeline.nodup_ids
  refine ⟨_, _, hperm, List.forall₂_map_left_iff.2 (List.forall₂_same.2 fun p hp ↦ hnames p (hperm.mem_iff.1 hp)), ?_,
    List.forall_mem_map.2 fun p hp ↦ hmem p (hperm.mem_iff.1 hp)⟩
  rw [Timeline.InOrder, List.pairwise_map]
  refine (hsorted.and hparallel').imp_of_mem fun {p q} hp hq h ↦ ?_
  have hp := hnames p (hperm.mem_iff.1 hp)
  have hq := hnames q (hperm.mem_iff.1 hq)
  have hle := h.1
  rw [decide_eq_true_eq] at hle
  rcases h.2 with ⟨hleft, hright⟩ | ⟨hleft, -⟩
  · exact ⟨hleft.lt hnodup hp.left hq.left, hright.lt hnodup' hp.right hq.right⟩
  · exact absurd (hleft.lt hnodup hq.left hp.left) (Nat.not_lt_of_le hle)

/-- **The rows are right, and no other choice of pairs is better.**  The scores that are compared stay below the cube
of one more than the number of anchors: the source's numbers are exact up to 2 ^ 53, which leaves room for more than two
hundred thousand anchors. -/
theorem alignTimelineRows_lawful (timeline : Timeline) :
    (alignTimelineRows timeline).filterMap TimelineRow.l1 = timeline.steps₁ ∧
      (alignTimelineRows timeline).filterMap TimelineRow.l2 = timeline.steps₂ ∧
      (∀ row ∈ alignTimelineRows timeline, ∀ left right, row.l1 = some left → row.l2 = some right →
        ∃ connection, row.connection = some connection ∧ Joins timeline ⟨left, right, connection⟩) ∧
      ((alignTimelineRows timeline).filterMap TimelineRow.pair).Pairwise (Parallel timeline) ∧
      (∀ others : List Pair, (∀ p ∈ others, Joins timeline p) → others.Pairwise (Parallel timeline) →
        rank others ≤ rank ((alignTimelineRows timeline).filterMap TimelineRow.pair)) ∧
      ∀ i < timeline.anchors.length, timeline.search.scores i < (timeline.anchors.length + 1) ^ 3 := by
  obtain ⟨ps, hnames, hjoins⟩ := exists_pairs fun x hx ↦ Timeline.mem_of_mem_chosen hx
  obtain ⟨hl1, hl2, hpairs, hshared⟩ := rowsFrom_aligned hnames timeline.inOrder_chosen (a := 0) (b := 0)
    fun x _ ↦ ⟨Nat.zero_le _, Nat.zero_le _⟩
  rw [alignTimelineRows, hpairs]
  refine ⟨hl1, hl2, fun row hrow left right hleft hright ↦ ?_, ?_, fun others hothers hparallel ↦ ?_,
    fun i hi ↦ ?_⟩
  · rcases hshared row hrow with hnone | hnone | ⟨p, hp, hleft', hright', hconnection⟩
    · rw [hleft] at hnone
      cases hnone
    · rw [hright] at hnone
      cases hnone
    · obtain rfl := Option.some_inj.1 (hleft.symm.trans hleft')
      obtain rfl := Option.some_inj.1 (hright.symm.trans hright')
      exact ⟨p.connection, hconnection, hjoins p hp⟩
  · exact pairwise_parallel hnames timeline.inOrder_chosen
  · obtain ⟨qs, xs, hperm, hnames', horder, hmem⟩ := exists_inOrder hothers hparallel
    have hrank : rank others = rank qs := by
      rw [rank, rank, hperm.countP_eq, hperm.countP_eq, hperm.countP_eq]
    rw [hrank, rank_eq hnames, rank_eq hnames']
    exact horder.count_le hmem
  · exact (Timeline.scores_lt hi).trans_eq (by rw [Timeline.base]; ring)

end Flow
