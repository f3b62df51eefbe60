import EezDashboard.Finite.Chains
import EezDashboard.Flow.Timeline
import Mathlib.Data.List.Perm.Subperm
import Mathlib.Data.Prod.Lex

/-!
# Which steps share a row

`alignTimelineRows` puts the steps of both chains into one table of rows.  A step of L1 and a step of L2 can share a
row when a connection of the timeline joins them: an anchor.  The anchors that are taken are a heaviest chain of
those there are, found by weight: an exact hash outweighs all that is not one, and an incoming call all replays.
-/

set_option autoImplicit false

namespace Flow

open PrefixMax (IsBest Keeps)
open HeaviestChain (Solves)

/-- A connection, with the positions of the steps that it joins. -/
structure Anchor where
  connection : Connection
  a : ℕ
  b : ℕ

namespace Timeline

variable (timeline : Timeline)

/-- `timeline.chains.l1.flatMap(transaction => transaction.steps)` -/
def steps₁ : List TimelineStep := timeline.l1.flatMap Group.steps

def steps₂ : List TimelineStep := timeline.l2.flatMap Group.steps

/-- The entries of `positions`. -/
def entries : List (Id × Chain × ℕ) :=
  (timeline.steps₁.zipIdx.map fun (step, index) ↦ (step.id, .l1, index)) ++
    timeline.steps₂.zipIdx.map fun (step, index) ↦ (step.id, .l2, index)

/-- `positions.get(id)`: a later entry replaces an earlier one. -/
def position (id : Id) : Option (Chain × ℕ) :=
  (timeline.entries.reverse.find? fun entry ↦ entry.1 = id).map Prod.snd

def anchorOf (connection : Connection) : Option Anchor := do
  let source ← timeline.position connection.source
  let target ← timeline.position connection.target
  if connection.ambiguous ∨ source.1 = target.1 then none
  else some {
    connection := connection
    a := if source.1 = .l1 then source.2 else target.2
    b := if source.1 = .l2 then source.2 else target.2 }

/-- `a.a - b.a || a.b - b.b` -/
def anchors : List Anchor :=
  (timeline.connections.filterMap timeline.anchorOf).mergeSort fun x y ↦ x.a < y.a ∨ (x.a = y.a ∧ x.b ≤ y.b)

def base : ℕ := timeline.anchors.length + 1

/-- `step?.event.name === 'IncomingCrossChainCallExecuted'` -/
def isIncoming (step : Option TimelineStep) : Bool :=
  step.any fun step ↦ step.event.name = "IncomingCrossChainCallExecuted"

/-- Exact hashes outrank replay candidates; an actual incoming event outranks entry consumption. -/
def weight (anchor : Anchor) : ℕ :=
  if anchor.connection.basis = .matchingCallHash then
    timeline.base * timeline.base +
      if isIncoming timeline.steps₁[anchor.a]? || isIncoming timeline.steps₂[anchor.b]? then timeline.base else 0
  else 1

/-! ## The search -/

/-- `scores`, `previous` and `tree`. -/
structure Search where
  scores : ℕ → ℕ
  previous : ℕ → Option ℕ
  tree : ℕ → Option ℕ

/-- `tree.length` -/
def treeLength : ℕ := timeline.steps₂.length + 1

/-- Anchor number `i` follows the best one below it. -/
def scoreAnchor (s : Search) (x : Anchor × ℕ) : Search :=
  let best := PrefixMax.query s.scores s.tree x.1.b
  { s with
    previous := Function.update s.previous x.2 best
    scores := Function.update s.scores x.2 (best.elim 0 s.scores + timeline.weight x.1) }

/-- From now on others may follow it. -/
def putAnchor (s : Search) (x : Anchor × ℕ) : Search :=
  { s with tree := PrefixMax.update s.scores timeline.treeLength x.1.b x.2 s.tree }

/-- The loop over the anchors of one step of L1 after the other. -/
def searchLoop : ℕ → List (Anchor × ℕ) → Search → Search
  | fuel + 1, x :: rest, s =>
    let group := x :: rest.takeWhile fun y ↦ y.1.a = x.1.a
    -- delayed updates prevent two destinations pairing with the same L1 event
    searchLoop fuel (rest.dropWhile fun y ↦ y.1.a = x.1.a)
      (group.foldl timeline.putAnchor (group.foldl timeline.scoreAnchor s))
  | _, _, s => s

def search : Search :=
  timeline.searchLoop timeline.anchors.length timeline.anchors.zipIdx ⟨fun _ ↦ 0, fun _ ↦ none, fun _ ↦ none⟩

/-- `chosen` -/
def chosen : List Anchor :=
  let s := timeline.search
  (HeaviestChain.climb s.previous timeline.anchors.length
    (PrefixMax.query s.scores s.tree timeline.steps₂.length)).reverse.filterMap (timeline.anchors[·]?)

/-! ## Positions -/

theorem nodup_entries : (timeline.entries.map Prod.fst).Nodup := by
  have hfst (chain : Chain) (steps : List TimelineStep) :
      (steps.zipIdx.map fun x ↦ (x.1.id, chain, x.2)).map Prod.fst = steps.map TimelineStep.id := by
    rw [List.map_map]
    conv_rhs => rw [← List.zipIdx_map_fst 0 steps, List.map_map]
    rfl
  have hsteps := timeline.nodup_steps
  rw [steps, groups, List.flatMap_append, List.map_append] at hsteps
  rw [entries, List.map_append, hfst, hfst]
  exact hsteps

variable {timeline} {id : Id} {i : ℕ}

theorem position_eq_some {chain : Chain} : timeline.position id = some (chain, i) ↔ (id, chain, i) ∈ timeline.entries := by
  rw [position, Option.map_eq_some_iff]
  constructor
  · rintro ⟨⟨id', entry⟩, hfind, rfl⟩
    have hid := List.find?_some hfind
    rw [decide_eq_true_eq] at hid
    subst hid
    exact List.mem_reverse.1 (List.mem_of_find?_eq_some hfind)
  · intro hmem
    obtain ⟨entry, hfind⟩ : ∃ entry, (timeline.entries.reverse.find? fun entry ↦ entry.1 = id) = some entry := by
      rw [← Option.isSome_iff_exists, List.find?_isSome]
      exact ⟨_, List.mem_reverse.2 hmem, decide_eq_true rfl⟩
    refine ⟨entry, hfind, ?_⟩
    have hid := List.find?_some hfind
    rw [decide_eq_true_eq] at hid
    have hmem' := List.mem_reverse.1 (List.mem_of_find?_eq_some hfind)
    rw [List.inj_on_of_nodup_map timeline.nodup_entries hmem' hmem hid]

theorem position_l1 : timeline.position id = some (.l1, i) ↔ ∃ x, timeline.steps₁[i]? = some x ∧ x.id = id := by
  rw [position_eq_some, entries]
  simp [List.mem_zipIdx_iff_getElem?]

theorem position_l2 : timeline.position id = some (.l2, i) ↔ ∃ x, timeline.steps₂[i]? = some x ∧ x.id = id := by
  rw [position_eq_some, entries]
  simp [List.mem_zipIdx_iff_getElem?]

/-- An anchor joins a step of L1 and a step of L2 by a connection that is not ambiguous. -/
theorem anchorOf_eq_some {connection : Connection} {x : Anchor} (h : timeline.anchorOf connection = some x) :
    x.connection = connection ∧ connection.ambiguous = false ∧
      ∃ left right, timeline.steps₁[x.a]? = some left ∧ timeline.steps₂[x.b]? = some right ∧
        ((connection.source = left.id ∧ connection.target = right.id) ∨
          (connection.source = right.id ∧ connection.target = left.id)) := by
  simp only [anchorOf, Option.bind_eq_bind, Option.bind_eq_some_iff] at h
  obtain ⟨⟨chain, i⟩, hsource, ⟨chain', j⟩, htarget, h⟩ := h
  split at h
  · cases h
  · rename_i hjoins
    rw [not_or, Bool.not_eq_true] at hjoins
    obtain rfl := Option.some_inj.1 h
    refine ⟨rfl, hjoins.1, ?_⟩
    cases chain with
    | l1 =>
      cases chain' with
      | l1 => exact absurd rfl hjoins.2
      | l2 =>
        obtain ⟨left, hleft, hsource⟩ := position_l1.1 hsource
        obtain ⟨right, hright, htarget⟩ := position_l2.1 htarget
        exact ⟨left, right, hleft, hright, .inl ⟨hsource.symm, htarget.symm⟩⟩
    | l2 =>
      cases chain' with
      | l1 =>
        obtain ⟨left, hleft, htarget⟩ := position_l1.1 htarget
        obtain ⟨right, hright, hsource⟩ := position_l2.1 hsource
        exact ⟨left, right, hleft, hright, .inr ⟨hsource.symm, htarget.symm⟩⟩
      | l2 => exact absurd rfl hjoins.2

/-- Every such connection gives an anchor. -/
theorem anchorOf_of_joins {connection : Connection} {left right : TimelineStep} {a b : ℕ}
    (hambiguous : connection.ambiguous = false) (hleft : timeline.steps₁[a]? = some left)
    (hright : timeline.steps₂[b]? = some right)
    (hjoins : (connection.source = left.id ∧ connection.target = right.id) ∨
      (connection.source = right.id ∧ connection.target = left.id)) :
    timeline.anchorOf connection = some ⟨connection, a, b⟩ := by
  have hposition₁ := position_l1.2 ⟨left, hleft, rfl⟩
  have hposition₂ := position_l2.2 ⟨right, hright, rfl⟩
  rcases hjoins with ⟨hsource, htarget⟩ | ⟨hsource, htarget⟩
  · rw [anchorOf, hsource, htarget, hposition₁, hposition₂]
    simp [hambiguous]
  · rw [anchorOf, hsource, htarget, hposition₁, hposition₂]
    simp [hambiguous]

variable (timeline)

theorem mem_anchors {x : Anchor} : x ∈ timeline.anchors ↔
    ∃ connection ∈ timeline.connections, timeline.anchorOf connection = some x := by
  rw [anchors, List.mem_mergeSort, List.mem_filterMap]

theorem pairwise_anchors : timeline.anchors.Pairwise fun x y ↦ x.a ≤ y.a := by
  have hsorted := @List.pairwise_mergeSort Anchor
    (fun x y ↦ decide (x.a < y.a ∨ (x.a = y.a ∧ x.b ≤ y.b)))
    (fun x y z hxy hyz ↦ by simp only [decide_eq_true_eq] at *; omega)
    (fun x y ↦ by simp only [Bool.or_eq_true, decide_eq_true_eq]; omega)
    (timeline.connections.filterMap timeline.anchorOf)
  refine hsorted.imp fun hle ↦ ?_
  rw [decide_eq_true_eq] at hle
  omega

theorem b_lt {x : Anchor} (h : x ∈ timeline.anchors) : x.b < timeline.steps₂.length := by
  obtain ⟨connection, -, hanchor⟩ := timeline.mem_anchors.1 h
  obtain ⟨-, -, -, right, -, hright, -⟩ := anchorOf_eq_some hanchor
  exact (List.getElem?_eq_some_iff.1 hright).1

/-! ## The search is right -/

/-- The two anchors can be taken together, in this order. -/
def Before (i j : ℕ) : Prop :=
  ∃ x y, timeline.anchors[i]? = some x ∧ timeline.anchors[j]? = some y ∧ x.a < y.a ∧ x.b < y.b

def weightAt (i : ℕ) : ℕ := timeline.anchors[i]?.elim 0 timeline.weight

variable {timeline}

theorem a_le {i j : ℕ} {x y : Anchor} (hij : i ≤ j) (hx : timeline.anchors[i]? = some x)
    (hy : timeline.anchors[j]? = some y) : x.a ≤ y.a := by
  rcases Nat.eq_or_lt_of_le hij with rfl | hlt
  · rw [Option.some_inj.1 (hx.symm.trans hy)]
  · obtain ⟨hi, rfl⟩ := List.getElem?_eq_some_iff.1 hx
    obtain ⟨hj, rfl⟩ := List.getElem?_eq_some_iff.1 hy
    exact List.pairwise_iff_getElem.1 timeline.pairwise_anchors i j hi hj hlt

theorem Before.lt {i j : ℕ} (h : timeline.Before i j) : i < j := by
  obtain ⟨x, y, hx, hy, ha, -⟩ := h
  by_contra hle
  have := a_le (Nat.le_of_not_lt hle) hy hx
  omega

/-- What has been put into the tree when the anchors below `start` have been. -/
def putBelow (timeline : Timeline) (start : ℕ) : Set (ℕ × ℕ) :=
  {p | p.2 < start ∧ ∃ x, timeline.anchors[p.2]? = some x ∧ p.1 = x.b}

/-- The anchors below `start` are in the tree, and those below `mid` have their scores. -/
structure Scored (timeline : Timeline) (s : Search) (start mid : ℕ) : Prop where
  le : start ≤ mid
  keeps : Keeps s.scores timeline.treeLength s.tree (timeline.putBelow start)
  solves : ∀ i < mid, Solves timeline.Before timeline.weightAt s.scores s.previous i

variable {s : Search} {start mid : ℕ}

theorem Scored.scoreAnchor (h : Scored timeline s start mid) {x : Anchor} (hx : timeline.anchors[mid]? = some x)
    (hapart : ∀ j < start, ∀ y, timeline.anchors[j]? = some y → y.a < x.a)
    (hgroup : ∀ j y, start ≤ j → j < mid → timeline.anchors[j]? = some y → y.a = x.a) :
    Scored timeline (timeline.scoreAnchor s (x, mid)) start (mid + 1) := by
  have hscores : ∀ j ≠ mid, (timeline.scoreAnchor s (x, mid)).scores j = s.scores j :=
    fun j hj ↦ Function.update_of_ne hj _ _
  have hprevious : ∀ j ≠ mid, (timeline.scoreAnchor s (x, mid)).previous j = s.previous j :=
    fun j hj ↦ Function.update_of_ne hj _ _
  have hself : (timeline.scoreAnchor s (x, mid)).previous mid = PrefixMax.query s.scores s.tree x.b :=
    Function.update_self ..
  have hself' : (timeline.scoreAnchor s (x, mid)).scores mid =
      (PrefixMax.query s.scores s.tree x.b).elim 0 s.scores + timeline.weight x := Function.update_self ..
  have hb : x.b < timeline.treeLength := Nat.lt_succ_of_lt (timeline.b_lt (List.mem_of_getElem? hx))
  have hbest := h.keeps.query hb
  -- the anchors of the tree that end above `x` are those that can come before it
  have hset : {j | ∃ p < x.b, (p, j) ∈ timeline.putBelow start} = {j | timeline.Before j mid} := by
    ext j
    constructor
    · rintro ⟨p, hp, hj, y, hy, rfl⟩
      exact ⟨y, x, hy, hx, hapart j hj y hy, hp⟩
    · rintro ⟨y, x', hy, hx', ha, hb⟩
      obtain rfl := Option.some_inj.1 (hx.symm.trans hx')
      have hlt : j < mid := Before.lt ⟨y, x, hy, hx, ha, hb⟩
      have hj : j < start := by
        by_contra hle
        exact ha.ne (hgroup j y (Nat.le_of_not_lt hle) hlt hy)
      exact ⟨y.b, hb, hj, y, hy, rfl⟩
  rw [hset] at hbest
  refine ⟨h.le.trans (Nat.le_succ mid), h.keeps.congr fun p hp ↦ hscores _ (hp.1.trans_le h.le).ne, fun i hi ↦ ?_⟩
  rcases Nat.lt_succ_iff_lt_or_eq.1 hi with hi | rfl
  · obtain ⟨hold, hscore⟩ := h.solves i hi
    refine ⟨?_, ?_⟩
    · rw [hprevious i hi.ne]
      exact hold.congr fun j hj ↦ hscores j (Before.lt hj |>.trans hi).ne
    · rw [hscores i hi.ne, hprevious i hi.ne, hscore]
      cases hp : s.previous i with
      | none => rfl
      | some j =>
        rw [hp] at hold
        rw [Option.elim_some, Option.elim_some, hscores j ((Before.lt hold.1).trans hi).ne]
  · refine ⟨?_, ?_⟩
    · rw [hself]
      exact hbest.congr fun j hj ↦ hscores j (Before.lt hj).ne
    · rw [hself, hself', weightAt, hx, Option.elim_some]
      cases hp : PrefixMax.query s.scores s.tree x.b with
      | none => rfl
      | some j =>
        rw [hp] at hbest
        rw [Option.elim_some, Option.elim_some, hscores j (Before.lt hbest.1).ne]

theorem Scored.putAnchor (h : Scored timeline s start mid) (hlt : start < mid) {x : Anchor}
    (hx : timeline.anchors[start]? = some x) : Scored timeline (timeline.putAnchor s (x, start)) (start + 1) mid where
  le := hlt
  keeps := by
    have hset : timeline.putBelow (start + 1) = insert (x.b, start) (timeline.putBelow start) := by
      ext ⟨p, j⟩
      constructor
      · rintro ⟨hj, y, hy, rfl⟩
        rcases Nat.lt_succ_iff_lt_or_eq.1 hj with hj | rfl
        · exact .inr ⟨hj, y, hy, rfl⟩
        · exact .inl (by rw [Option.some_inj.1 (hy.symm.trans hx)])
      · rintro (heq | ⟨hj, y, hy, rfl⟩)
        · obtain ⟨rfl, rfl⟩ := Prod.mk.inj heq
          exact ⟨Nat.lt_succ_self _, x, hx, rfl⟩
        · exact ⟨Nat.lt_succ_of_lt hj, y, hy, rfl⟩
    rw [hset]
    exact h.keeps.update x.b start
  solves := h.solves

/-- The anchors from `k` on, with their numbers. -/
def rest (timeline : Timeline) (k : ℕ) : List (Anchor × ℕ) := timeline.anchors.zipIdx.drop k

theorem rest_eq_cons {k i : ℕ} {x : Anchor} {tail : List (Anchor × ℕ)} (h : timeline.rest k = (x, i) :: tail) :
    i = k ∧ timeline.anchors[k]? = some x ∧ timeline.rest (k + 1) = tail := by
  have hhead := congrArg List.head? h
  have htail := congrArg List.tail h
  rw [rest, List.head?_drop, List.getElem?_zipIdx] at hhead
  rw [rest, List.tail_drop] at htail
  obtain ⟨y, hy, hxy⟩ := Option.map_eq_some_iff.1 hhead
  obtain ⟨rfl, rfl⟩ := Prod.mk.inj hxy
  exact ⟨Nat.zero_add k, hy, htail⟩

theorem Scored.foldl_scoreAnchor {a : ℕ} {group later : List (Anchor × ℕ)} (h : Scored timeline s start mid)
    (hrest : timeline.rest mid = group ++ later) (hsame : ∀ y ∈ group, y.1.a = a)
    (hapart : ∀ j < start, ∀ y, timeline.anchors[j]? = some y → y.a < a)
    (hgroup : ∀ j y, start ≤ j → j < mid → timeline.anchors[j]? = some y → y.a = a) :
    Scored timeline (group.foldl timeline.scoreAnchor s) start (mid + group.length) := by
  induction group generalizing s mid with
  | nil => exact h
  | cons x group ih =>
    obtain ⟨x, i⟩ := x
    obtain ⟨rfl, hx, htail⟩ := rest_eq_cons hrest
    have hxa : x.a = a := hsame (x, i) List.mem_cons_self
    rw [List.foldl_cons, List.length_cons, Nat.add_comm group.length 1, ← Nat.add_assoc]
    refine ih ?_ htail (fun y hy ↦ hsame y (List.mem_cons_of_mem _ hy)) fun j y hj hlt hy ↦ ?_
    · rw [← hxa] at hapart hgroup
      exact h.scoreAnchor hx hapart hgroup
    · rcases Nat.lt_succ_iff_lt_or_eq.1 hlt with hlt | rfl
      · exact hgroup j y hj hlt hy
      · rw [Option.some_inj.1 (hy.symm.trans hx), hxa]

theorem Scored.foldl_putAnchor {group later : List (Anchor × ℕ)} (h : Scored timeline s start mid)
    (hrest : timeline.rest start = group ++ later) (hmid : mid = start + group.length) :
    Scored timeline (group.foldl timeline.putAnchor s) mid mid := by
  induction group generalizing s start with
  | nil => rwa [hmid] at h ⊢
  | cons x group ih =>
    obtain ⟨x, i⟩ := x
    obtain ⟨rfl, hx, htail⟩ := rest_eq_cons hrest
    rw [List.length_cons] at hmid
    rw [List.foldl_cons]
    exact ih (h.putAnchor (by omega) hx) htail (by omega)

theorem pairwise_rest (k : ℕ) : (timeline.rest k).Pairwise fun x y ↦ x.1.a ≤ y.1.a := by
  have hpairwise := timeline.pairwise_anchors
  rw [← List.zipIdx_map_fst 0 timeline.anchors, List.pairwise_map] at hpairwise
  exact hpairwise.sublist (List.drop_sublist k _)

/-- What is behind a group has a later step of L1. -/
theorem lt_of_mem_dropWhile {l : List (Anchor × ℕ)} {a : ℕ} (hl : l.Pairwise fun x y ↦ x.1.a ≤ y.1.a)
    (hle : ∀ y ∈ l, a ≤ y.1.a) : ∀ y ∈ l.dropWhile fun y ↦ y.1.a = a, a < y.1.a := by
  induction l with
  | nil => exact fun y hy ↦ absurd hy List.not_mem_nil
  | cons x l ih =>
    rw [List.pairwise_cons] at hl
    by_cases hx : x.1.a = a
    · rw [List.dropWhile_cons_of_pos (by simpa using hx)]
      exact ih hl.2 fun y hy ↦ hle y (List.mem_cons_of_mem _ hy)
    · rw [List.dropWhile_cons_of_neg (by simpa using hx)]
      have hlt : a < x.1.a := Nat.lt_of_le_of_ne (hle x List.mem_cons_self) (Ne.symm hx)
      exact List.forall_mem_cons.2 ⟨hlt, fun y hy ↦ hlt.trans_le (hl.1 y hy)⟩

/-- **Every round** scores the anchors of one step of L1 and puts them. -/
theorem Scored.searchLoop {fuel : ℕ} (h : Scored timeline s start start) (hstart : start ≤ timeline.anchors.length)
    (hapart : ∀ j < start, ∀ y, timeline.anchors[j]? = some y → ∀ x ∈ timeline.rest start, y.a < x.1.a)
    (hfuel : (timeline.rest start).length ≤ fuel) :
    Scored timeline (timeline.searchLoop fuel (timeline.rest start) s) timeline.anchors.length
      timeline.anchors.length := by
  induction fuel generalizing start s with
  | zero =>
    have hlen : start = timeline.anchors.length := by
      rw [rest, List.length_drop, List.length_zipIdx] at hfuel
      omega
    rwa [hlen] at h ⊢
  | succ fuel ih =>
    cases hrest : timeline.rest start with
    | nil =>
      have hlen : start = timeline.anchors.length := by
        have hzero := congrArg List.length hrest
        rw [rest, List.length_drop, List.length_zipIdx, List.length_nil] at hzero
        omega
      rwa [hlen] at h
    | cons x tail =>
      obtain ⟨x, i⟩ := x
      obtain ⟨rfl, hx, htail⟩ := rest_eq_cons hrest
      rw [Timeline.searchLoop]
      generalize hgroup : (x, i) :: tail.takeWhile (fun y ↦ decide (y.1.a = x.a)) = group
      generalize hlater : tail.dropWhile (fun y ↦ decide (y.1.a = x.a)) = later
      have hsplit : timeline.rest i = group ++ later := by
        rw [hrest, ← hgroup, ← hlater, List.cons_append, List.takeWhile_append_dropWhile]
      have hsame : ∀ y ∈ group, y.1.a = x.a := by
        rw [← hgroup]
        refine List.forall_mem_cons.2 ⟨rfl, fun y hy ↦ ?_⟩
        simpa using List.mem_takeWhile_imp hy
      have hbehind : ∀ y ∈ later, x.a < y.1.a := by
        have hsorted := timeline.pairwise_rest i
        rw [hrest, List.pairwise_cons] at hsorted
        rw [← hlater]
        exact lt_of_mem_dropWhile hsorted.2 hsorted.1
      have hscored := h.foldl_scoreAnchor hsplit hsame
        (fun j hj y hy ↦ hapart j hj y hy (x, i) (by rw [hrest]; exact List.mem_cons_self))
        fun j y hj hlt ↦ absurd hj (Nat.not_le_of_lt hlt)
      have hput := hscored.foldl_putAnchor hsplit rfl
      have hlast : timeline.rest (i + group.length) = later := by
        rw [rest, ← List.drop_drop, ← rest, hsplit, List.drop_left]
      have hlen := congrArg List.length hsplit
      rw [rest, List.length_drop, List.length_zipIdx, List.length_append] at hlen
      have hpos : 0 < group.length := by
        rw [← hgroup]
        exact Nat.succ_pos _
      rw [← hlast] at hbehind ⊢
      refine ih hput (by omega) (fun j hj y hy z hz ↦ ?_) ?_
      · rcases Nat.lt_or_ge j i with hji | hij
        · refine hapart j hji y hy z ?_
          rw [hsplit]
          exact List.mem_append_right _ (hlast ▸ hz)
        · -- the anchor belongs to the group
          have hmem : (y, j) ∈ group := by
            have hget : (timeline.rest i)[j - i]? = some (y, j) := by
              rw [rest, List.getElem?_drop, Nat.add_sub_cancel' hij, List.getElem?_zipIdx, hy, Option.map_some,
                Nat.zero_add]
            rw [hsplit, List.getElem?_append_left (by omega)] at hget
            exact List.mem_of_getElem? hget
          rw [hsame (y, j) hmem]
          exact hbehind z hz
      · rw [hrest] at hfuel
        rw [hlast]
        have hle := congrArg List.length hsplit
        rw [hrest, List.length_append] at hle
        omega

theorem scored_search : Scored timeline timeline.search timeline.anchors.length timeline.anchors.length := by
  have hstart : Scored timeline ⟨fun _ ↦ 0, fun _ ↦ none, fun _ ↦ none⟩ 0 0 := by
    refine ⟨Nat.le_refl 0, ?_, fun i hi ↦ absurd hi (Nat.not_lt_zero i)⟩
    have hnone : timeline.putBelow 0 = ∅ := Set.eq_empty_of_forall_notMem fun p hp ↦ absurd hp.1 (Nat.not_lt_zero _)
    rw [hnone]
    exact PrefixMax.keeps_empty _
  have hrest : timeline.rest 0 = timeline.anchors.zipIdx := List.drop_zero
  rw [search, ← hrest]
  refine hstart.searchLoop (Nat.zero_le _) (fun j hj ↦ absurd hj (Nat.not_lt_zero j)) ?_
  rw [hrest, List.length_zipIdx]

/-! ## What is chosen -/

/-- Anchors that can be taken together, in order. -/
def InOrder (xs : List Anchor) : Prop := xs.Pairwise fun x y ↦ x.a < y.a ∧ x.b < y.b

theorem Before.trans {i j k : ℕ} (h : timeline.Before i j) (h' : timeline.Before j k) : timeline.Before i k := by
  obtain ⟨x, y, hx, hy, ha, hb⟩ := h
  obtain ⟨y', z, hy', hz, ha', hb'⟩ := h'
  obtain rfl := Option.some_inj.1 (hy.symm.trans hy')
  exact ⟨x, z, hx, hz, ha.trans ha', hb.trans hb'⟩

/-- The query in the end is for the best of all. -/
theorem query_search : IsBest timeline.search.scores {i | i < timeline.anchors.length}
    (PrefixMax.query timeline.search.scores timeline.search.tree timeline.steps₂.length) := by
  have hbest := timeline.scored_search.keeps.query (Nat.lt_succ_self timeline.steps₂.length)
  refine Eq.mp (congrArg (fun u ↦ IsBest _ u _) (Set.ext fun i ↦ ?_)) hbest
  constructor
  · rintro ⟨p, -, hi, -⟩
    exact hi
  · intro hi
    have hx := List.getElem?_eq_getElem hi
    exact ⟨_, timeline.b_lt (List.getElem_mem hi), hi, _, hx, rfl⟩

theorem Before.solves {i j : ℕ} (h : timeline.Before i j) :
    Solves timeline.Before timeline.weightAt timeline.search.scores timeline.search.previous i := by
  obtain ⟨x, y, hx, -⟩ := h
  exact timeline.scored_search.solves i (List.getElem?_eq_some_iff.1 hx).1

theorem sum_weightAt (is : List ℕ) :
    ((is.filterMap (timeline.anchors[·]?)).map timeline.weight).sum = (is.map timeline.weightAt).sum := by
  induction is with
  | nil => rfl
  | cons i is ih =>
    rw [List.filterMap_cons, List.map_cons, List.sum_cons, weightAt, ← ih]
    cases timeline.anchors[i]? with
    | none => exact (Nat.zero_add _).symm
    | some x => rfl

theorem chosen_eq : ∃ is : List ℕ, timeline.chosen = is.filterMap (timeline.anchors[·]?) ∧
    is.Pairwise timeline.Before ∧ ∀ i < timeline.anchors.length,
      timeline.search.scores i ≤ (is.map timeline.weightAt).sum := by
  have hbest := timeline.query_search
  cases hquery : PrefixMax.query timeline.search.scores timeline.search.tree timeline.steps₂.length with
  | none =>
    rw [hquery] at hbest
    refine ⟨[], ?_, .nil, fun i hi ↦ absurd hi (hbest i)⟩
    rw [chosen, hquery]
    cases timeline.anchors.length <;> rfl
  | some i =>
    rw [hquery] at hbest
    have hi : i < timeline.anchors.length := hbest.1
    obtain ⟨c, hreverse, hchain, hsum⟩ := (timeline.scored_search.solves i hi).climb
      (fun _ _ h ↦ h.solves) id (fun _ _ h ↦ h.lt) hi
    have : IsTrans ℕ timeline.Before := ⟨fun _ _ _ ↦ Before.trans⟩
    refine ⟨c ++ [i], ?_, List.isChain_iff_pairwise.1 hchain, fun j hj ↦ ?_⟩
    · rw [chosen, hquery, hreverse]
    · rw [hsum]
      exact hbest.2 j hj

theorem mem_of_mem_numbers {is : List ℕ} {x : Anchor} (h : x ∈ is.filterMap (timeline.anchors[·]?)) :
    x ∈ timeline.anchors := by
  obtain ⟨i, -, hx⟩ := List.mem_filterMap.1 h
  exact List.mem_of_getElem? hx

theorem inOrder_of_numbers {is : List ℕ} (h : is.Pairwise timeline.Before) :
    InOrder (is.filterMap (timeline.anchors[·]?)) := by
  rw [InOrder, List.pairwise_filterMap]
  refine h.imp fun {i j} hij x hx y hy ↦ ?_
  obtain ⟨x', y', hx', hy', hlt⟩ := hij
  rwa [Option.some_inj.1 (hx.symm.trans hx'), Option.some_inj.1 (hy.symm.trans hy')]

theorem mem_of_mem_chosen {x : Anchor} (h : x ∈ timeline.chosen) : x ∈ timeline.anchors := by
  obtain ⟨is, hchosen, -⟩ := timeline.chosen_eq
  rw [hchosen] at h
  exact mem_of_mem_numbers h

theorem inOrder_chosen : InOrder timeline.chosen := by
  obtain ⟨is, hchosen, hpairwise, -⟩ := timeline.chosen_eq
  rw [hchosen]
  exact inOrder_of_numbers hpairwise

/-- Anchors in order have their numbers in order. -/
theorem InOrder.exists_numbers {xs : List Anchor} (h : InOrder xs) (hmem : ∀ x ∈ xs, x ∈ timeline.anchors) :
    ∃ is : List ℕ, is.Pairwise timeline.Before ∧ (∀ i ∈ is, i < timeline.anchors.length) ∧
      xs = is.filterMap (timeline.anchors[·]?) ∧ is.length = xs.length := by
  have hindex : ∀ x ∈ timeline.anchors, ∃ i, timeline.anchors[i]? = some x := fun x hx ↦ List.mem_iff_getElem?.1 hx
  choose! f hf using hindex
  refine ⟨xs.map f, ?_, ?_, ?_, List.length_map _⟩
  · rw [List.pairwise_map]
    refine h.imp_of_mem fun {x y} hx hy hlt ↦ ?_
    exact ⟨x, y, hf x (hmem x hx), hf y (hmem y hy), hlt.1, hlt.2⟩
  · exact List.forall_mem_map.2 fun x hx ↦ (List.getElem?_eq_some_iff.1 (hf x (hmem x hx))).1
  · rw [List.filterMap_map]
    have hsome : xs.filterMap ((fun i ↦ timeline.anchors[i]?) ∘ f) = xs.filterMap some :=
      List.filterMap_congr fun x hx ↦ hf x (hmem x hx)
    rw [hsome, List.filterMap_some]

/-- **Nothing outweighs what is chosen.** -/
theorem InOrder.sum_le {xs : List Anchor} (h : InOrder xs) (hmem : ∀ x ∈ xs, x ∈ timeline.anchors) :
    (xs.map timeline.weight).sum ≤ (timeline.chosen.map timeline.weight).sum := by
  obtain ⟨is, hpairwise, hlt, rfl, -⟩ := h.exists_numbers hmem
  obtain ⟨best, hchosen, -, hbest⟩ := timeline.chosen_eq
  rw [hchosen, sum_weightAt, sum_weightAt]
  rcases List.eq_nil_or_concat is with rfl | ⟨c, i, rfl⟩
  · exact Nat.zero_le _
  · rw [List.concat_eq_append] at hpairwise hlt ⊢
    have hi : i < timeline.anchors.length := hlt i (by simp)
    exact (Solves.sum_le (fun _ _ h ↦ h.solves) (timeline.scored_search.solves i hi) hpairwise.isChain).trans
      (hbest i hi)

theorem InOrder.length_lt {xs : List Anchor} (h : InOrder xs) (hmem : ∀ x ∈ xs, x ∈ timeline.anchors) :
    xs.length < timeline.base := by
  obtain ⟨is, hpairwise, hlt, -, hlen⟩ := h.exists_numbers hmem
  have hnodup : is.Nodup := hpairwise.imp fun h ↦ h.lt.ne
  have hsub := List.subperm_of_subset hnodup fun i hi ↦ List.mem_range.2 (hlt i hi)
  have hle := hsub.length_le
  rw [List.length_range, hlen] at hle
  exact Nat.lt_succ_of_le hle

/-! ## What the weights count -/

def isExact (x : Anchor) : Bool := x.connection.basis = .matchingCallHash

variable (timeline) in
/-- An exact hash of a step that is an incoming call. -/
def isIncomingExact (x : Anchor) : Bool :=
  isExact x && (isIncoming timeline.steps₁[x.a]? || isIncoming timeline.steps₂[x.b]?)

theorem sum_weight (xs : List Anchor) : (xs.map timeline.weight).sum =
    xs.countP isExact * (timeline.base * timeline.base) + xs.countP timeline.isIncomingExact * timeline.base +
      xs.countP fun x ↦ !isExact x := by
  induction xs with
  | nil => simp
  | cons x xs ih =>
    rw [List.map_cons, List.sum_cons, ih, List.countP_cons, List.countP_cons, List.countP_cons, weight,
      isIncomingExact, isExact]
    by_cases hexact : x.connection.basis = .matchingCallHash
    · by_cases hincoming : (isIncoming timeline.steps₁[x.a]? || isIncoming timeline.steps₂[x.b]?) = true
      · simp [hexact, hincoming, Nat.add_mul]
        omega
      · simp [hexact, hincoming, Nat.add_mul]
        omega
    · simp [hexact]
      omega

/-- Digits below the base compare from the left. -/
theorem toLex_le {base e i r e' i' r' : ℕ} (hi' : i' < base) (hr' : r' < base)
    (h : e * (base * base) + i * base + r ≤ e' * (base * base) + i' * base + r') :
    (toLex (e, toLex (i, r)) : ℕ ×ₗ ℕ ×ₗ ℕ) ≤ toLex (e', toLex (i', r')) := by
  have hlow : i' * base + r' < base * base := by
    have := Nat.mul_le_mul_right base (Nat.succ_le_of_lt hi')
    rw [Nat.succ_mul] at this
    omega
  rw [Prod.Lex.toLex_le_toLex, Prod.Lex.toLex_le_toLex]
  rcases Nat.lt_trichotomy e e' with hlt | rfl | hgt
  · exact .inl hlt
  · refine .inr ⟨rfl, ?_⟩
    rcases Nat.lt_trichotomy i i' with hlt | rfl | hgt
    · exact .inl hlt
    · exact .inr ⟨rfl, by omega⟩
    · have := Nat.mul_le_mul_right base (Nat.succ_le_of_lt hgt)
      rw [Nat.succ_mul] at this
      omega
  · have := Nat.mul_le_mul_right (base * base) (Nat.succ_le_of_lt hgt)
    rw [Nat.succ_mul] at this
    omega

/-- Every score is below the cube of the base. -/
theorem scores_lt {i : ℕ} (hi : i < timeline.anchors.length) :
    timeline.search.scores i < timeline.base * (timeline.base * timeline.base) := by
  obtain ⟨c, -, hchain, hsum⟩ := (timeline.scored_search.solves i hi).climb (fun _ _ h ↦ h.solves) id
    (fun _ _ h ↦ h.lt) hi
  have : IsTrans ℕ timeline.Before := ⟨fun _ _ _ ↦ Before.trans⟩
  have horder := inOrder_of_numbers (List.isChain_iff_pairwise.1 hchain)
  have hlen := horder.length_lt fun x hx ↦ mem_of_mem_numbers hx
  rw [← hsum, ← sum_weightAt, sum_weight]
  generalize (c ++ [i]).filterMap (timeline.anchors[·]?) = xs at hlen ⊢
  have hexact := xs.countP_le_length (p := isExact)
  have hincoming := xs.countP_le_length (p := timeline.isIncomingExact)
  have hreplay := xs.countP_le_length (p := fun x ↦ !isExact x)
  have h₁ := Nat.mul_le_mul_right (timeline.base * timeline.base) (Nat.succ_le_of_lt (hexact.trans_lt hlen))
  have h₂ := Nat.mul_le_mul_right timeline.base (Nat.succ_le_of_lt (hincoming.trans_lt hlen))
  rw [Nat.succ_mul] at h₁ h₂
  omega

/-- The exact hashes, the incoming calls among them, and the others. -/
def count (timeline : Timeline) (xs : List Anchor) : ℕ ×ₗ ℕ ×ₗ ℕ :=
  toLex (xs.countP isExact, toLex (xs.countP timeline.isIncomingExact, xs.countP fun x ↦ !isExact x))

/-- **What is chosen is best**, class by class. -/
theorem InOrder.count_le {xs : List Anchor} (h : InOrder xs) (hmem : ∀ x ∈ xs, x ∈ timeline.anchors) :
    timeline.count xs ≤ timeline.count timeline.chosen := by
  have hsum := h.sum_le hmem
  have hlen : timeline.chosen.length < timeline.base := timeline.inOrder_chosen.length_lt fun x ↦ mem_of_mem_chosen
  rw [sum_weight, sum_weight] at hsum
  exact toLex_le (List.countP_le_length.trans_lt hlen) (List.countP_le_length.trans_lt hlen) hsum

end Timeline

end Flow
