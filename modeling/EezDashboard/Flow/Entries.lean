import EezDashboard.Finite.Forest
import EezDashboard.Finite.Union
import EezDashboard.Flow.Calls

/-!
# Entries and their actions

The part of `buildExecutionFlow` that groups calls by what connects them, walks each group from the calls
without parents, and numbers the calls in the order of their requests.  Each group is a forest, so that its
actions are nested brackets, one for each of its calls.

`flowStateUpdates` only adds what concerns plans that already have their entries, and is left out.
-/

set_option autoImplicit false

namespace Flow

inductive ActionKind
  | request
  | returned
  deriving DecidableEq, Repr

/-- An action; its identifier is that of its call with its kind. -/
structure FlowAction where
  call : FlowCall
  kind : ActionKind
  depth : ℕ
  anchor : TimelineStep

structure FlowEntry where
  id : Id
  plans : List EntryPlan
  calls : List FlowCall
  actions : List FlowAction

structure ExecutionFlow where
  entries : List FlowEntry
  actions : List FlowAction
  calls : List FlowCall

/-! ## Groups -/

/-- What a call is joined to for its plans. -/
def planLinks (call : FlowCall) : List (Id × Id) :=
  (call.plan.toList ++ call.targetPlan.toList).map fun plan ↦ (call.id, plan.id)

/-- What a call is joined to for its parent. -/
def parentLinks (call : FlowCall) : List (Id × Id) := call.parent.toList.map fun parent ↦ (call.id, parent)

/-- `roots`, after all calls are joined to their plans and then to their parents. -/
def roots (plans : List EntryPlan) (calls : List FlowCall) : Links Id :=
  let links := plans.foldl (fun links plan ↦ links.set plan.id) Links.single
  let links := calls.foldl (fun links call ↦ (links.set call.id).joinAll (planLinks call)) links
  calls.foldl (fun links call ↦ links.joinAll (parentLinks call)) links

/-! ## Actions -/

def request (call : FlowCall) (depth : ℕ) : FlowAction := ⟨call, .request, depth, call.source⟩

/-- The return is anchored at the result on the other chain, if it was found. -/
def returned (call : FlowCall) (depth : ℕ) : FlowAction :=
  ⟨call, .returned, depth, (call.target.filter fun step ↦ step.event.name = "CallResult").getD call.source⟩

/-- `group.calls.filter(child => child.parent === call.id)` -/
def childrenIn (calls : List FlowCall) (call : FlowCall) : List FlowCall :=
  calls.filter fun child ↦ child.parent = some call.id

/-- `visit`, to a given number of levels. -/
def visitCall (calls : List FlowCall) : ℕ → ℕ → FlowCall → List FlowAction
  | 0, _, _ => []
  | n + 1, depth, call =>
    request call depth :: (childrenIn calls call).flatMap (visitCall calls n (depth + 1)) ++ [returned call depth]

/-- The walk of a group, which has no more levels than calls. -/
def actionsOf (calls : List FlowCall) : List FlowAction :=
  (calls.filter fun call ↦ call.parent.isNone).flatMap (visitCall calls calls.length 0)

/-- `entries`: one for each root, in the order in which plans and calls lead to them. -/
def entriesOf (plans : List EntryPlan) (calls : List FlowCall) : List FlowEntry :=
  let root := (roots plans calls).root
  let keys := (plans.map (fun plan ↦ root plan.id) ++ calls.map fun call ↦ root call.id).eraseDups
  keys.map fun key ↦
    let calls := calls.filter fun call ↦ root call.id = key
    { id := key
      plans := plans.filter fun plan ↦ root plan.id = key
      calls := calls
      actions := actionsOf calls }

/-! ## Numbers -/

def requests (actions : List FlowAction) : List FlowCall :=
  (actions.filter fun action ↦ action.kind = .request).map FlowAction.call

def returns (actions : List FlowAction) : List FlowCall :=
  (actions.filter fun action ↦ action.kind = .returned).map FlowAction.call

/-- `action.call.number = ++number`, seen from one call. -/
def numbered : ℕ → List Id → FlowCall → FlowCall
  | _, [], call => call
  | n, id :: ids, call => numbered (n + 1) ids (if call.id = id then { call with number := n + 1 } else call)

/-- Actions and entries hold the calls of the flow themselves, whatever these become. -/
def FlowAction.map (f : FlowCall → FlowCall) (action : FlowAction) : FlowAction :=
  { action with call := f action.call }

def FlowEntry.map (f : FlowCall → FlowCall) (entry : FlowEntry) : FlowEntry :=
  { entry with calls := entry.calls.map f, actions := entry.actions.map (FlowAction.map f) }

namespace Input

variable (c : Input)

def plans : List EntryPlan := (c.evidence.filter fun item ↦ item.plan.kind = .execution).map Evidence.plan

/-- `buildExecutionFlow` -/
def flow : ExecutionFlow :=
  let entries := entriesOf c.plans c.parented
  let ids := (requests (entries.flatMap FlowEntry.actions)).map FlowCall.id
  let entries := entries.map (FlowEntry.map (numbered 0 ids))
  { entries := entries
    actions := entries.flatMap FlowEntry.actions
    calls := c.parented.map (numbered 0 ids) }

end Input

/-! ## Nested brackets -/

/-- Brackets at one depth, one after the other: between the request and the return of a call are the brackets
of the calls whose parent it is, one level deeper. -/
inductive Nested : Option Id → ℕ → List FlowAction → Prop
  | nil (parent : Option Id) (depth : ℕ) : Nested parent depth []
  | bracket {parent : Option Id} {depth : ℕ} {inner rest : List FlowAction} (call : FlowCall)
      (hparent : call.parent = parent) (hinner : Nested (some call.id) (depth + 1) inner)
      (hrest : Nested parent depth rest) :
      Nested parent depth ((request call depth :: inner ++ [returned call depth]) ++ rest)

theorem requests_append (l l' : List FlowAction) : requests (l ++ l') = requests l ++ requests l' := by
  rw [requests, List.filter_append, List.map_append]
  rfl

theorem returns_append (l l' : List FlowAction) : returns (l ++ l') = returns l ++ returns l' := by
  rw [returns, List.filter_append, List.map_append]
  rfl

theorem requests_bracket (call : FlowCall) (depth : ℕ) (inner : List FlowAction) :
    requests (request call depth :: inner ++ [returned call depth]) = call :: requests inner := by
  rw [requests_append, ← List.singleton_append, requests_append]
  exact congrArg (call :: ·) (List.append_nil _)

theorem returns_bracket (call : FlowCall) (depth : ℕ) (inner : List FlowAction) :
    returns (request call depth :: inner ++ [returned call depth]) = returns inner ++ [call] := by
  rw [returns_append, ← List.singleton_append, returns_append]
  rfl

/-- Every call that is requested returns, once for each request. -/
theorem Nested.returns_perm {parent : Option Id} {depth : ℕ} {actions : List FlowAction}
    (h : Nested parent depth actions) : (returns actions).Perm (requests actions) := by
  induction h with
  | nil parent depth => exact List.Perm.refl _
  | bracket call hparent hinner hrest ihinner ihrest =>
    rw [requests_append, returns_append, requests_bracket, returns_bracket]
    exact ((List.perm_append_singleton _ _).trans (ihinner.cons call)).append ihrest

theorem flatMap_visit_zero (calls nodes : List FlowCall) (depth : ℕ) :
    nodes.flatMap (visitCall calls 0 depth) = [] :=
  List.flatMap_eq_nil_iff.2 fun _ _ ↦ rfl

/-- A walk from calls with one parent is nested. -/
theorem nested_visit (calls : List FlowCall) (n : ℕ) : ∀ (parent : Option Id) (depth : ℕ)
    (nodes : List FlowCall), (∀ call ∈ nodes, call.parent = parent) →
      Nested parent depth (nodes.flatMap (visitCall calls n depth)) := by
  induction n with
  | zero =>
    intro parent depth nodes _
    rw [flatMap_visit_zero]
    exact .nil parent depth
  | succ n ih =>
    intro parent depth nodes
    induction nodes with
    | nil => exact fun _ ↦ .nil parent depth
    | cons call nodes ihnodes =>
      intro h
      rw [List.forall_mem_cons] at h
      rw [List.flatMap_cons, visitCall]
      refine .bracket call h.1 (ih _ _ _ fun child hchild ↦ ?_) (ihnodes h.2)
      exact of_decide_eq_true (List.mem_filter.1 hchild).2

/-- The requests of a walk are those of the forest below. -/
theorem requests_visit (calls : List FlowCall) (n : ℕ) : ∀ (depth : ℕ) (nodes : List FlowCall),
    requests (nodes.flatMap (visitCall calls n depth)) = Forest.walk (childrenIn calls) n nodes := by
  induction n with
  | zero =>
    intro depth nodes
    rw [flatMap_visit_zero]
    rfl
  | succ n ih =>
    intro depth nodes
    induction nodes with
    | nil => rfl
    | cons call nodes ihnodes =>
      rw [List.flatMap_cons, visitCall, requests_append, requests_bracket, ih, ihnodes, Forest.walk, Forest.walk,
        List.flatMap_cons]

/-! ## Groups are forests -/

section Group

variable {calls : List FlowCall}

/-- Each call has one place: it has no parent, or is a child of one call. -/
theorem place (hnodup : (calls.map FlowCall.id).Nodup)
    (hclosed : ∀ call ∈ calls, ∀ id, call.parent = some id → ∃ parent ∈ calls, parent.id = id) :
    ((calls.filter fun call ↦ call.parent.isNone) ++ calls.flatMap (childrenIn calls)).Perm calls := by
  have hcalls : calls.Nodup := hnodup.of_map
  have hchildren : (calls.flatMap (childrenIn calls)).Nodup := by
    refine List.nodup_flatMap.2 ⟨fun _ _ ↦ hcalls.filter _, hcalls.pairwise_of_forall_ne ?_⟩
    intro a ha b hb hne child hchild hchild'
    have hparent := of_decide_eq_true (List.mem_filter.1 hchild).2
    rw [of_decide_eq_true (List.mem_filter.1 hchild').2, Option.some.injEq] at hparent
    exact hne (List.inj_on_of_nodup_map hnodup ha hb hparent.symm)
  have hdisjoint : List.Disjoint (calls.filter fun call ↦ call.parent.isNone)
      (calls.flatMap (childrenIn calls)) := by
    intro call hroot hchild
    obtain ⟨parent, -, hchild⟩ := List.mem_flatMap.1 hchild
    have hnone := (List.mem_filter.1 hroot).2
    rw [of_decide_eq_true (List.mem_filter.1 hchild).2] at hnone
    cases hnone
  refine (List.perm_ext_iff_of_nodup ((hcalls.filter _).append hchildren hdisjoint) hcalls).2 fun call ↦ ?_
  rw [List.mem_append, List.mem_filter, List.mem_flatMap]
  constructor
  · rintro (⟨h, -⟩ | ⟨parent, -, h⟩)
    · exact h
    · exact (List.mem_filter.1 h).1
  · intro h
    cases hparent : call.parent with
    | none => exact .inl ⟨h, rfl⟩
    | some id =>
      obtain ⟨parent, hmem, rfl⟩ := hclosed call h id hparent
      exact .inr ⟨parent, hmem, List.mem_filter.2 ⟨h, decide_eq_true hparent⟩⟩

/-- The walk of a group comes to each of its calls, once. -/
theorem requests_actionsOf (hnodup : (calls.map FlowCall.id).Nodup)
    (hclosed : ∀ call ∈ calls, ∀ id, call.parent = some id → ∃ parent ∈ calls, parent.id = id)
    (hacc : ∀ call ∈ calls, Acc (Forest.Parent (childrenIn calls)) call) :
    (requests (actionsOf calls)).Perm calls := by
  rw [actionsOf, requests_visit]
  exact Forest.walk_perm hacc (place hnodup hclosed) calls.length (Nat.le_refl _)

theorem nested_actionsOf : Nested none 0 (actionsOf calls) :=
  nested_visit calls _ none 0 _ fun _ h ↦ Option.isNone_iff_eq_none.1 (List.mem_filter.1 h).2

end Group

end Flow
