import Mathlib.Data.List.Perm.Basic
import Mathlib.Data.List.Nodup
import EezDashboard.Js.Value

/-!
# The timeline of both chains

`buildExecutionTimeline` puts every transaction in scope in once, and numbers its protocol events as they
were decoded.  A step is known by its transaction and that number, so that no two steps have one identifier.

A text such as `${txKey}:${eventIndex}` can be read back into its parts, so that an identifier is given by
its parts.
-/

set_option autoImplicit false

namespace Flow

open Js

inductive Chain
  | l1
  | l2
  deriving DecidableEq, Repr

inductive PlanKind
  | execution
  | static
  deriving DecidableEq, Repr

/-- `${txKey}:${eventIndex}` of a step, `${txKey}:${kind}:${index}` of a plan -/
inductive Id
  | step (txKey : String) (eventIndex : ℕ)
  | plan (txKey : String) (kind : PlanKind) (index : ℕ)
  deriving DecidableEq, Repr

/-- A transaction; `key` is its `txKey`. -/
structure Transaction where
  chain : Chain
  key : String
  deriving DecidableEq, Repr

/-- A decoded event; `address` and `logIndex` are those of the raw log. -/
structure ProtocolEvent where
  name : String
  args : Record
  address : String
  logIndex : ℕ
  hash : Option String

structure TimelineStep where
  tx : Transaction
  eventIndex : ℕ
  event : ProtocolEvent

def TimelineStep.id (step : TimelineStep) : Id := .step step.tx.key step.eventIndex

inductive Basis
  | matchingCallHash
  | replayCandidate
  | unlinked
  deriving DecidableEq, Repr

structure Connection where
  source : Id
  target : Id
  basis : Basis
  ambiguous : Bool

/-- The steps of one transaction. -/
structure Group where
  tx : Transaction
  steps : List TimelineStep

structure Timeline where
  l1 : List Group
  l2 : List Group
  connections : List Connection
  nodup : ((l1 ++ l2).flatMap fun group ↦ group.steps.map TimelineStep.id).Nodup

def Timeline.groups (timeline : Timeline) : List Group := timeline.l1 ++ timeline.l2

def Timeline.steps (timeline : Timeline) : List TimelineStep := timeline.groups.flatMap Group.steps

theorem Timeline.nodup_steps (timeline : Timeline) : (timeline.steps.map TimelineStep.id).Nodup := by
  rw [steps, List.map_flatMap]
  exact timeline.nodup

/-! ## Building it -/

/-- The steps of a transaction: numbered, then in the order of the logs. -/
def stepsOf (tx : Transaction) (events : List ProtocolEvent) : List TimelineStep :=
  (events.zipIdx.mergeSort fun a b ↦ decide (a.1.logIndex ≤ b.1.logIndex)).map fun (event, index) ↦
    ⟨tx, index, event⟩

/-- `add`, for each transaction: once, and only when it is in scope. -/
def addAll (inScope : Transaction → Bool) : List String → List (Transaction × List ProtocolEvent) → List Group
  | _, [] => []
  | seen, (tx, events) :: rest =>
    if ¬inScope tx ∨ tx.key ∈ seen then addAll inScope seen rest
    else ⟨tx, stepsOf tx events⟩ :: addAll inScope (tx.key :: seen) rest

theorem nodup_stepsOf (tx : Transaction) (events : List ProtocolEvent) :
    ((stepsOf tx events).map TimelineStep.id).Nodup := by
  have hindices : (events.zipIdx.map Prod.snd).Nodup := by
    rw [List.zipIdx_map_snd]
    exact List.nodup_range'
  have hperm := List.mergeSort_perm events.zipIdx fun a b ↦ decide (a.1.logIndex ≤ b.1.logIndex)
  rw [stepsOf, List.map_map]
  refine ((hperm.map _).nodup_iff).2 ?_
  have heq : events.zipIdx.map (TimelineStep.id ∘ fun p : ProtocolEvent × ℕ ↦ ⟨tx, p.2, p.1⟩) =
      (events.zipIdx.map Prod.snd).map (Id.step tx.key) := by
    rw [List.map_map]
    rfl
  rw [heq]
  exact hindices.map fun _ _ h ↦ (Id.step.inj h).2

theorem id_of_mem_stepsOf {tx : Transaction} {events : List ProtocolEvent} {id : Id}
    (h : id ∈ (stepsOf tx events).map TimelineStep.id) : ∃ index, id = .step tx.key index := by
  rw [stepsOf, List.map_map, List.mem_map] at h
  obtain ⟨p, -, rfl⟩ := h
  exact ⟨p.2, rfl⟩

/-- Every transaction of `addAll` is a new one. -/
theorem key_not_mem_addAll {inScope : Transaction → Bool} (txs : List (Transaction × List ProtocolEvent)) :
    ∀ {seen : List String}, ∀ group ∈ addAll inScope seen txs, group.tx.key ∉ seen ∧
      ∃ events, group.steps = stepsOf group.tx events := by
  induction txs with
  | nil => exact fun group h ↦ absurd h List.not_mem_nil
  | cons p rest ih =>
    intro seen group h
    rw [addAll] at h
    split at h
    · exact ih group h
    · rename_i hnew
      rcases List.mem_cons.1 h with rfl | h
      · exact ⟨fun hmem ↦ hnew (.inr hmem), p.2, rfl⟩
      · obtain ⟨hseen, hsteps⟩ := ih group h
        exact ⟨fun hmem ↦ hseen (List.mem_cons_of_mem _ hmem), hsteps⟩

theorem nodup_addAll {inScope : Transaction → Bool} (txs : List (Transaction × List ProtocolEvent)) :
    ∀ seen : List String,
      ((addAll inScope seen txs).flatMap fun group ↦ group.steps.map TimelineStep.id).Nodup := by
  induction txs with
  | nil => exact fun _ ↦ List.nodup_nil
  | cons p rest ih =>
    intro seen
    rw [addAll]
    split
    · exact ih seen
    · rw [List.flatMap_cons]
      refine (nodup_stepsOf p.1 p.2).append (ih _) ?_
      intro id hid hid'
      obtain ⟨group, hgroup, hid'⟩ := List.mem_flatMap.1 hid'
      obtain ⟨hnew, events, hsteps⟩ := key_not_mem_addAll rest group hgroup
      obtain ⟨i, rfl⟩ := id_of_mem_stepsOf hid
      rw [hsteps] at hid'
      obtain ⟨j, hj⟩ := id_of_mem_stepsOf hid'
      exact hnew ((Id.step.inj hj).1 ▸ List.mem_cons_self)

/-- `buildExecutionTimeline`, given the transactions in order, which of them are in scope, and the connections
that were found. -/
def buildTimeline (inScope : Transaction → Bool) (txs : List (Transaction × List ProtocolEvent))
    (connections : List Connection) : Timeline where
  l1 := (addAll inScope [] txs).filter fun group ↦ group.tx.chain = .l1
  l2 := (addAll inScope [] txs).filter fun group ↦ ¬group.tx.chain = .l1
  connections := connections
  nodup := by
    have hperm := List.filter_append_perm (fun group : Group ↦ decide (group.tx.chain = .l1))
      (addAll inScope [] txs)
    simp only [decide_not]
    exact ((hperm.flatMap_right _).nodup_iff).2 (nodup_addAll txs [])

end Flow
