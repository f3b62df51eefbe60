import EezDashboard.Flow.Timeline

/-!
# Plans and frames

The entry plans with their evidence, and the call traces of the transactions.  A frame of a trace is known
by its transaction and its path, the innermost index first, so that the frames around it are the ones with
the shorter paths.  `viem` and the configuration are parameters.
-/

set_option autoImplicit false

namespace Flow

open Js

/-! ## Plans and evidence -/

/-- An entry of an execution table: its rolling hash, its calls, and the calls of the frames nested in it
(`l2ToL1Calls ?? incomingCalls`, of the entry and of its `expectedL1ToL2Calls ?? expectedOutgoingCalls`). -/
structure Entry where
  rollingHash : Option Value
  calls : List Record
  nested : List (List Record)

structure EntryPlan where
  tx : Transaction
  kind : PlanKind
  index : ℕ
  entry : Entry

def EntryPlan.id (plan : EntryPlan) : Id := .plan plan.tx.key plan.kind plan.index

/-- A plan and the transactions it was observed in. -/
structure Evidence where
  plan : EntryPlan
  observations : List Transaction

/-! ## Traces -/

/-- The fields of a traced call. -/
structure CallInfo where
  type : String
  sender : String
  to_ : Option String
  input : Option String
  output : Option String
  value : Option Value
  error : Option String

/-- `!!trace.error` -/
def CallInfo.failed (info : CallInfo) : Bool := info.error.any (· ≠ "")

inductive CallTrace
  | node (info : CallInfo) (calls : List CallTrace)

structure FrameId where
  tx : String
  path : List ℕ
  deriving DecidableEq, Repr

structure Frame where
  id : FrameId
  trace : CallInfo
  method : String
  args : List Value
  static : Bool
  rolledBack : Bool
  /-- `!!frame.parent?.static` -/
  parentStatic : Bool

/-- What comes from outside: decoding a call of `callAbi`, decoding returned bytes, and the hash of a call,
each of which may throw. -/
structure Viem where
  decodeFunctionData : String → Option (String × List Value)
  decodeBytes : String → Option String
  callHash : (sourceAddress : String) → (sourceRollupId : ℤ) → (target : String) → (rollupId value callGas : ℤ) →
    (data : String) → Option String

structure Config where
  rollupId : Value
  managerAddress : Chain → String

/-- The frame of a trace below its parent. -/
def frameOf (viem : Viem) (id : FrameId) (parent : Option Frame) (info : CallInfo) : Frame :=
  let decoded := (viem.decodeFunctionData (info.input.getD "0x")).getD ("", [])
  { id := id
    trace := info
    method := decoded.1
    args := decoded.2
    static := info.type = "STATICCALL" || parent.any Frame.static
    rolledBack := parent.any Frame.rolledBack || parent.any fun p ↦ p.trace.failed
    parentStatic := parent.any Frame.static }

mutual

/-- `traceFrames`: the frames before and after the calls they make. -/
def visit (viem : Viem) (id : FrameId) (parent : Option Frame) : CallTrace → List Frame × List Frame
  | .node info calls =>
    let frame := frameOf viem id parent info
    let inner := visitCalls viem id frame 0 calls
    (frame :: inner.1, inner.2 ++ [frame])

def visitCalls (viem : Viem) (id : FrameId) (parent : Frame) (n : ℕ) :
    List CallTrace → List Frame × List Frame
  | [] => ([], [])
  | call :: calls =>
    let first := visit viem ⟨id.tx, n :: id.path⟩ (some parent) call
    let rest := visitCalls viem id parent (n + 1) calls
    (first.1 ++ rest.1, first.2 ++ rest.2)

end

def traceFrames (viem : Viem) (tx : String) (trace : CallTrace) : List Frame × List Frame :=
  visit viem ⟨tx, []⟩ none trace

/-! ## The frames around a frame -/

/-- The paths of the frames around a frame, the innermost first. -/
def outer : List ℕ → List (List ℕ)
  | [] => []
  | _ :: path => path :: outer path

/-- `frameAncestor` -/
def frameAncestor {α : Type} (frame : Option FrameId) (find : FrameId → Option α) : Option α :=
  frame.bind fun id ↦ (outer id.path).findSome? fun path ↦ find ⟨id.tx, path⟩

/-- One frame lies around another. -/
def Around (f g : FrameId) : Prop := f.tx = g.tx ∧ f.path ∈ outer g.path

instance (f g : FrameId) : Decidable (Around f g) := inferInstanceAs (Decidable (_ ∧ _))

/-- The paths after one of them are those around it. -/
theorem outer_append {path p : List ℕ} {before after : List (List ℕ)}
    (h : outer path = before ++ p :: after) : after = outer p := by
  induction path generalizing before with
  | nil =>
    rw [outer] at h
    exact absurd h.symm (List.append_ne_nil_of_right_ne_nil _ (List.cons_ne_nil _ _))
  | cons n path ih =>
    rw [outer] at h
    cases before with
    | nil => exact (List.cons.inj h).1 ▸ (List.cons.inj h).2.symm
    | cons q before => exact ih (List.cons.inj h).2

/-- `frameAncestor` finds the innermost frame around the given one. -/
theorem frameAncestor_eq_some {α : Type} {frame : Option FrameId} {find : FrameId → Option α} {a : α}
    (h : frameAncestor frame find = some a) : ∃ f g, frame = some f ∧ find g = some a ∧ Around g f ∧
      ∀ g', Around g' f → (find g').isSome = true → g' = g ∨ Around g' g := by
  rw [frameAncestor, Option.bind_eq_some_iff] at h
  obtain ⟨f, hf, h⟩ := h
  rw [List.findSome?_eq_some_iff] at h
  obtain ⟨before, p, after, houter, hfind, hnone⟩ := h
  refine ⟨f, ⟨f.tx, p⟩, hf, hfind, ⟨rfl, houter ▸ List.mem_append_right _ List.mem_cons_self⟩, ?_⟩
  rintro ⟨tx, path⟩ ⟨htx, hpath⟩ hsome
  dsimp only at htx hpath
  subst htx
  rw [houter] at hpath
  rcases List.mem_append.1 hpath with hbefore | hafter
  · rw [hnone path hbefore] at hsome
    cases hsome
  · rcases List.mem_cons.1 hafter with rfl | hafter
    · exact .inl rfl
    · exact .inr ⟨rfl, outer_append houter ▸ hafter⟩

end Flow
