import Mathlib
import EezDashboard.Finite.Journal
import EezDashboard.Trace.Truth

/-!
# The table a frame runs under

`walk` keeps the table that is loaded in one variable, saves it where a frame starts and restores it where the
frame ends with an error, and leaves it behind for the next transaction of the block.  What it should know at every
frame is the last load that has not been undone: the newest entry of a journal in which every frame, and every
transaction, is a scope that fails when it reverts.

The two agree frame by frame (`walk_nested`), and part at the end of a transaction: that a receipt says the
transaction was reverted undoes its loads in the journal, but in `walk` only an error of the root does.
-/

set_option autoImplicit false

namespace TraceDecoder

open Journal (Nested under)

/-- A load, or a frame that asks for the last one. -/
abbrev TableEvent := Journal.Event TableId FrameId

/-- A frame apart from its table. -/
def Frame.bare (f : Frame) : Frame := { f with generationId := none }

/-- A frame with the table recorded on it. -/
def Frame.generation (f : Frame) : FrameId × Option TableId := (f.id, f.generationId)

section Replay

variable (protocol : Protocol)

/-! ## The replay -/

/-- The load of a frame. -/
def loadOf (parent : Option Frame) (f : Frame) : Option TableId :=
  if loadsTable protocol parent f then some (.frame f.id) else none

mutual

/-- A call is a scope that fails with an error; its load takes effect at once. -/
def events (tx : Transaction) (parent : Option Frame) (path : List ℕ) (staticContext : Bool) :
    RawCall → List TableEvent
  | .mk type sender target input output value error calls =>
    let f := frameOf protocol tx parent path staticContext none
      (.mk type sender target input output value error calls)
    .enter :: ((((loadOf protocol parent f).toList.map .write ++ [.note f.id]) ++ eventsAll tx f 0 calls) ++
      [.leave (error.any (· ≠ ""))])

def eventsAll (tx : Transaction) (parent : Frame) (i : ℕ) : List RawCall → List TableEvent
  | [] => []
  | raw :: calls =>
    events tx (some parent) (i :: parent.id.path) parent.isStatic raw ++ eventsAll tx parent (i + 1) calls

end

/-- A transaction without a trace that calls the manager with a table. -/
def Transaction.loadsCalldata (tx : Transaction) : Bool :=
  same tx.target (protocol.managers tx.chain) && (protocol.parseManager tx.chain tx.input).any fun c ↦ c.method.loads

/-- A transaction is a scope that fails when the receipt says so.  Without a trace only a receipt of success is
evidence that the calldata was executed. -/
def Transaction.events (tx : Transaction) : List TableEvent :=
  match tx.trace with
  | some raw => .enter :: (TraceDecoder.events protocol tx none [0] false raw ++ [.leave (tx.status == some 0)])
  | none =>
    if tx.loadsCalldata protocol then .enter :: ([.write (.calldata tx.chain tx.hash)] ++ [.leave (tx.status != some 1)])
    else []

/-- The blocks have journals of their own. -/
def Transaction.block (tx : Transaction) : Chain × ℕ := (tx.chain, tx.blockNumber)

/-- The frames of the transactions, each with the last load of its block that has not been undone. -/
def replay (journals : Chain × ℕ → List TableId) : List Transaction → List (FrameId × Option TableId)
  | [] => []
  | tx :: txs =>
    let s := Journal.run { entries := journals tx.block } (tx.events protocol)
    s.notes ++ replay (Function.update journals tx.block s.entries) txs

end Replay

/-! ## Agreement within a transaction -/

section Walk

variable (protocol : Protocol) {tx : Transaction}

theorem frameOf_bare {parent parent' : Option Frame} (h : parent.map Frame.bare = parent'.map Frame.bare)
    (path : List ℕ) (staticContext : Bool) (state : Option TableId) (raw : RawCall) :
    (frameOf protocol tx parent path staticContext state raw).bare =
      frameOf protocol tx parent' path staticContext none raw := by
  obtain ⟨type, sender, target, input, output, value, error, calls⟩ := raw
  have hcontext (p : Option Frame) : p.bind Frame.contextAddress = (p.map Frame.bare).bind Frame.contextAddress := by
    cases p <;> rfl
  simp only [frameOf, Frame.bare, hcontext parent, hcontext parent', h]

theorem loadsTable_bare {parent parent' : Option Frame} (h : parent.map Frame.bare = parent'.map Frame.bare)
    (f : Frame) : loadsTable protocol parent f = loadsTable protocol parent' f.bare := by
  have hany (p : Option Frame) : (p.any fun p ↦ p.isManager && p.input == f.input) =
      (p.map Frame.bare).any fun p ↦ p.isManager && p.input == f.input := by
    cases p <;> rfl
  rw [loadsTable, loadsTable, hany parent, h, ← hany parent']
  rfl

theorem enter_eq {parent parent' : Option Frame} (h : parent.map Frame.bare = parent'.map Frame.bare)
    (path : List ℕ) (staticContext : Bool) (state : Option TableId) (raw : RawCall) :
    (enter protocol tx parent path staticContext state raw).bare =
        frameOf protocol tx parent' path staticContext none raw ∧
      (enter protocol tx parent path staticContext state raw).generationId =
        (loadOf protocol parent' (frameOf protocol tx parent' path staticContext none raw)).or state := by
  have hbare : (frameOf protocol tx parent path staticContext state raw).bare =
      frameOf protocol tx parent' path staticContext none raw := frameOf_bare protocol h path staticContext state raw
  have hloads := loadsTable_bare protocol h (frameOf protocol tx parent path staticContext state raw)
  rw [hbare] at hloads
  rw [enter, loadOf, hloads, ← hbare]
  split
  · exact ⟨rfl, rfl⟩
  · refine ⟨rfl, ?_⟩
    obtain ⟨type, sender, target, input, output, value, error, calls⟩ := raw
    rfl

theorem Nested.opening (own : Option TableId) (id : FrameId) :
    Nested (own.toList.map .write ++ [.note id]) own.toList [(id, own)] := by
  cases own with
  | none => exact .note id
  | some t => exact Nested.append (.write t) (.note id)

/-- The frames run under the tables that the notes name, and the newest table that was kept is loaded in the end. -/
structure Answers (kept : List TableId) (notes : List (FrameId × Option TableId)) (state : Option TableId)
    (r : List Frame × Option TableId) : Prop where
  frames : r.1.map Frame.generation = notes.map (under state)
  table : r.2 = kept.head?.or state

theorem Answers.append {kept kept' : List TableId} {notes notes' : List (FrameId × Option TableId)}
    {state : Option TableId} {r r' : List Frame × Option TableId} (h : Answers kept notes state r)
    (h' : Answers kept' notes' r.2 r') :
    Answers (kept' ++ kept) (notes ++ notes'.map (under kept.head?)) state (r.1 ++ r'.1, r'.2) where
  frames := by
    rw [List.map_append, h.frames, h'.frames, h.table, List.map_append, List.map_map]
    exact congrArg _ (List.map_congr_left fun n _ ↦ (Journal.under_under _ _ n).symm)
  table := by rw [h'.table, h.table, List.head?_append, Option.or_assoc]

/-- The notes of a call, the table that its frame loads and the notes of what is below it given. -/
def notesOf (id : FrameId) (own : Option TableId) (below : List (FrameId × Option TableId)) :
    List (FrameId × Option TableId) :=
  (id, own) :: below.map (under own)

theorem notesOf_under (id : FrameId) (own : Option TableId) (below : List (FrameId × Option TableId))
    (state : Option TableId) :
    (notesOf id own below).map (under state) = (id, own.or state) :: below.map (under (own.or state)) := by
  rw [notesOf, List.map_cons, List.map_map, under]
  exact congrArg _ (List.map_congr_left fun n _ ↦ Journal.under_under _ _ n)

theorem exists_none_notesOf {id : FrameId} {own : Option TableId} {below : List (FrameId × Option TableId)} :
    (∃ n ∈ notesOf id own below, n.2 = none) ↔ own = none := by
  constructor
  · rintro ⟨n, hn, hnone⟩
    rcases List.mem_cons.1 hn with rfl | hn
    · exact hnone
    · obtain ⟨n', -, rfl⟩ := List.mem_map.1 hn
      exact (Option.or_eq_none_iff.1 hnone).2
  · exact fun hnone ↦ ⟨_, List.mem_cons_self, hnone⟩

mutual

theorem walk_answers (parent' : Option Frame) (path : List ℕ) (staticContext : Bool) : ∀ raw : RawCall,
    let f := frameOf protocol tx parent' path staticContext none raw
    ∃ kept below, Nested (events protocol tx parent' path staticContext raw) kept
        (notesOf f.id (loadOf protocol parent' f) below) ∧
      ∀ parent state, parent.map Frame.bare = parent'.map Frame.bare →
        Answers kept (notesOf f.id (loadOf protocol parent' f) below) state
          (walk protocol tx parent path staticContext state raw)
  | .mk type sender target input output value error calls => by
    intro f
    obtain ⟨kept, notes, hnested, hwalk⟩ := walkAll_answers f 0 calls
    have hopening := (Nested.opening (loadOf protocol parent' f) f.id).append hnested
    rw [Option.head?_toList] at hopening
    refine ⟨_, notes, hopening.scope _, fun parent state h ↦ ?_⟩
    obtain ⟨hbare, hgeneration⟩ := @enter_eq protocol tx parent parent' h path staticContext state
      (.mk type sender target input output value error calls)
    have hbelow := hwalk _ ((loadOf protocol parent' f).or state) hbare
    rw [← hgeneration] at hbelow
    have hid := congrArg Frame.id hbare
    rw [walk]
    constructor
    · rw [List.map_cons, hbelow.frames, notesOf_under, Frame.generation, hgeneration]
      exact congrArg (fun id ↦ (id, _) :: _) hid
    · cases error.any (· ≠ "") with
      | true => rfl
      | false =>
        refine hbelow.table.trans ?_
        rw [hgeneration, if_neg Bool.false_ne_true, List.head?_append, Option.head?_toList, Option.or_assoc]

theorem walkAll_answers (parent' : Frame) (i : ℕ) : ∀ calls : List RawCall,
    ∃ kept notes, Nested (eventsAll protocol tx parent' i calls) kept notes ∧
      ∀ parent state, Frame.bare parent = parent' →
        Answers kept notes state (walkAll protocol tx parent i state calls)
  | [] => ⟨[], [], .nil, fun _ _ _ ↦ ⟨rfl, rfl⟩⟩
  | raw :: calls => by
    obtain ⟨kept, below, hnested, hwalk⟩ := walk_answers (some parent') (i :: parent'.id.path) parent'.isStatic raw
    obtain ⟨kept', notes', hnested', hwalk'⟩ := walkAll_answers parent' (i + 1) calls
    refine ⟨_, _, hnested.append hnested', fun parent state h ↦ ?_⟩
    obtain rfl := h
    exact (hwalk (some parent) state rfl).append (hwalk' parent _ rfl)

end

/-- The transaction a table was loaded by. -/
def TableId.key : TableId → Chain × Hex
  | .frame id => id.key
  | .calldata chain hash => (chain, hash)

mutual

/-- A call loads tables of its own transaction only. -/
theorem events_key (parent : Option Frame) (path : List ℕ) (staticContext : Bool) : ∀ raw : RawCall, ∀ t,
    Journal.Event.write t ∈ events protocol tx parent path staticContext raw → t.key = tx.key
  | .mk type sender target input output value error calls => by
    intro t ht
    rw [events] at ht
    simp only [List.mem_cons, List.mem_append, List.mem_map, reduceCtorEq, false_or, or_false, List.not_mem_nil,
      Journal.Event.write.injEq, exists_eq_right, Option.mem_toList] at ht
    rcases ht with ht | ht
    · rw [loadOf] at ht
      split at ht
      · obtain rfl := Option.some_inj.1 ht
        rfl
      · cases ht
    · exact eventsAll_key _ 0 calls t ht

theorem eventsAll_key (parent : Frame) (i : ℕ) : ∀ calls : List RawCall, ∀ t,
    Journal.Event.write t ∈ eventsAll protocol tx parent i calls → t.key = tx.key
  | [] => fun t ht ↦ absurd ht (List.not_mem_nil)
  | raw :: calls => by
    intro t ht
    rcases List.mem_append.1 ht with ht | ht
    · exact events_key _ _ _ raw t ht
    · exact eventsAll_key parent (i + 1) calls t ht

end

/-! ## Agreement between transactions -/

/-- A load of the transaction is in no frame that ends with an error. -/
def Transaction.keepsTable (tx : Transaction) : Bool :=
  match tx.trace with
  | some raw => !(Journal.run {} (TraceDecoder.events protocol tx none [0] false raw)).entries.isEmpty
  | none => tx.loadsCalldata protocol && tx.status == some 1

/-- The root of the trace runs under a table that was loaded before the transaction. -/
def Transaction.asksBefore (tx : Transaction) : Bool :=
  tx.trace.any fun raw ↦ !loadsTable protocol none (frameOf protocol tx none [0] false none raw)

/-- What a transaction does to the tables of its block. -/
structure Effect (tx : Transaction) (kept : List TableId) (notes : List (FrameId × Option TableId)) : Prop where
  answers (state : Option TableId) : Answers kept notes state (framesOf protocol state tx)
  replayed (entries : List TableId) : Journal.run { entries := entries } (tx.events protocol) =
    ⟨(if tx.status = some 0 then [] else kept) ++ entries, [], notes.map (under entries.head?)⟩
  keeps : tx.keepsTable protocol = true ↔ kept ≠ []
  key : ∀ t ∈ kept, t.key = tx.key
  asks : tx.asksBefore protocol = true ↔ ∃ n ∈ notes, n.2 = none

/-- The calldata of a transaction without a trace. -/
theorem exists_effect_of_none (htrace : tx.trace = none) : ∃ kept notes, Effect protocol tx kept notes := by
  have hasks : tx.asksBefore protocol = true ↔ ∃ n ∈ ([] : List (FrameId × Option TableId)), n.2 = none := by
    rw [Transaction.asksBefore, htrace]
    simp
  have hframes (state : Option TableId) : framesOf protocol state tx =
      if tx.loadsCalldata protocol && tx.status == some 1 then ([], some (.calldata tx.chain tx.hash))
      else ([], state) := by
    rw [framesOf, htrace]
    rfl
  have hkeeps : tx.keepsTable protocol = (tx.loadsCalldata protocol && tx.status == some 1) := by
    rw [Transaction.keepsTable, htrace]
  have hevents : tx.events protocol = if tx.loadsCalldata protocol then
      .enter :: ([.write (.calldata tx.chain tx.hash)] ++ [.leave (tx.status != some 1)]) else [] := by
    rw [Transaction.events, htrace]
  by_cases hload : tx.loadsCalldata protocol = true
  · rw [if_pos hload] at hevents
    have hrun := (Nested.write (β := FrameId) (TableId.calldata tx.chain tx.hash)).scope (tx.status != some 1)
    by_cases hstatus : tx.status = some 1
    · refine ⟨[.calldata tx.chain tx.hash], [], fun state ↦ ?_, fun entries ↦ ?_, ?_, fun t ht ↦ ?_, hasks⟩
      · rw [hframes, hload, hstatus]
        exact ⟨rfl, rfl⟩
      · rw [hevents, hrun.run, hstatus]
        rfl
      · rw [hkeeps, hload, hstatus]
        simp
      · rw [List.mem_singleton.1 ht]
        rfl
    · have hne : (tx.status == some 1) = false := beq_eq_false_iff_ne.2 hstatus
      refine ⟨[], [], fun state ↦ ?_, fun entries ↦ ?_, ?_, fun t ht ↦ absurd ht List.not_mem_nil, hasks⟩
      · rw [hframes, hne, Bool.and_false]
        exact ⟨rfl, rfl⟩
      · rw [hevents, hrun.run, bne, hne]
        simp
      · rw [hkeeps, hne]
        simp
  · rw [if_neg hload] at hevents
    rw [Bool.not_eq_true] at hload
    refine ⟨[], [], fun state ↦ ?_, fun entries ↦ ?_, ?_, fun t ht ↦ absurd ht List.not_mem_nil, hasks⟩
    · rw [hframes, hload]
      exact ⟨rfl, rfl⟩
    · rw [hevents, Nested.nil.run]
      simp
    · rw [hkeeps, hload]
      simp

theorem exists_effect (tx : Transaction) : ∃ kept notes, Effect protocol tx kept notes := by
  cases htrace : tx.trace with
  | none => exact exists_effect_of_none protocol htrace
  | some raw =>
    obtain ⟨kept, below, hnested, hwalk⟩ := @walk_answers protocol tx none [0] false raw
    refine ⟨kept, notesOf (frameOf protocol tx none [0] false none raw).id
      (loadOf protocol none (frameOf protocol tx none [0] false none raw)) below,
      fun state ↦ ?_, fun entries ↦ ?_, ?_, fun t ht ↦ ?_, ?_⟩
    · rw [framesOf, htrace]
      exact hwalk none state rfl
    · rw [Transaction.events, htrace]
      dsimp only
      rw [(hnested.scope _).run, List.nil_append]
      simp only [beq_iff_eq]
    · rw [Transaction.keepsTable, htrace]
      dsimp only
      rw [hnested.run]
      simp
    · exact events_key protocol _ _ _ raw t (hnested.write_mem t ht)
    · rw [Transaction.asksBefore, htrace, Option.any_some, exists_none_notesOf, loadOf]
      simp

theorem under_map_iff {notes : List (FrameId × Option TableId)} {s s' : Option TableId} :
    notes.map (under s) = notes.map (under s') ↔ ((∃ n ∈ notes, n.2 = none) → s = s') := by
  rw [List.map_inj_left]
  constructor
  · rintro h ⟨n, hn, hnone⟩
    have hs := congrArg Prod.snd (h n hn)
    rwa [under, under, hnone, Option.none_or, Option.none_or] at hs
  · intro h n hn
    cases hnone : n.2 with
    | none => rw [h ⟨n, hn, hnone⟩]
    | some t => rw [under, under, hnone, Option.some_or, Option.some_or]

/-- `blockState`, and the journals of the blocks, after some transactions. -/
def tablesAfter (txs : List Transaction) : Chain × ℕ → Option TableId :=
  txs.foldl (fun tables tx ↦ Function.update tables tx.block (framesOf protocol (tables tx.block) tx).2) fun _ ↦ none

def journalsAfter (txs : List Transaction) : Chain × ℕ → List TableId :=
  txs.foldl (fun journals tx ↦ Function.update journals tx.block
    (Journal.run { entries := journals tx.block } (tx.events protocol)).entries) fun _ ↦ []

theorem tablesAfter_concat (txs : List Transaction) (tx : Transaction) : tablesAfter protocol (txs ++ [tx]) =
    Function.update (tablesAfter protocol txs) tx.block
      (framesOf protocol (tablesAfter protocol txs tx.block) tx).2 := by
  rw [tablesAfter, List.foldl_append]
  rfl

theorem journalsAfter_concat (txs : List Transaction) (tx : Transaction) : journalsAfter protocol (txs ++ [tx]) =
    Function.update (journalsAfter protocol txs) tx.block
      (Journal.run { entries := journalsAfter protocol txs tx.block } (tx.events protocol)).entries := by
  rw [journalsAfter, List.foldl_append]
  rfl

theorem allFrames_concat (txs : List Transaction) (tx : Transaction) :
    allFrames protocol (fun _ ↦ none) (txs ++ [tx]) =
      allFrames protocol (fun _ ↦ none) txs ++ (framesOf protocol (tablesAfter protocol txs tx.block) tx).1 := by
  rw [tablesAfter]
  generalize (fun _ ↦ none : Chain × ℕ → Option TableId) = tables
  induction txs generalizing tables with
  | nil => exact List.append_nil _
  | cons tx' txs ih =>
    rw [List.cons_append, allFrames, allFrames, ih, List.append_assoc]
    rfl

theorem replay_concat (txs : List Transaction) (tx : Transaction) :
    replay protocol (fun _ ↦ []) (txs ++ [tx]) = replay protocol (fun _ ↦ []) txs ++
      (Journal.run { entries := journalsAfter protocol txs tx.block } (tx.events protocol)).notes := by
  rw [journalsAfter]
  generalize (fun _ ↦ [] : Chain × ℕ → List TableId) = journals
  induction txs generalizing journals with
  | nil => exact List.append_nil _
  | cons tx' txs ih =>
    rw [List.cons_append, replay, replay, ih, List.append_assoc]
    rfl

/-- The last transaction of the block that keeps a table. -/
def lastKeeper (txs : List Transaction) (block : Chain × ℕ) : Option Transaction :=
  (txs.filter fun tx ↦ tx.block = block && tx.keepsTable protocol).getLast?

theorem lastKeeper_concat (txs : List Transaction) (tx : Transaction) (block : Chain × ℕ) :
    lastKeeper protocol (txs ++ [tx]) block =
      if tx.block = block ∧ tx.keepsTable protocol = true then some tx else lastKeeper protocol txs block := by
  rw [lastKeeper, List.filter_append]
  by_cases h : tx.block = block ∧ tx.keepsTable protocol = true
  · rw [List.filter_cons_of_pos (by simp [h]), List.filter_nil, List.getLast?_concat, if_pos h]
  · rw [List.filter_cons_of_neg (by simpa using h), List.filter_nil, List.append_nil, if_neg h, lastKeeper]

theorem journalsAfter_key {txs : List Transaction} {block : Chain × ℕ} : ∀ t ∈ journalsAfter protocol txs block,
    t.key ∈ txs.map Transaction.key := by
  induction txs using List.reverseRecOn with
  | nil => exact fun t ht ↦ absurd ht List.not_mem_nil
  | append_singleton txs tx ih =>
    intro t ht
    obtain ⟨kept, notes, heffect⟩ := exists_effect protocol tx
    rw [List.map_append, List.mem_append, List.map_singleton, List.mem_singleton]
    rw [journalsAfter_concat, heffect.replayed] at ht
    by_cases hblock : block = tx.block
    · subst hblock
      rw [Function.update_self] at ht
      rcases List.mem_append.1 ht with ht | ht
      · split at ht
        · cases ht
        · exact .inr (heffect.key t ht)
      · exact .inl (ih t ht)
    · rw [Function.update_of_ne hblock] at ht
      exact .inl (ih t ht)

/-- **What is loaded between two transactions** is right unless the last transaction that kept a table was
reverted. -/
theorem tablesAfter_eq_iff {txs : List Transaction} (h : (txs.map Transaction.key).Nodup) (block : Chain × ℕ) :
    tablesAfter protocol txs block = (journalsAfter protocol txs block).head? ↔
      ∀ a ∈ lastKeeper protocol txs block, a.status ≠ some 0 := by
  induction txs using List.reverseRecOn with
  | nil => exact ⟨fun _ a ha ↦ absurd ha (Option.not_mem_none a), fun _ ↦ rfl⟩
  | append_singleton txs tx ih =>
    obtain ⟨kept, notes, heffect⟩ := exists_effect protocol tx
    rw [List.map_append, List.map_singleton, List.nodup_append] at h
    rw [tablesAfter_concat, journalsAfter_concat, lastKeeper_concat]
    by_cases hblock : block = tx.block
    · subst hblock
      rw [Function.update_self, Function.update_self, (heffect.answers _).table, heffect.replayed]
      cases kept with
      | nil =>
        rw [ite_self, if_neg fun hkeeps : _ ∧ _ ↦ heffect.keeps.1 hkeeps.2 rfl]
        exact ih h.1
      | cons t kept =>
        have hkeeps := heffect.keeps.2 (List.cons_ne_nil _ _)
        by_cases hstatus : tx.status = some 0
        · -- the table of the reverted transaction is not one of an earlier transaction
          rw [if_pos hstatus, if_pos ⟨rfl, hkeeps⟩]
          refine iff_of_false (fun heq ↦ ?_) fun hall ↦ hall tx rfl hstatus
          have hmem := List.mem_of_head? heq.symm
          exact h.2.2 _ (journalsAfter_key protocol t hmem) tx.key List.mem_cons_self
            (heffect.key t List.mem_cons_self)
        · rw [if_neg hstatus, if_pos ⟨rfl, hkeeps⟩]
          refine iff_of_true rfl fun a ha ↦ ?_
          obtain rfl := Option.some_inj.1 ha
          exact hstatus
    · rw [Function.update_of_ne hblock, Function.update_of_ne hblock, if_neg fun hkeeps ↦ hblock hkeeps.1.symm]
      exact ih h.1

/-- A frame that asks for a table of an earlier transaction does so when the last table that was kept is not one of
a transaction that the receipt calls reverted. -/
def Undone (txs : List Transaction) : Prop :=
  ∀ earlier tx, earlier ++ [tx] <+: txs → tx.asksBefore protocol = true →
    ∀ a ∈ lastKeeper protocol earlier tx.block, a.status ≠ some 0

theorem undone_concat_iff (txs : List Transaction) (tx : Transaction) : Undone protocol (txs ++ [tx]) ↔
    Undone protocol txs ∧
      (tx.asksBefore protocol = true → ∀ a ∈ lastKeeper protocol txs tx.block, a.status ≠ some 0) := by
  constructor
  · exact fun h ↦ ⟨fun earlier tx' hearlier ↦ h earlier tx' (hearlier.trans (List.prefix_append txs [tx])),
      h txs tx List.prefix_rfl⟩
  · rintro ⟨h, htx⟩ earlier tx' hearlier
    rcases List.prefix_concat_iff.1 hearlier with heq | hearlier
    · obtain ⟨rfl, hsingle⟩ := List.append_inj' heq rfl
      obtain rfl := List.singleton_inj.1 hsingle
      exact htx
    · exact h earlier tx' hearlier

end Walk

/-- **The generation of every frame is the replay's** exactly when no frame asks for what a reverted receipt should
have undone. -/
theorem Traces.generations_iff (t : Traces) :
    t.frames.map Frame.generation = replay t.chains.toProtocol (fun _ ↦ []) t.transactions ↔
      Undone t.chains.toProtocol t.transactions := by
  obtain ⟨chains, txs, hdistinct⟩ := t
  rw [Traces.frames]
  dsimp only
  induction txs using List.reverseRecOn with
  | nil => exact iff_of_true rfl fun earlier tx h ↦ absurd (List.prefix_nil.1 h) (by simp)
  | append_singleton txs tx ih =>
    have hbefore : (txs.map Transaction.key).Nodup := by
      rw [List.map_append, List.nodup_append] at hdistinct
      exact hdistinct.1
    obtain ⟨kept, notes, heffect⟩ := exists_effect chains.toProtocol tx
    rw [undone_concat_iff, ← ih hbefore, heffect.asks, ← tablesAfter_eq_iff _ hbefore, ← under_map_iff,
      allFrames_concat, replay_concat, heffect.replayed, List.map_append, (heffect.answers _).frames]
    exact ⟨fun h ↦ List.append_inj' h (by rw [List.length_map, List.length_map]), fun h ↦ by rw [h.1, h.2]⟩

/-- A transaction that loads a table and is reverted, although its trace has no error, and another one behind it. -/
def sampleReverted : Traces where
  chains := { sampleChains with parseManager := fun _ _ ↦ some ⟨.loadExecutionTable, [], []⟩ }
  transactions :=
    [⟨.l2, [0x51], 5, 0, none, [], some 0, some (sampleCall .call 0xe0 0xa2 [] [])⟩,
      ⟨.l2, [0x52], 5, 1, none, [], some 1, some (sampleCall .call 0xe0 0xcc [] [])⟩]
  distinct := by simp [Transaction.key]

/-- The frame of the second runs under the table of the first. -/
theorem Traces.not_generations_reverted : ¬∀ t : Traces,
    t.frames.map Frame.generation = replay t.chains.toProtocol (fun _ ↦ []) t.transactions := by
  intro h
  have hsample := h sampleReverted
  revert hsample
  decide +kernel

end TraceDecoder
