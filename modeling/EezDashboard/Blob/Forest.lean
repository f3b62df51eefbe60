import EezDashboard.Blob.Stream

/-!
# Transactions as forests

What a cross-chain transaction is, apart from how the loop reads it: a `Body` is a forest of calls,
each with its return, and of regions, each between a snapshot and its revert.  What the decoder
records of a body is a function of the forest (`Body.calls`, `Body.regions`, `Body.log`) in the
`Scope` it stands in, which is what there is to know of the calls around it and in front of it.

`steps_word` runs the loop over the brackets of a body: it gets through exactly when the body
`Fits`, and then the state has grown by what the forest says.  `steps_idle` does the same for whole
transactions, and turns the question of what the loop accepts into one about forests.
-/

set_option autoImplicit false

open Codec Brackets

namespace BlobDecoder

abbrev Body := Forest Opening Closing

/-- The number of calls. -/
def Body.size : Body → ℕ
  | .nil => 0
  | .node .call _ body _ rest => Body.size body + 1 + Body.size rest
  | .node .region _ body _ rest => Body.size body + Body.size rest

def Body.regionCount : Body → ℕ
  | .nil => 0
  | .node .call _ body _ rest => Body.regionCount body + Body.regionCount rest
  | .node .region _ body _ rest => Body.regionCount body + 1 + Body.regionCount rest

/-- What the format asks of a body below `depth` open calls: no more than 63 calls are ever open,
none of them has gas of its own, and a region has a call in it but no region. -/
def Body.Fits : ℕ → Body → Prop
  | _, .nil => True
  | depth, .node .call c body _ rest =>
    (c.gas = 0 ∧ depth < 63) ∧ Body.Fits (depth + 1) body ∧ Body.Fits depth rest
  | depth, .node .region _ body _ rest =>
    (0 < Body.size body ∧ Body.regionCount body = 0) ∧ Body.Fits depth body ∧ Body.Fits depth rest

/-! ## What is recorded of a body -/

/-- Where a body stands: the indices its first call and region will have, and the call it is made
under, with its depth and the chain it runs on. -/
structure Scope where
  index : ℕ
  regionIndex : ℕ
  parentIndex : Option ℕ
  depth : ℕ
  chain : ℕ

/-- Inside a call. -/
def Scope.within (s : Scope) (c : CallFields) : Scope where
  index := s.index + 1
  regionIndex := s.regionIndex
  parentIndex := some s.index
  depth := s.depth + 1
  chain := c.target

/-- Behind that many calls and regions. -/
def Scope.skip (s : Scope) (calls regions : ℕ) : Scope :=
  { s with index := s.index + calls, regionIndex := s.regionIndex + regions }

def Scope.request (s : Scope) (c : CallFields) : CallRequest where
  index := s.index
  parentIndex := s.parentIndex
  depth := s.depth
  mode := c.mode
  fromChain := s.chain
  toChain := c.target
  fromAddress := "0x" ++ hex c.fromAddress
  toAddress := "0x" ++ hex c.toAddress
  value := toString c.value
  gas := c.gas
  dataBytes := c.data.length
  dataPreview := preview c.data

def Scope.snapshot (s : Scope) : Snapshot where
  contextDepth := s.depth + 1
  callDepth := s.depth
  firstCallIndex := s.index

def Scope.region (s : Scope) (body : Body) : RollbackRegion where
  index := s.regionIndex + body.regionCount
  firstCallIndex := s.index
  lastCallIndex := s.index + body.size - 1
  callCount := body.size
  contextDepth := s.depth + 1

/-- The calls of a body in the order in which they are made, each with the result its own return
gives it. -/
def Body.calls : Scope → Body → List SemanticCall
  | _, .nil => []
  | s, .node .call c body r rest =>
    { (s.request c).opened with result := some r.result } ::
      (Body.calls (s.within c) body ++
        Body.calls (s.skip (Body.size body + 1) (Body.regionCount body)) rest)
  | s, .node .region _ body _ rest =>
    rollBackCalls (s.regionIndex + Body.regionCount body) (Body.calls s body) ++
      Body.calls (s.skip (Body.size body) (Body.regionCount body + 1)) rest

/-- The regions in the order in which they are reverted. -/
def Body.regions : Scope → Body → List RollbackRegion
  | _, .nil => []
  | s, .node .call c body _ rest =>
    Body.regions (s.within c) body ++
      Body.regions (s.skip (Body.size body + 1) (Body.regionCount body)) rest
  | s, .node .region _ body _ rest =>
    Body.regions s body ++ s.region body ::
      Body.regions (s.skip (Body.size body) (Body.regionCount body + 1)) rest

/-- The messages as they are listed. -/
def Body.log : Scope → Body → List SemanticMessage
  | _, .nil => []
  | s, .node .call c body r rest =>
    .call (s.request c) :: (Body.log (s.within c) body ++ .ret r.result s.index ::
      Body.log (s.skip (Body.size body + 1) (Body.regionCount body)) rest)
  | s, .node .region _ body _ rest =>
    .snapshot s.snapshot :: (Body.log s body ++ .revert (s.region body) ::
      Body.log (s.skip (Body.size body) (Body.regionCount body + 1)) rest)

/-- The names of the messages. -/
def Body.types : Body → List MessageType
  | .nil => []
  | .node .call c body r rest =>
    c.mode.messageType :: (Body.types body ++ r.outcome.messageType :: Body.types rest)
  | .node .region _ body _ rest => .snapshot :: (Body.types body ++ .revert :: Body.types rest)

/-- The greatest number of calls that are open at once, below `depth` open ones. -/
def Body.deepest : ℕ → Body → ℕ
  | _, .nil => 0
  | depth, .node .call _ body _ rest =>
    max (max (depth + 1) (Body.deepest (depth + 1) body)) (Body.deepest depth rest)
  | depth, .node .region _ body _ rest => max (Body.deepest depth body) (Body.deepest depth rest)

@[simp] theorem length_rollBackCalls (region : ℕ) (calls : List SemanticCall) :
    (rollBackCalls region calls).length = calls.length := by
  simp [rollBackCalls]

@[simp] theorem Body.length_calls (f : Body) (s : Scope) : (Body.calls s f).length = f.size := by
  induction f generalizing s with
  | nil => rfl
  | node k a body b rest ihb ihr =>
    cases k with
    | call =>
      simp only [Body.calls, Body.size, List.length_cons, List.length_append, ihb, ihr]
      omega
    | region => simp only [Body.calls, Body.size, List.length_append, length_rollBackCalls, ihb, ihr]

@[simp] theorem Body.length_regions (f : Body) (s : Scope) :
    (Body.regions s f).length = f.regionCount := by
  induction f generalizing s with
  | nil => rfl
  | node k a body b rest ihb ihr =>
    cases k with
    | call => simp only [Body.regions, Body.regionCount, List.length_append, ihb, ihr]
    | region =>
      simp only [Body.regions, Body.regionCount, List.length_append, List.length_cons, ihb, ihr]
      omega

/-! ## The state after a body -/

/-- Where the next message stands. -/
def State.scope (st : State) (t : SemanticTransaction) : Scope where
  index := t.calls.length
  regionIndex := t.rollbackRegions.length
  parentIndex := st.openCalls.head?
  depth := st.openCalls.length
  chain := st.contexts.headD 0

@[simp] theorem scope_index (st : State) (t : SemanticTransaction) :
    (st.scope t).index = t.calls.length := rfl

@[simp] theorem scope_depth (st : State) (t : SemanticTransaction) :
    (st.scope t).depth = st.openCalls.length := rfl

@[simp] theorem within_depth (s : Scope) (c : CallFields) : (s.within c).depth = s.depth + 1 := rfl

@[simp] theorem request_index (s : Scope) (c : CallFields) : (s.request c).index = s.index := rfl

@[simp] theorem snapshot_firstCallIndex (s : Scope) : s.snapshot.firstCallIndex = s.index := rfl

@[simp] theorem region_index (s : Scope) (body : Body) :
    (s.region body).index = s.regionIndex + body.regionCount := rfl

def SemanticTransaction.extend (t : SemanticTransaction) (s : Scope) (f : Body) :
    SemanticTransaction :=
  { t with
    calls := t.calls ++ Body.calls s f
    messages := t.messages ++ Body.log s f
    snapshotCount := t.snapshotCount + f.regionCount
    rollbackRegions := t.rollbackRegions ++ Body.regions s f
    maxCallDepth := max t.maxCallDepth (Body.deepest s.depth f) }

/-- The state behind a body. -/
def State.extend (st : State) (t : SemanticTransaction) (f : Body) : State :=
  { st with
    current := some (t.extend (st.scope t) f)
    messages := st.messages ++ f.types
    semanticMessages := st.semanticMessages ++ Body.log (st.scope t) f }

theorem extend_nil {st : State} {t : SemanticTransaction} (hcur : st.current = some t) :
    st.extend t .nil = st := by
  cases st
  cases t
  simp_all [State.extend, SemanticTransaction.extend, Body.calls, Body.log, Body.regions,
    Body.types, Body.deepest, Body.regionCount]

theorem State.Tracks.extend {st : State} {stack : List Kind} (h : st.Tracks stack)
    (t : SemanticTransaction) (f : Body) : (st.extend t f).Tracks stack :=
  ⟨h.openCalls, h.contexts, h.callDepths, h.contextDepths⟩

/-- A body is its first node and then the rest. -/
theorem extend_node (st : State) (t : SemanticTransaction) (k : Kind) (a : Opening k) (body : Body)
    (b : Closing k) (rest : Body) :
    st.extend t (.node k a body b rest) = (st.extend t (.node k a body b .nil)).extend
      (t.extend (st.scope t) (.node k a body b .nil)) rest := by
  have hscope : (st.extend t (.node k a body b .nil)).scope
      (t.extend (st.scope t) (.node k a body b .nil)) =
      (st.scope t).skip (Body.size (.node k a body b .nil))
        (Body.regionCount (.node k a body b .nil)) := by
    simp [State.scope, SemanticTransaction.extend, Scope.skip, State.extend]
  rw [State.extend, State.extend, SemanticTransaction.extend, SemanticTransaction.extend, hscope]
  cases k <;> simp [State.extend, SemanticTransaction.extend, Body.calls, Body.log,
    Body.regions, Body.types, Body.deepest, Body.regionCount, Body.size, State.scope, Scope.skip,
    Nat.add_assoc, max_assoc]

/-- The transaction behind a call message, and behind a snapshot. -/
def SemanticTransaction.withCall (t : SemanticTransaction) (st : State) (c : CallFields) :
    SemanticTransaction :=
  { t with
    calls := t.calls ++ [((st.scope t).request c).opened]
    messages := t.messages ++ [.call ((st.scope t).request c)]
    maxCallDepth := max t.maxCallDepth (st.openCalls.length + 1) }

def SemanticTransaction.withSnapshot (t : SemanticTransaction) (st : State) :
    SemanticTransaction :=
  { t with
    messages := t.messages ++ [.snapshot (st.snapshotHere t)]
    snapshotCount := t.snapshotCount + 1 }

theorem current_call (st : State) (t : SemanticTransaction) (c : CallFields) :
    (st.call t c).current = some (t.withCall st c) := rfl

theorem current_snapshot (st : State) (t : SemanticTransaction) :
    (st.snapshot t).current = some (t.withSnapshot st) := rfl

theorem scope_call (st : State) (t : SemanticTransaction) (c : CallFields) :
    (st.call t c).scope (t.withCall st c) = (st.scope t).within c := by
  simp [State.scope, Scope.within, SemanticTransaction.withCall, State.call, State.record,
    State.request]

theorem scope_snapshot (st : State) (t : SemanticTransaction) :
    (st.snapshot t).scope (t.withSnapshot st) = st.scope t := rfl

/-- The result goes to the call that was opened in front of the body. -/
theorem modify_opened (calls body : List SemanticCall) (call : SemanticCall)
    (f : SemanticCall → SemanticCall) :
    (calls ++ call :: body).modify calls.length f = calls ++ f call :: body := by
  induction calls with
  | nil => rfl
  | cons first calls ih => exact congrArg (first :: ·) ih

theorem request_eq (st : State) (t : SemanticTransaction) (c : CallFields) :
    st.request t c = (st.scope t).request c := rfl

/-- A call, its body and its return are one node. -/
theorem call_extend_ret (st : State) (t : SemanticTransaction) (c : CallFields) (body : Body)
    (r : ReturnFields) :
    ((st.call t c).extend (t.withCall st c) body).ret
      ((t.withCall st c).extend ((st.scope t).within c) body) r =
        st.extend t (.node .call c body r .nil) := by
  rw [State.extend, scope_call, State.extend, State.ret, SemanticTransaction.extend]
  simp only [State.call, State.record, request_eq, SemanticTransaction.withCall]
  simp [SemanticTransaction.extend, Body.calls, Body.log, Body.regions, Body.types, Body.deepest,
    Body.regionCount, modify_opened, max_assoc]

/-- What is found at a revert to a snapshot, when a body stands between them. -/
theorem region_eq {st st' : State} {t t' : SemanticTransaction} {body : Body}
    (hctx : st'.contexts.length = (st.scope t).depth + 1)
    (ht : t'.calls.length = t.calls.length + body.size)
    (hr : t'.rollbackRegions.length = t.rollbackRegions.length + body.regionCount) :
    st'.region t' (st.snapshotHere t) = (st.scope t).region body := by
  simp [State.region, Scope.region, hctx, ht, hr, State.snapshotHere, State.scope]

/-- A snapshot, what follows it and the revert to it are one node. -/
theorem snapshot_extend_revert (st : State) (t : SemanticTransaction)
    (hctx : st.contexts.length = st.openCalls.length + 1) (body : Body) :
    ((st.snapshot t).extend (t.withSnapshot st) body).revert
      ((t.withSnapshot st).extend (st.scope t) body) (st.snapshotHere t) =
        st.extend t (.node .region () body () .nil) := by
  have hregion : ((st.snapshot t).extend (t.withSnapshot st) body).region
      ((t.withSnapshot st).extend (st.scope t) body) (st.snapshotHere t) =
        (st.scope t).region body :=
    region_eq hctx (by simp [SemanticTransaction.extend, SemanticTransaction.withSnapshot])
      (by simp [SemanticTransaction.extend, SemanticTransaction.withSnapshot])
  have hsnapshot : st.snapshotHere t = (st.scope t).snapshot := by
    rw [State.snapshotHere, hctx]
    rfl
  rw [State.revert, hregion, State.extend, scope_snapshot, State.extend,
    SemanticTransaction.extend, hsnapshot]
  simp only [State.snapshot, State.record, SemanticTransaction.withSnapshot, hsnapshot]
  simp [SemanticTransaction.extend, Body.calls, Body.log, Body.regions, Body.types, Body.deepest,
    Body.regionCount, Nat.add_assoc, Nat.add_comm 1]

/-! ## The loop over a body -/

section Steps

variable {st st' : State} {t : SemanticTransaction} {stack : List Kind}

theorem step_call_iff {c : CallFields} (hcur : st.current = some t) (h : st.Tracks stack) :
    Step st (.call c) st' ↔ (c.gas = 0 ∧ st.openCalls.length < 63) ∧ st' = st.call t c := by
  have hlen : st.contexts.length = st.openCalls.length + 1 := by rw [h.contexts, h.openCalls]
  constructor
  · intro hstep
    cases hstep with
    | call hcur' hctx hdepth hgas =>
      obtain rfl := Option.some_inj.mp (hcur.symm.trans hcur')
      exact ⟨⟨hgas, by omega⟩, rfl⟩
  · rintro ⟨⟨hgas, hdepth⟩, rfl⟩
    refine .call hcur ?_ (by omega) hgas
    rw [← List.length_pos_iff]
    omega

theorem step_ret_iff {r : ReturnFields} (hcur : st.current = some t)
    (h : st.Tracks (.call :: stack)) : Step st (.ret r) st' ↔ st' = st.ret t r := by
  have hopen := h.openCalls
  have hctx := h.contexts
  rw [List.count_cons_self] at hopen hctx
  constructor
  · intro hstep
    cases hstep with
    | ret hcur' =>
      obtain rfl := Option.some_inj.mp (hcur.symm.trans hcur')
      rfl
  · rintro rfl
    refine .ret hcur ?_ (by omega) ?_
    · rw [← List.length_pos_iff]
      omega
    · intro s hs
      have hmem := List.mem_of_mem_head? hs
      -- the snapshots below a call are those below it on the stack
      have hle : s.callDepth ≤ stack.count .call :=
        snapshotDepths_le (h.callDepths ▸ List.mem_map_of_mem hmem)
      rw [h.contextDepths s hmem]
      omega

theorem step_snapshot_iff (hcur : st.current = some t) :
    Step st .snapshot st' ↔ st.snapshots.length < 64 ∧ st' = st.snapshot t := by
  constructor
  · intro hstep
    cases hstep with
    | snapshot hcur' hdepth =>
      obtain rfl := Option.some_inj.mp (hcur.symm.trans hcur')
      exact ⟨hdepth, rfl⟩
  · rintro ⟨hdepth, rfl⟩
    exact .snapshot hcur hdepth

theorem step_revert_iff {s : Snapshot} {below : List Snapshot} (hcur : st.current = some t)
    (hsnap : st.snapshots = s :: below) (hctx : s.contextDepth = st.contexts.length)
    (hopen : s.callDepth = st.openCalls.length) :
    Step st .revert st' ↔ (s.firstCallIndex < t.calls.length ∧
      ∀ call ∈ t.calls.drop s.firstCallIndex, call.rollbackRegion = none) ∧
        st' = st.revert t s := by
  constructor
  · intro hstep
    cases hstep with
    | revert hcur' hsnap' _ _ hpos hfree =>
      obtain rfl := Option.some_inj.mp (hcur.symm.trans hcur')
      obtain ⟨rfl, -⟩ := List.cons.inj (hsnap.symm.trans hsnap')
      exact ⟨⟨hpos, hfree⟩, rfl⟩
  · rintro ⟨⟨hpos, hfree⟩, rfl⟩
    exact .revert hcur hsnap hctx hopen hpos hfree

theorem forall_rollBackCalls {P : SemanticCall → Prop} {region : ℕ} {calls : List SemanticCall}
    (h : ∀ call ∈ calls, P (call.rollBack region) ∧
      P { call.rollBack region with rollbackSpan := some calls.length }) :
    ∀ call ∈ rollBackCalls region calls, P call := by
  intro call hmem
  cases calls with
  | nil => simp [rollBackCalls] at hmem
  | cons first rest =>
    rw [rollBackCalls, List.map_cons, List.modifyHead_cons, List.mem_cons, List.mem_map] at hmem
    rcases hmem with rfl | ⟨call, hcall, rfl⟩
    · exact (h first (List.mem_cons_self ..)).2
    · exact (h call (List.mem_cons_of_mem _ hcall)).1

theorem mem_rollBackCalls_region {region : ℕ} {calls : List SemanticCall} {call : SemanticCall}
    (h : call ∈ rollBackCalls region calls) : call.rollbackRegion = some region :=
  forall_rollBackCalls (P := fun call ↦ call.rollbackRegion = some region)
    (fun _ _ ↦ ⟨rfl, rfl⟩) call h

/-- In a body whose regions all hold calls, no call is rolled back exactly when there is no
region. -/
theorem Body.forall_rollbackRegion_iff {f : Body} {depth : ℕ} (hf : f.Fits depth) (s : Scope) :
    (∀ call ∈ Body.calls s f, call.rollbackRegion = none) ↔ f.regionCount = 0 := by
  induction f generalizing depth s with
  | nil => simp [Body.calls, Body.regionCount]
  | node k a body b rest ihb ihr =>
    cases k with
    | call =>
      obtain ⟨-, hbody, hrest⟩ := hf
      rw [Body.calls, List.forall_mem_cons, List.forall_mem_append, ihb hbody, ihr hrest,
        Body.regionCount, Nat.add_eq_zero_iff]
      simp [CallRequest.opened]
    | region =>
      obtain ⟨⟨hpos, -⟩, -, -⟩ := hf
      rw [Body.calls, List.forall_mem_append, Body.regionCount]
      constructor
      · rintro ⟨hnone, -⟩
        have hne : rollBackCalls (s.regionIndex + Body.regionCount body) (Body.calls s body) ≠ [] := by
          rw [← List.length_pos_iff, length_rollBackCalls, Body.length_calls]
          exact hpos
        obtain ⟨call, hcall⟩ := List.exists_mem_of_ne_nil _ hne
        have hsome := mem_rollBackCalls_region hcall
        rw [hnone call hcall] at hsome
        cases hsome
      · omega

/-- A call that is made is tracked, -/
theorem State.Tracks.call (h : st.Tracks stack) (t : SemanticTransaction) (c : CallFields) :
    (st.call t c).Tracks (.call :: stack) := by
  refine ⟨?_, ?_, h.callDepths, h.contextDepths⟩
  · rw [List.count_cons_self, ← h.openCalls]
    rfl
  · rw [List.count_cons_self, ← h.contexts]
    rfl

/-- and so is a snapshot that is taken. -/
theorem State.Tracks.snapshot (h : st.Tracks stack) (t : SemanticTransaction) :
    (st.snapshot t).Tracks (.region :: stack) := by
  have hlen : st.contexts.length = st.openCalls.length + 1 := by rw [h.contexts, h.openCalls]
  refine ⟨?_, ?_, ?_, ?_⟩
  · rw [List.count_cons_of_ne (by decide)]
    exact h.openCalls
  · rw [List.count_cons_of_ne (by decide)]
    exact h.contexts
  · rw [snapshotDepths, ← h.callDepths, ← h.openCalls]
    rfl
  · exact List.forall_mem_cons.mpr ⟨hlen, h.contextDepths⟩

/-- **The loop gets through the brackets of a body exactly when the body fits**, and then it has
recorded what the forest says. -/
theorem steps_word {f : Body} (hcur : st.current = some t) (h : st.Tracks stack) :
    Steps st (f.word.map .bracket) st' ↔ (f.Fits st.openCalls.length ∧
      (f.regionCount = 0 ∨ st.snapshots.length < 64)) ∧ st' = st.extend t f := by
  induction f generalizing st t st' stack with
  | nil =>
    rw [Forest.word, List.map_nil, steps_nil_iff, extend_nil hcur]
    simp [Body.Fits, Body.regionCount]
  | node k a body b rest ihb ihr =>
    rw [Forest.word, List.map_cons, List.map_append, List.map_cons, extend_node]
    simp only [steps_cons_iff, steps_append_iff]
    have hrest := h.extend t (.node k a body b .nil)
    cases k with
    | call =>
      have hcall := h.call t a
      have hbody {x : State} : Steps (st.call t a) _ x ↔ _ := ihb (current_call st t a) hcall
      have hret {x : State} : Step ((st.call t a).extend (t.withCall st a) body) (.ret b) x ↔ _ :=
        step_ret_iff (t := (t.withCall st a).extend ((st.scope t).within a) body)
          (by rw [State.extend, scope_call]) (hcall.extend _ body)
      have hrest' {x : State} : Steps (st.extend t (.node .call a body b .nil)) _ x ↔ _ :=
        ihr (t := t.extend (st.scope t) (.node .call a body b .nil)) rfl hrest
      constructor
      · rintro ⟨st₁, h₁, st₂, h₂, st₃, h₃, h₄⟩
        obtain ⟨⟨hgas, hdepth⟩, rfl⟩ := (step_call_iff hcur h).mp h₁
        obtain ⟨⟨hfit, hroom⟩, rfl⟩ := hbody.mp h₂
        obtain rfl := hret.mp h₃
        rw [call_extend_ret] at h₄
        obtain ⟨⟨hfit', hroom'⟩, rfl⟩ := hrest'.mp h₄
        refine ⟨⟨⟨⟨hgas, hdepth⟩, hfit, hfit'⟩, ?_⟩, rfl⟩
        rw [Body.regionCount, Nat.add_eq_zero_iff]
        rcases hroom with h0 | hlt
        · rcases hroom' with h0' | hlt'
          · exact Or.inl ⟨h0, h0'⟩
          · exact Or.inr hlt'
        · exact Or.inr hlt
      · rintro ⟨⟨⟨⟨hgas, hdepth⟩, hfit, hfit'⟩, hroom⟩, rfl⟩
        rw [Body.regionCount, Nat.add_eq_zero_iff] at hroom
        refine ⟨_, (step_call_iff hcur h).mpr ⟨⟨hgas, hdepth⟩, rfl⟩, _,
          hbody.mpr ⟨⟨hfit, hroom.imp_left And.left⟩, rfl⟩, _, hret.mpr rfl, ?_⟩
        rw [call_extend_ret]
        exact hrest'.mpr ⟨⟨hfit', hroom.imp_left And.right⟩, rfl⟩
    | region =>
      have hlen : st.contexts.length = st.openCalls.length + 1 := by rw [h.contexts, h.openCalls]
      have hbody {x : State} : Steps (st.snapshot t) _ x ↔ _ := ihb (current_snapshot st t) (h.snapshot t)
      have hsnapshots : ((st.snapshot t).extend (t.withSnapshot st) body).snapshots =
          st.snapshotHere t :: st.snapshots := rfl
      have hrevert {x : State} : Step ((st.snapshot t).extend (t.withSnapshot st) body) .revert x ↔ _ :=
        step_revert_iff (t := (t.withSnapshot st).extend (st.scope t) body) rfl hsnapshots rfl rfl
      have hcalls : ((t.withSnapshot st).extend (st.scope t) body).calls =
          t.calls ++ Body.calls (st.scope t) body := rfl
      have hrest' {x : State} : Steps (st.extend t (.node .region a body b .nil)) _ x ↔ _ :=
        ihr (t := t.extend (st.scope t) (.node .region a body b .nil)) rfl hrest
      have hfirst : (st.snapshotHere t).firstCallIndex = t.calls.length := rfl
      simp only [hcalls, hfirst, List.drop_left, List.length_append, Body.length_calls,
        Nat.lt_add_right_iff_pos] at hrevert
      constructor
      · rintro ⟨st₁, h₁, st₂, h₂, st₃, h₃, h₄⟩
        obtain ⟨hroom, rfl⟩ := (step_snapshot_iff hcur).mp h₁
        obtain ⟨⟨hfit, -⟩, rfl⟩ := hbody.mp h₂
        obtain ⟨⟨hpos, hfree⟩, rfl⟩ := hrevert.mp h₃
        rw [snapshot_extend_revert st t hlen] at h₄
        obtain ⟨⟨hfit', -⟩, rfl⟩ := hrest'.mp h₄
        exact ⟨⟨⟨⟨hpos, (Body.forall_rollbackRegion_iff hfit _).mp hfree⟩, hfit, hfit'⟩,
          Or.inr hroom⟩, rfl⟩
      · rintro ⟨⟨⟨⟨hpos, hflat⟩, hfit, hfit'⟩, hroom⟩, rfl⟩
        have hroom : st.snapshots.length < 64 := by
          rw [Body.regionCount] at hroom
          omega
        refine ⟨_, (step_snapshot_iff hcur).mpr ⟨hroom, rfl⟩, _,
          hbody.mpr ⟨⟨hfit, Or.inl hflat⟩, rfl⟩, _,
          hrevert.mpr ⟨⟨hpos, (Body.forall_rollbackRegion_iff hfit _).mpr hflat⟩, rfl⟩, ?_⟩
        rw [snapshot_extend_revert st t hlen]
        exact hrest'.mpr ⟨⟨hfit', Or.inr hroom⟩, rfl⟩

end Steps

/-! ## The loop over transactions -/

/-- A transaction as it was sent. -/
structure NativeTransaction where
  origin : ℕ
  txData : Bytes
  body : Body

namespace NativeTransaction

/-- `Initiate`, the brackets of the body, `Finish`. -/
def messages (tx : NativeTransaction) : List Message :=
  .initiate tx.origin tx.txData :: (tx.body.word.map .bracket ++ [.finish])

/-- What the format asks of a transaction: its body fits, and there is a call in it. -/
structure Fits (tx : NativeTransaction) : Prop where
  body : tx.body.Fits 0
  calls : 0 < tx.body.size

/-- The place of the body. -/
def scope (tx : NativeTransaction) : Scope := ⟨0, 0, none, 0, tx.origin⟩

def initiated (tx : NativeTransaction) : SemanticMessage :=
  .initiate tx.origin tx.txData.length (preview tx.txData)

/-- All that is recorded of a transaction. -/
def record (tx : NativeTransaction) : FinishedTransaction :=
  SemanticTransaction.finish {
    originChain := tx.origin
    txDataBytes := tx.txData.length
    txDataPreview := preview tx.txData
    calls := Body.calls tx.scope tx.body
    messages := tx.initiated :: Body.log tx.scope tx.body
    snapshotCount := tx.body.regionCount
    rollbackRegions := Body.regions tx.scope tx.body
    maxCallDepth := Body.deepest 0 tx.body }

def types (tx : NativeTransaction) : List MessageType :=
  .initiate :: (tx.body.types ++ [.finish])

end NativeTransaction

/-- The state behind these transactions. -/
def State.after (st : State) (txs : List NativeTransaction) : State :=
  { st with
    messages := st.messages ++ txs.flatMap NativeTransaction.types
    semanticMessages := st.semanticMessages ++ txs.flatMap fun tx ↦ tx.record.messages
    semanticTransactions := st.semanticTransactions ++ txs.map NativeTransaction.record }

section Transactions

variable {st st' : State}

theorem State.Idle.after (h : st.Idle) (txs : List NativeTransaction) : (st.after txs).Idle :=
  ⟨h.current, h.contexts, h.openCalls, h.snapshots⟩

theorem after_nil (st : State) : st.after [] = st := by
  simp [State.after]

theorem after_cons (st : State) (tx : NativeTransaction) (txs : List NativeTransaction) :
    st.after (tx :: txs) = (st.after [tx]).after txs := by
  simp [State.after]

theorem step_finish_iff {t : SemanticTransaction} (hcur : st.current = some t)
    (h : st.Tracks []) : Step st .finish st' ↔ t.calls ≠ [] ∧ st' = st.finish t := by
  have hdepths := h.callDepths
  constructor
  · intro hstep
    cases hstep with
    | finish hcur' _ _ _ hcalls =>
      obtain rfl := Option.some_inj.mp (hcur.symm.trans hcur')
      exact ⟨hcalls, rfl⟩
  · rintro ⟨hcalls, rfl⟩
    exact .finish hcur h.contexts (List.length_eq_zero_iff.mp h.openCalls)
      (List.map_eq_nil_iff.mp hdepths) hcalls

/-- Nothing is open in a transaction that has just been initiated. -/
theorem State.Idle.initiate (h : st.Idle) (origin : ℕ) (txData : Bytes) :
    (st.initiate origin txData).Tracks [] := by
  refine ⟨?_, ?_, ?_, ?_⟩
  · rw [State.initiate, State.record, h.openCalls]
    rfl
  · rw [State.initiate, State.record, h.contexts]
    rfl
  · rw [State.initiate, State.record, h.snapshots]
    rfl
  · simp [State.initiate, State.record, h.snapshots]

theorem step_initiate_iff {origin : ℕ} {txData : Bytes} (h : st.Idle) :
    Step st (.initiate origin txData) st' ↔ st' = st.initiate origin txData := by
  constructor
  · rintro ⟨⟩
    rfl
  · rintro rfl
    exact .initiate h.current h.contexts

/-- The state behind `Initiate`, a body and `Finish`. -/
theorem initiate_extend_finish (h : st.Idle) (tx : NativeTransaction) {t : SemanticTransaction}
    (ht : (st.initiate tx.origin tx.txData).current = some t) :
    ((st.initiate tx.origin tx.txData).extend t tx.body).finish
      (t.extend tx.scope tx.body) = st.after [tx] := by
  obtain rfl := Option.some_inj.mp ht
  cases st
  obtain ⟨rfl, rfl, rfl, rfl⟩ := h
  simp [State.after, State.finish, State.extend, State.initiate, State.record,
    SemanticTransaction.extend, SemanticTransaction.finish, NativeTransaction.record,
    NativeTransaction.types, NativeTransaction.initiated, NativeTransaction.scope, State.scope]

/-- **The loop over one transaction.** -/
theorem steps_transaction {tx : NativeTransaction} (h : st.Idle) :
    Steps st tx.messages st' ↔ tx.Fits ∧ st' = st.after [tx] := by
  obtain ⟨t, ht⟩ : ∃ t, (st.initiate tx.origin tx.txData).current = some t := ⟨_, rfl⟩
  have htracks := h.initiate tx.origin tx.txData
  have hscope : (st.initiate tx.origin tx.txData).scope t = tx.scope := by
    obtain rfl := Option.some_inj.mp ht
    simp [State.scope, State.initiate, State.record, NativeTransaction.scope, h.openCalls]
  have hbody {x : State} : Steps _ _ x ↔ _ := steps_word (f := tx.body) ht htracks
  have hfinish {x : State} : Step ((st.initiate tx.origin tx.txData).extend t tx.body) .finish x ↔ _ :=
    step_finish_iff (t := t.extend tx.scope tx.body) (by rw [State.extend, hscope]) (htracks.extend t tx.body)
  have hcalls : (t.extend tx.scope tx.body).calls ≠ [] ↔ 0 < tx.body.size := by
    have hnil : t.calls = [] := by
      obtain rfl := Option.some_inj.mp ht
      rfl
    have hext : (t.extend tx.scope tx.body).calls = t.calls ++ Body.calls tx.scope tx.body := rfl
    rw [← List.length_pos_iff, hext, hnil, List.nil_append, Body.length_calls]
  have hopen : (st.initiate tx.origin tx.txData).openCalls.length = 0 := htracks.openCalls
  have hsnap : (st.initiate tx.origin tx.txData).snapshots.length = 0 := by
    rw [State.initiate, State.record, h.snapshots]
    rfl
  rw [hopen, hsnap] at hbody
  simp only [hcalls] at hfinish
  rw [NativeTransaction.messages]
  simp only [steps_cons_iff, steps_append_iff, steps_nil_iff, step_initiate_iff h]
  constructor
  · rintro ⟨_, rfl, st₂, h₂, st₃, h₃, rfl⟩
    obtain ⟨⟨hfit, -⟩, rfl⟩ := hbody.mp h₂
    obtain ⟨hpos, rfl⟩ := hfinish.mp h₃
    exact ⟨⟨hfit, hpos⟩, initiate_extend_finish h tx ht⟩
  · rintro ⟨⟨hfit, hpos⟩, rfl⟩
    exact ⟨_, rfl, _, hbody.mpr ⟨⟨hfit, Or.inr (by omega)⟩, rfl⟩, _, hfinish.mpr ⟨hpos, rfl⟩,
      (initiate_extend_finish h tx ht).symm⟩

/-- The messages of a transaction that is finished are brackets up to its `Finish`. -/
theorem exists_finish {ms : List Message} (hsteps : Steps st ms st') (hcur : st.current ≠ none)
    (hcur' : st'.current = none) : ∃ (w : List (Bracket Opening Closing)) (rest : List Message),
      ms = w.map .bracket ++ .finish :: rest := by
  induction hsteps with
  | nil => exact absurd hcur' hcur
  | @cons st st₁ st' m ms hstep _ ih =>
    rcases m with ⟨origin, txData⟩ | b | _
    · cases hstep with
      | initiate hnone => exact absurd hnone hcur
    · obtain ⟨w, rest, rfl⟩ := ih (by cases hstep <;> simp [State.call, State.ret, State.snapshot,
        State.revert, State.record]) hcur'
      exact ⟨b :: w, rest, rfl⟩
    · exact ⟨[], ms, rfl⟩

/-- **The loop over whole transactions.** -/
theorem steps_idle {ms : List Message} (h : st.Idle) :
    Steps st ms st' ∧ st'.Idle ↔ ∃ txs : List NativeTransaction, (∀ tx ∈ txs, tx.Fits) ∧
      ms = txs.flatMap NativeTransaction.messages ∧ st' = st.after txs := by
  constructor
  · rintro ⟨hsteps, hidle⟩
    induction hn : ms.length using Nat.strong_induction_on generalizing st ms with
    | _ n ih =>
      cases ms with
      | nil =>
        obtain rfl := steps_nil_iff.mp hsteps
        exact ⟨[], by simp, rfl, (after_nil _).symm⟩
      | cons m ms =>
        obtain ⟨st₁, hstep, hrest⟩ := steps_cons_iff.mp hsteps
        -- outside of a transaction, only a new one can start
        cases hstep with
        | @initiate origin txData hcur hctx =>
          obtain ⟨w, rest, rfl⟩ := exists_finish hrest (by simp [State.initiate, State.record])
            hidle.current
          obtain ⟨st₂, hw, hrest⟩ := steps_append_iff.mp hrest
          obtain ⟨st₃, hfinish, hrest⟩ := steps_cons_iff.mp hrest
          obtain ⟨stack, htrack, htracks⟩ := hw.tracks (h.initiate origin txData)
          have hstack : stack = [] := by
            cases hfinish with
            | finish _ hctx' _ hsnap => exact htracks.eq_nil hctx' hsnap
          obtain ⟨f, rfl⟩ := trackAll_eq_some_nil.mp (hstack ▸ htrack)
          have htx : Steps st (NativeTransaction.messages ⟨origin, txData, f⟩) st₃ :=
            .cons (.initiate hcur hctx) (steps_append_iff.mpr ⟨st₂, hw, .cons hfinish .nil⟩)
          obtain ⟨hfits, rfl⟩ := (steps_transaction h).mp htx
          obtain ⟨txs, hall, rfl, rfl⟩ := ih rest.length (by
            rw [← hn, List.length_cons, List.length_append, List.length_cons]
            omega) (h.after _) hrest rfl
          refine ⟨⟨origin, txData, f⟩ :: txs, List.forall_mem_cons.mpr ⟨hfits, hall⟩, ?_,
            (after_cons ..).symm⟩
          simp [NativeTransaction.messages]
        | call hcur => rw [h.current] at hcur; cases hcur
        | ret hcur => rw [h.current] at hcur; cases hcur
        | snapshot hcur => rw [h.current] at hcur; cases hcur
        | revert hcur => rw [h.current] at hcur; cases hcur
        | finish hcur => rw [h.current] at hcur; cases hcur
  · rintro ⟨txs, hall, rfl, rfl⟩
    refine ⟨?_, h.after txs⟩
    induction txs generalizing st with
    | nil =>
      rw [after_nil]
      exact .nil
    | cons tx txs ih =>
      rw [List.forall_mem_cons] at hall
      rw [List.flatMap_cons, after_cons, steps_append_iff]
      exact ⟨_, (steps_transaction h).mpr ⟨hall.1, rfl⟩, ih (h.after [tx]) hall.2⟩

end Transactions

end BlobDecoder
