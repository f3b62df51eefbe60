import EezDashboard.Trace.Frames

/-!
# The immediate entries of a posting

A transaction that posts a batch runs the leading immediate entries of the batch one by one, each in a call of the
manager to itself, an `Attempt`, which may fail.  `collect` walks the trace of the transaction and gathers the attempts
of every batch; `attemptsIn` reads them off the tree alone.  Where a single batch has attempts the two agree.
-/

set_option autoImplicit false

namespace TransactionLinks

open TraceDecoder (Hex RawCall FrameId same)

/-- An entry of a batch: what is read of it, and the rest. -/
structure Entry where
  proxyEntryHash : Hex
  l2ToL1Calls : List Hex
  destinationRollupId : ℕ
  rest : Hex
  deriving DecidableEq, Repr

structure Batch where
  entries : List Entry
  immediateEntryCount : ℕ
  deriving DecidableEq, Repr

/-- What calldata asks of the manager on L1. -/
inductive L1Call
  | postAndVerifyBatch (batch : Batch)
  /-- `_attemptExecuteImmediateL2Txs` -/
  | attempt (entry : Entry)
  | other
  deriving DecidableEq, Repr

/-- A frame that runs an immediate entry. -/
structure Attempt where
  entry : Entry
  failed : Bool
  frameId : FrameId
  deriving DecidableEq, Repr

/-- A batch that is posted, with its attempts. -/
structure Posted where
  value : Batch
  attempts : List Attempt
  failed : Bool
  deriving DecidableEq, Repr

/-- `batch.attempts.push(attempt)` -/
def Posted.attempt (attempt : Attempt) (b : Posted) : Posted := { b with attempts := b.attempts ++ [attempt] }

/-- The manager on L1, and how its calldata is parsed. -/
structure Manager where
  address : Hex
  parseCall : Hex → Option L1Call

/-- What a call passes on to the calls it makes: the account in whose storage it runs, the batch it belongs to, and
whether what it does is undone. -/
structure Context (B : Type) where
  address : Option Hex
  batch : Option B
  reverted : Bool
  parentInput : Option Hex

section Walk

variable (manager : Manager) (postHash : Hex)

/-- `parsed` -/
def Manager.parsed (address : Option Hex) (input : Hex) : Option L1Call :=
  if same address (some manager.address) then manager.parseCall input else none

/-- The batch that a call posts.  A proxy that passes its call on does not post it again. -/
def postedBy (passedOn : Bool) : Option L1Call → Option Batch
  | some (.postAndVerifyBatch value) => if passedOn then none else some value
  | _ => none

/-- The entry that a call runs. -/
def attemptedBy (delegate : Bool) : Option L1Call → Option Entry
  | some (.attempt entry) => if delegate then none else some entry
  | _ => none

mutual

/-- `walk`: the batches found so far are named by their index. -/
def collect (context : Context ℕ) (path : List ℕ) : RawCall → List Posted → List Posted
  | .mk type _ target input _ _ error calls, batches =>
    let address := if type.delegate then context.address else target
    let failed := context.reverted || error.any (· ≠ "")
    let parsed := manager.parsed address input
    let posted := postedBy (type.delegate && context.parentInput == some input) parsed
    let batch := if posted.isSome then some batches.length else context.batch
    let batches := batches ++ posted.toList.map fun value ↦ Posted.mk value [] failed
    let batches :=
      match batch, attemptedBy type.delegate parsed with
      | some k, some entry => batches.modify k (Posted.attempt ⟨entry, failed, ⟨.l1, postHash, path⟩⟩)
      | _, _ => batches
    collectAll ⟨address, batch, failed, some input⟩ path 0 calls batches

def collectAll (context : Context ℕ) (path : List ℕ) (i : ℕ) : List RawCall → List Posted → List Posted
  | [], batches => batches
  | raw :: calls, batches => collectAll context path (i + 1) calls (collect context (i :: path) raw batches)

end

/-- `batches`, after the walk. -/
def batchesOf (trace : RawCall) : List Posted := collect manager postHash ⟨none, none, false, none⟩ [0] trace []

mutual

/-- The attempts of a call and of everything below it, in the order they are made. -/
def attemptsIn (context : Context Unit) (path : List ℕ) : RawCall → List Attempt
  | .mk type _ target input _ _ error calls =>
    let address := if type.delegate then context.address else target
    let failed := context.reverted || error.any (· ≠ "")
    let parsed := manager.parsed address input
    let posted := postedBy (type.delegate && context.parentInput == some input) parsed
    let batch := if posted.isSome then some () else context.batch
    let own :=
      match batch, attemptedBy type.delegate parsed with
      | some _, some entry => [Attempt.mk entry failed ⟨.l1, postHash, path⟩]
      | _, _ => []
    own ++ attemptsInAll ⟨address, batch, failed, some input⟩ path 0 calls

def attemptsInAll (context : Context Unit) (path : List ℕ) (i : ℕ) : List RawCall → List Attempt
  | [] => []
  | raw :: calls => attemptsIn context (i :: path) raw ++ attemptsInAll context path (i + 1) calls

end

/-- All attempts of a posting transaction. -/
def attemptsOf (trace : RawCall) : List Attempt := attemptsIn manager postHash ⟨none, none, false, none⟩ [0] trace

/-- The successful immediate entries with calls: the hosts of L2 source units. -/
def hostsOf (trace : RawCall) : List Attempt :=
  (attemptsOf manager postHash trace).filter fun a ↦ !a.failed && !a.entry.l2ToL1Calls.isEmpty

/-! ## The walk gathers the attempts -/

/-- The attempts of the `k`-th batch. -/
def attemptsAt (batches : List Posted) (k : ℕ) : List Attempt := (batches[k]?.map Posted.attempts).getD []

/-- From one list of batches to another the attempts `xs` were added, each to some batch, in this order. -/
def Grown (batches batches' : List Posted) (xs : List Attempt) : Prop :=
  batches.length ≤ batches'.length ∧ ∃ ps : List (ℕ × Attempt), ps.map Prod.snd = xs ∧
    ∀ k, attemptsAt batches' k = attemptsAt batches k ++ (ps.filter fun p ↦ p.1 == k).map Prod.snd

theorem Grown.refl (batches : List Posted) : Grown batches batches [] :=
  ⟨le_rfl, [], rfl, fun _ ↦ (List.append_nil _).symm⟩

theorem Grown.trans {b₁ b₂ b₃ : List Posted} {xs ys : List Attempt} (h : Grown b₁ b₂ xs) (h' : Grown b₂ b₃ ys) :
    Grown b₁ b₃ (xs ++ ys) := by
  obtain ⟨hlength, ps, rfl, hps⟩ := h
  obtain ⟨hlength', qs, rfl, hqs⟩ := h'
  refine ⟨hlength.trans hlength', ps ++ qs, List.map_append, fun k ↦ ?_⟩
  rw [hqs, hps, List.filter_append, List.map_append, List.append_assoc]

/-- A batch begins without attempts. -/
theorem grown_posted (batches : List Posted) (posted : Option Batch) (failed : Bool) :
    Grown batches (batches ++ posted.toList.map fun value ↦ Posted.mk value [] failed) [] := by
  refine ⟨by simp, [], rfl, fun k ↦ ?_⟩
  rw [List.filter_nil, List.map_nil, List.append_nil, attemptsAt, attemptsAt]
  rcases Nat.lt_or_ge k batches.length with hk | hk
  · rw [List.getElem?_append_left hk]
  · rw [List.getElem?_append_right hk, List.getElem?_eq_none hk]
    cases posted with
    | none => rfl
    | some value => cases k - batches.length <;> rfl

theorem grown_attempt {batches : List Posted} {k : ℕ} (hk : k < batches.length) (a : Attempt) :
    Grown batches (batches.modify k (Posted.attempt a)) [a] := by
  refine ⟨(List.length_modify ..).ge, [(k, a)], rfl, fun j ↦ ?_⟩
  rw [attemptsAt, attemptsAt, List.getElem?_modify]
  by_cases hjk : k = j
  · subst hjk
    simp [List.getElem?_eq_getElem hk, Posted.attempt]
  · simp [hjk]

/-- A context without the names of batches. -/
def Context.forget (context : Context ℕ) : Context Unit :=
  { context with batch := context.batch.map fun _ ↦ () }

/-- A call that posts a batch or runs an entry, before the calls it makes. -/
theorem grown_call {batches : List Posted} {batch : Option ℕ} (hbatch : ∀ k ∈ batch, k < batches.length)
    (posted : Option Batch) (entry : Option Entry) (failed : Bool) (frameId : FrameId) :
    let batch' := if posted.isSome then some batches.length else batch
    let batches' := batches ++ posted.toList.map fun value ↦ Posted.mk value [] failed
    let batches'' := match batch', entry with
      | some k, some entry => batches'.modify k (Posted.attempt ⟨entry, failed, frameId⟩)
      | _, _ => batches'
    (∀ k ∈ batch', k < batches''.length) ∧
      Grown batches batches'' (match batch'.map fun _ ↦ (), entry with
        | some _, some entry => [Attempt.mk entry failed frameId]
        | _, _ => []) := by
  intro batch' batches' batches''
  have hposted := grown_posted batches posted failed
  have hbatch' : ∀ k ∈ batch', k < batches'.length := by
    intro k hk
    cases posted with
    | none => exact (hbatch k hk).trans_le hposted.1
    | some value =>
      obtain rfl := Option.some.inj hk
      simp [batches']
  cases hb : batch' with
  | none =>
    refine ⟨fun _ hk ↦ absurd hk (Option.not_mem_none _), ?_⟩
    simp only [batches'', hb]
    exact hposted
  | some k =>
    have hk : k < batches'.length := hbatch' k hb
    cases entry with
    | none =>
      simp only [batches'', hb]
      refine ⟨fun k' hk' ↦ ?_, hposted⟩
      obtain rfl := Option.some.inj hk'
      exact hk
    | some entry =>
      have hattempt := hposted.trans (grown_attempt hk ⟨entry, failed, frameId⟩)
      simp only [batches'', hb]
      refine ⟨fun k' hk' ↦ ?_, hattempt⟩
      obtain rfl := Option.some.inj hk'
      rwa [List.length_modify]

mutual

theorem collect_grown (context : Context ℕ) (path : List ℕ) : ∀ (raw : RawCall) (batches : List Posted),
    (∀ k ∈ context.batch, k < batches.length) →
    Grown batches (collect manager postHash context path raw batches)
      (attemptsIn manager postHash context.forget path raw)
  | .mk type _ target input _ _ error calls, batches, hbatch => by
    obtain ⟨hbatch', hcall⟩ := grown_call hbatch
      (postedBy (type.delegate && context.parentInput == some input)
        (manager.parsed (if type.delegate then context.address else target) input))
      (attemptedBy type.delegate (manager.parsed (if type.delegate then context.address else target) input))
      (context.reverted || error.any (· ≠ "")) ⟨.l1, postHash, path⟩
    generalize hposted : postedBy (type.delegate && context.parentInput == some input)
      (manager.parsed (if type.delegate then context.address else target) input) = posted at hbatch' hcall
    have hbelow := collectAll_grown ⟨if type.delegate then context.address else target,
      if posted.isSome then some batches.length else context.batch, context.reverted || error.any (· ≠ ""),
      some input⟩ path 0 calls _ hbatch'
    have hforget : (if posted.isSome then some batches.length else context.batch).map (fun _ ↦ ()) =
        if posted.isSome then some () else context.batch.map fun _ ↦ () := apply_ite ..
    have h := hcall.trans hbelow
    simp only [Context.forget, hforget] at h
    rw [collect, attemptsIn]
    simp only [hposted, Context.forget]
    exact h

theorem collectAll_grown (context : Context ℕ) (path : List ℕ) (i : ℕ) :
    ∀ (calls : List RawCall) (batches : List Posted), (∀ k ∈ context.batch, k < batches.length) →
    Grown batches (collectAll manager postHash context path i calls batches)
      (attemptsInAll manager postHash context.forget path i calls)
  | [], batches, _ => .refl batches
  | raw :: calls, batches, hbatch => by
    have hfirst := collect_grown context (i :: path) raw batches hbatch
    exact hfirst.trans (collectAll_grown context path (i + 1) calls _ fun k hk ↦ (hbatch k hk).trans_le hfirst.1)

end

/-- A list in which one element satisfies `p` has one place for it. -/
theorem index_eq_of_filter {α : Type} {p : α → Bool} {l : List α} {b x y : α} (h : l.filter p = [b]) {i j : ℕ}
    (hi : l[i]? = some x) (hx : p x = true) (hj : l[j]? = some y) (hy : p y = true) : i = j := by
  induction l generalizing i j with
  | nil => simp at hi
  | cons a l ih =>
    cases ha : p a with
    | false =>
      rw [List.filter_cons_of_neg (by simp [ha])] at h
      cases i with
      | zero => simp_all
      | succ i =>
        cases j with
        | zero => simp_all
        | succ j => rw [ih h hi hj]
    | true =>
      rw [List.filter_cons_of_pos ha, List.cons.injEq] at h
      have hnone : ∀ {k : ℕ} {z : α}, l[k]? = some z → p z = true → False := fun hk hz ↦
        List.filter_eq_nil_iff.1 h.2 _ (List.mem_of_getElem? hk) hz
      cases i with
      | zero =>
        cases j with
        | zero => rfl
        | succ j => exact (hnone hj hy).elim
      | succ i => exact (hnone hi hx).elim

variable {manager postHash}

/-- **A posting with one batch that has attempts**: these are all the attempts there are, in order. -/
theorem attempts_eq {trace : RawCall} {b : Posted}
    (h : ((batchesOf manager postHash trace).filter fun b ↦ !b.attempts.isEmpty) = [b]) :
    b.attempts = attemptsOf manager postHash trace := by
  obtain ⟨-, ps, hps, hat⟩ := collect_grown manager postHash ⟨none, none, false, none⟩ [0] trace []
    fun _ hk ↦ absurd hk (Option.not_mem_none _)
  have hmem : b ∈ (batchesOf manager postHash trace).filter fun b ↦ !b.attempts.isEmpty := by
    rw [h]
    exact List.mem_singleton_self b
  obtain ⟨hb, hsome⟩ := List.mem_filter.1 hmem
  obtain ⟨k, hk⟩ := List.mem_iff_getElem?.1 hb
  have hall : ∀ p ∈ ps, (p.1 == k) = true := by
    intro p hp
    have hin : p.2 ∈ attemptsAt (batchesOf manager postHash trace) p.1 := by
      rw [batchesOf, hat]
      exact List.mem_append_right _ (List.mem_map_of_mem (List.mem_filter.2 ⟨hp, beq_self_eq_true _⟩))
    rw [attemptsAt] at hin
    cases hother : (batchesOf manager postHash trace)[p.1]? with
    | none => simp [hother] at hin
    | some b' =>
      simp only [hother, Option.map_some, Option.getD_some] at hin
      have hsome' : (!b'.attempts.isEmpty) = true := by
        rw [Bool.not_eq_true', List.isEmpty_eq_false_iff]
        exact List.ne_nil_of_mem hin
      exact beq_iff_eq.2 (index_eq_of_filter h hother hsome' hk hsome)
  have hown : attemptsAt (batchesOf manager postHash trace) k = b.attempts := by
    rw [attemptsAt, hk, Option.map_some, Option.getD_some]
  rw [← hown, batchesOf, hat, List.filter_eq_self.2 hall, hps]
  rfl

end Walk

end TransactionLinks
