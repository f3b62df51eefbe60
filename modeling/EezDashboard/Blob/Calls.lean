import EezDashboard.Blob.Native

/-!
# The calls of a transaction

What holds of the records of calls in any state of the loop, and so of every transaction it
finishes.  The reference is the list of messages of the transaction: `openAfter` replays it and
gives the calls that are open behind it, innermost first.

`CallRecords` is about a transaction alone: its calls are its call messages, numbered; each was made
under the innermost call open at the time; a return answers the innermost open call, and no other
return answers it.  `Coherent` ties the stacks of the loop to the messages, which is what carries
`CallRecords` from one step to the next (`Step.coherent`).
-/

set_option autoImplicit false

open Codec Brackets

namespace BlobDecoder

/-! ## Replaying the messages -/

def openStep : List ℕ → SemanticMessage → List ℕ
  | stack, .call request => request.index :: stack
  | stack, .ret _ _ => stack.tail
  | stack, _ => stack

/-- The calls that are open behind these messages, innermost first. -/
def openAfter (messages : List SemanticMessage) : List ℕ := messages.foldl openStep []

def SemanticMessage.request? : SemanticMessage → Option CallRequest
  | .call request => some request
  | _ => none

def SemanticMessage.return? : SemanticMessage → Option (ℕ × CallResult)
  | .ret result callIndex => some (callIndex, result)
  | _ => none

namespace SemanticTransaction

/-- What was asked for by the calls. -/
def requests (t : SemanticTransaction) : List CallRequest := t.calls.map SemanticCall.toCallRequest

def results (t : SemanticTransaction) : List (Option CallResult) :=
  t.calls.map SemanticCall.result

/-- The returns, each with the call it names. -/
def returns (t : SemanticTransaction) : List (ℕ × CallResult) :=
  t.messages.filterMap SemanticMessage.return?

end SemanticTransaction

/-- What a call takes over from the call it was made under, or from the transaction. -/
def Enclosed (requests : List CallRequest) (origin : ℕ) (q : CallRequest) : Prop :=
  match q.parentIndex with
  | none => q.depth = 0 ∧ q.fromChain = origin
  | some p => p < q.index ∧
      ∃ d, requests[p]? = some d ∧ q.depth = d.depth + 1 ∧ q.fromChain = d.toChain

/-- The records of the calls of a transaction agree with its messages. -/
structure CallRecords (t : SemanticTransaction) : Prop where
  requests : t.requests = t.messages.filterMap SemanticMessage.request?
  index : ∀ (i : ℕ) (q : CallRequest), t.requests[i]? = some q → q.index = i
  enclosed : ∀ q ∈ t.requests, Enclosed t.requests t.originChain q
  sent : ∀ pre q post, t.messages = pre ++ .call q :: post →
    q.parentIndex = (openAfter pre).head? ∧ q.depth = (openAfter pre).length
  named : ∀ r ∈ t.returns, r.1 < t.requests.length
  answered : ∀ pre r i post, t.messages = pre ++ .ret r i :: post →
    (openAfter pre).head? = some i
  results : ∀ (i : ℕ) (r : Option CallResult), t.results[i]? = some r →
    (t.returns.filter fun r ↦ r.1 = i) = (r.map (i, ·)).toList
  unanswered : ∀ (i : ℕ) (r : Option CallResult), t.results[i]? = some r →
    (r = none ↔ i ∈ openAfter t.messages)

/-- The calls on the stack, each made under the one below it, and the chains they run on. -/
def Stacked (requests : List CallRequest) (origin : ℕ) : List ℕ → List ℕ → Prop
  | [], contexts => contexts = [origin]
  | i :: below, contexts => ∃ q rest, requests[i]? = some q ∧ contexts = q.toChain :: rest ∧
      q.depth = below.length ∧ Stacked requests origin below rest

/-- The stacks of the loop agree with the messages of the transaction it is reading. -/
structure Coherent (st : State) (t : SemanticTransaction) : Prop where
  openCalls : st.openCalls = openAfter t.messages
  sorted : st.openCalls.Pairwise (· > ·)
  bounded : ∀ i ∈ st.openCalls, i < t.requests.length
  stacked : Stacked t.requests t.originChain st.openCalls st.contexts
  records : CallRecords t

/-! ## One more message -/

theorem concat_eq_split {α : Type} {l pre post : List α} {x y : α}
    (h : l ++ [x] = pre ++ y :: post) :
    (pre = l ∧ y = x) ∨ ∃ post', l = pre ++ y :: post' := by
  obtain rfl | ⟨post', z, rfl⟩ := List.eq_nil_or_concat' post
  · obtain ⟨hl, hx⟩ := List.append_inj' h rfl
    exact Or.inl ⟨hl.symm, (List.singleton_inj.mp hx).symm⟩
  · rw [← List.cons_append, ← List.append_assoc] at h
    exact Or.inr ⟨post', (List.append_inj' h rfl).1⟩

theorem getElem?_concat_eq_some {α : Type} {l : List α} {x y : α} {i : ℕ} :
    (l ++ [x])[i]? = some y ↔ l[i]? = some y ∨ (i = l.length ∧ y = x) := by
  rw [List.getElem?_append]
  split
  · next hlt => simp [Nat.ne_of_lt hlt]
  · next hge =>
    have hnone : l[i]? = none := List.getElem?_eq_none (by omega)
    rw [hnone]
    cases hi : i - l.length with
    | zero => simp [show i = l.length by omega, eq_comm]
    | succ n => simp [show i ≠ l.length by omega]

@[simp] theorem openAfter_concat (ms : List SemanticMessage) (m : SemanticMessage) :
    openAfter (ms ++ [m]) = openStep (openAfter ms) m := by
  simp [openAfter]

theorem Stacked.append {requests : List CallRequest} {origin : ℕ} {stack contexts : List ℕ}
    (h : Stacked requests origin stack contexts) (more : List CallRequest) :
    Stacked (requests ++ more) origin stack contexts := by
  induction stack generalizing contexts with
  | nil => exact h
  | cons i below ih =>
    obtain ⟨q, rest, hq, hctx, hdepth, hrest⟩ := h
    exact ⟨q, rest, by rw [List.getElem?_append_left (List.getElem?_eq_some_iff.mp hq).1, hq], hctx,
      hdepth, ih hrest⟩

theorem Enclosed.append {requests : List CallRequest} {origin : ℕ} {q : CallRequest}
    (h : Enclosed requests origin q) (more : List CallRequest) :
    Enclosed (requests ++ more) origin q := by
  rw [Enclosed] at *
  split
  · next hp => rwa [hp] at h
  · next p hp =>
    rw [hp] at h
    obtain ⟨hlt, d, hd, hrest⟩ := h
    exact ⟨hlt, d, by rw [List.getElem?_append_left (List.getElem?_eq_some_iff.mp hd).1, hd], hrest⟩

/-- The call that is made next stands under the innermost open one. -/
theorem Coherent.enclosed {st : State} {t : SemanticTransaction} (h : Coherent st t)
    (c : CallFields) : Enclosed t.requests t.originChain (st.request t c) := by
  have hstacked := h.stacked
  rw [Enclosed]
  cases hopen : st.openCalls with
  | nil =>
    rw [hopen] at hstacked
    simp only [State.request, hopen, List.head?_nil]
    rw [show st.contexts = [t.originChain] from hstacked]
    exact ⟨rfl, rfl⟩
  | cons i below =>
    rw [hopen] at hstacked
    obtain ⟨q, rest, hq, hctx, hdepth, -⟩ := hstacked
    simp only [State.request, hopen, List.head?_cons, hctx]
    refine ⟨?_, q, hq, by rw [List.length_cons, hdepth], rfl⟩
    have hlt := h.bounded i (by rw [hopen]; exact List.mem_cons_self ..)
    rwa [SemanticTransaction.requests, List.length_map] at hlt

section Steps

variable {st : State} {t : SemanticTransaction}

theorem length_results (t : SemanticTransaction) : t.results.length = t.requests.length := by
  simp [SemanticTransaction.results, SemanticTransaction.requests]

theorem Coherent.call (h : Coherent st t) (c : CallFields) :
    Coherent (st.call t c) (t.withCall st c) := by
  have hr := h.records
  have hreq : (t.withCall st c).requests = t.requests ++ [st.request t c] := by
    simp [SemanticTransaction.requests, SemanticTransaction.withCall]
    rfl
  have hres : (t.withCall st c).results = t.results ++ [none] := by
    simp [SemanticTransaction.results, SemanticTransaction.withCall, CallRequest.opened]
  have hmsg : (t.withCall st c).messages = t.messages ++ [.call (st.request t c)] := rfl
  have hindex : (st.request t c).index = t.requests.length := by
    rw [SemanticTransaction.requests, List.length_map]
    rfl
  have hopen : (st.call t c).openCalls = t.requests.length :: st.openCalls := by
    rw [← hindex]
    rfl
  have hreturns : (t.withCall st c).returns = t.returns := by
    rw [SemanticTransaction.returns, hmsg, List.filterMap_append]
    exact List.append_nil _
  refine ⟨?_, ?_, ?_, ?_, ⟨?_, ?_, ?_, ?_, ?_, ?_, ?_, ?_⟩⟩
  · rw [hmsg, openAfter_concat, ← h.openCalls]
    rfl
  · rw [hopen, List.pairwise_cons]
    exact ⟨h.bounded, h.sorted⟩
  · rw [hopen, List.forall_mem_cons, hreq, List.length_append, List.length_singleton]
    exact ⟨Nat.lt_succ_self _, fun i hi ↦ Nat.lt_succ_of_lt (h.bounded i hi)⟩
  · rw [hopen, hreq]
    exact ⟨st.request t c, st.contexts, by simp, rfl, rfl, h.stacked.append _⟩
  · rw [hreq, hmsg, List.filterMap_append, ← hr.requests]
    rfl
  · intro i q hq
    rw [hreq] at hq
    obtain hq | ⟨rfl, rfl⟩ := getElem?_concat_eq_some.mp hq
    · exact hr.index i q hq
    · exact hindex
  · rw [hreq, List.forall_mem_append, List.forall_mem_singleton]
    exact ⟨fun q hq ↦ (hr.enclosed q hq).append _, (h.enclosed c).append _⟩
  · intro pre q post hsplit
    obtain ⟨rfl, hq⟩ | ⟨post', hpost⟩ := concat_eq_split hsplit
    · obtain rfl := SemanticMessage.call.inj hq
      rw [← h.openCalls]
      exact ⟨rfl, rfl⟩
    · exact hr.sent pre q post' hpost
  · rw [hreturns, hreq, List.length_append]
    exact fun r hmem ↦ Nat.lt_succ_of_lt (hr.named r hmem)
  · intro pre r i post hsplit
    obtain ⟨-, hbad⟩ | ⟨post', hpost⟩ := concat_eq_split hsplit
    · cases hbad
    · exact hr.answered pre r i post' hpost
  · intro i r hi
    rw [hreturns]
    rw [hres] at hi
    obtain hi | ⟨rfl, rfl⟩ := getElem?_concat_eq_some.mp hi
    · exact hr.results i r hi
    · -- no return names a call that has not been made
      rw [Option.map_none, Option.toList_none, List.filter_eq_nil_iff]
      intro x hx
      have := hr.named x hx
      rw [length_results, decide_eq_true_eq]
      omega
  · intro i r hi
    rw [hmsg, openAfter_concat, ← h.openCalls, openStep, hindex, List.mem_cons]
    rw [hres] at hi
    obtain hi | ⟨rfl, rfl⟩ := getElem?_concat_eq_some.mp hi
    · have hlt := (List.getElem?_eq_some_iff.mp hi).1
      rw [length_results] at hlt
      rw [hr.unanswered i r hi, h.openCalls]
      simp [Nat.ne_of_lt hlt]
    · simp [length_results]

/-- The transaction behind a return. -/
def SemanticTransaction.withReturn (t : SemanticTransaction) (st : State) (r : ReturnFields) :
    SemanticTransaction :=
  { t with
    calls := t.calls.modify (st.openCalls.headD 0) fun call ↦ { call with result := some r.result }
    messages := t.messages ++ [.ret r.result (st.openCalls.headD 0)] }

/-- A change of one entry that a view of the entries does not show. -/
theorem map_modify_eq {α β : Type} {g : α → β} {f : α → α} (hg : ∀ a, g (f a) = g a) (l : List α)
    (i : ℕ) : (l.modify i f).map g = l.map g := by
  refine List.ext_getElem? fun j ↦ ?_
  rw [List.getElem?_map, List.getElem?_map, List.getElem?_modify]
  cases l[j]? with
  | none => rfl
  | some a =>
    simp only [Option.map_some]
    split <;> simp [hg]

/-- A return changes the result of the innermost open call. -/
theorem getElem?_results_withReturn {i : ℕ} {below : List ℕ} (hstack : st.openCalls = i :: below) {r : ReturnFields}
    {j : ℕ} {x : Option CallResult} : (t.withReturn st r).results[j]? = some x ↔
      (j = i ∧ (∃ x₀, t.results[j]? = some x₀) ∧ x = some r.result) ∨ (j ≠ i ∧ t.results[j]? = some x) := by
  rw [SemanticTransaction.results, SemanticTransaction.withReturn, SemanticTransaction.results, hstack,
    List.headD_cons, List.getElem?_map, List.getElem?_map, List.getElem?_modify]
  by_cases hji : j = i
  · subst hji
    cases t.calls[j]? with
    | none => simp
    | some call => simp [eq_comm]
  · simp [hji, Ne.symm hji]

theorem Coherent.ret (h : Coherent st t) (hopen : st.openCalls ≠ []) (r : ReturnFields) :
    Coherent (st.ret t r) (t.withReturn st r) := by
  obtain ⟨i, below, hstack⟩ := List.exists_cons_of_ne_nil hopen
  have hr := h.records
  have hsorted := h.sorted
  have hbounded := h.bounded
  have hstacked := h.stacked
  have hafter := h.openCalls
  rw [hstack] at hsorted hbounded hstacked hafter
  rw [List.pairwise_cons] at hsorted
  rw [List.forall_mem_cons] at hbounded
  obtain ⟨q, rest, -, hctx, -, hbelow⟩ := hstacked
  have hreq : (t.withReturn st r).requests = t.requests := by
    rw [SemanticTransaction.requests, SemanticTransaction.withReturn]
    refine map_modify_eq ?_ _ _
    exact fun _ ↦ rfl
  have hmsg : (t.withReturn st r).messages = t.messages ++ [.ret r.result i] := by
    rw [SemanticTransaction.withReturn, hstack]
    rfl
  have hreturns : (t.withReturn st r).returns = t.returns ++ [(i, r.result)] := by
    rw [SemanticTransaction.returns, hmsg, List.filterMap_append]
    rfl
  have htail : (st.ret t r).openCalls = below := by
    rw [State.ret, State.record, hstack]
    rfl
  have hres (j : ℕ) (x : Option CallResult) (hj : (t.withReturn st r).results[j]? = some x) :
      (j = i ∧ x = some r.result ∧ t.results[j]? = some none) ∨ (j ≠ i ∧ t.results[j]? = some x) := by
    rw [getElem?_results_withReturn hstack] at hj
    obtain ⟨rfl, ⟨x₀, hold⟩, rfl⟩ | ⟨hne, hj⟩ := hj
    · -- the innermost open call has no result yet
      obtain rfl := (hr.unanswered j x₀ hold).2 (by rw [← hafter]; exact List.mem_cons_self)
      exact .inl ⟨rfl, rfl, hold⟩
    · exact .inr ⟨hne, hj⟩
  refine ⟨?_, ?_, ?_, ?_, ⟨?_, ?_, ?_, ?_, ?_, ?_, ?_, ?_⟩⟩
  · rw [hmsg, openAfter_concat, ← hafter, htail]
    rfl
  · rw [htail]
    exact hsorted.2
  · rw [htail, hreq]
    exact hbounded.2
  · rw [htail, hreq, State.ret, State.record, hctx]
    exact hbelow
  · rw [hreq, hmsg, List.filterMap_append, ← hr.requests]
    exact (List.append_nil _).symm
  · rw [hreq]
    exact hr.index
  · rw [hreq]
    exact hr.enclosed
  · intro pre q post hsplit
    rw [hmsg] at hsplit
    obtain ⟨-, hbad⟩ | ⟨post', hpost⟩ := concat_eq_split hsplit
    · cases hbad
    · exact hr.sent pre q post' hpost
  · rw [hreturns, hreq, List.forall_mem_append, List.forall_mem_singleton]
    exact ⟨hr.named, hbounded.1⟩
  · intro pre x j post hsplit
    rw [hmsg] at hsplit
    obtain ⟨rfl, hx⟩ | ⟨post', hpost⟩ := concat_eq_split hsplit
    · obtain ⟨-, rfl⟩ := SemanticMessage.ret.inj hx
      rw [← hafter]
      rfl
    · exact hr.answered pre x j post' hpost
  · intro j x hj
    rw [hreturns, List.filter_append]
    obtain ⟨rfl, rfl, hnone⟩ | ⟨hne, hj⟩ := hres j x hj
    · rw [hr.results j none hnone]
      simp
    · rw [hr.results j x hj]
      simp [Ne.symm hne]
  · intro j x hj
    rw [hmsg, openAfter_concat, ← hafter, openStep, List.tail_cons]
    obtain ⟨rfl, rfl, -⟩ | ⟨hne, hj⟩ := hres j x hj
    · have hnot : j ∉ below := fun hmem ↦ Nat.lt_irrefl _ (hsorted.1 j hmem)
      simp [hnot]
    · rw [hr.unanswered j x hj, ← hafter, List.mem_cons]
      simp [hne]

/-- A message that is about no single call. -/
theorem Coherent.bookkeeping (h : Coherent st t) {st' : State} {t' : SemanticTransaction}
    {m : SemanticMessage} (hopen : st'.openCalls = st.openCalls)
    (hctx : st'.contexts = st.contexts) (horigin : t'.originChain = t.originChain)
    (hreq : t'.requests = t.requests) (hres : t'.results = t.results)
    (hmsg : t'.messages = t.messages ++ [m]) (hstep : ∀ stack, openStep stack m = stack)
    (hrequest : m.request? = none) (hreturn : m.return? = none) : Coherent st' t' := by
  have hr := h.records
  have hreturns : t'.returns = t.returns := by
    rw [SemanticTransaction.returns, hmsg, List.filterMap_append]
    simp [hreturn, SemanticTransaction.returns]
  have hafter : openAfter t'.messages = openAfter t.messages := by
    rw [hmsg, openAfter_concat, hstep]
  refine ⟨?_, ?_, ?_, ?_, ⟨?_, ?_, ?_, ?_, ?_, ?_, ?_, ?_⟩⟩
  · rw [hopen, hafter, h.openCalls]
  · rw [hopen]
    exact h.sorted
  · rw [hopen, hreq]
    exact h.bounded
  · rw [hopen, hreq, hctx, horigin]
    exact h.stacked
  · rw [hreq, hmsg, List.filterMap_append, hr.requests]
    simp [hrequest]
  · rw [hreq]
    exact hr.index
  · rw [hreq, horigin]
    exact hr.enclosed
  · intro pre q post hsplit
    rw [hmsg] at hsplit
    obtain ⟨-, rfl⟩ | ⟨post', hpost⟩ := concat_eq_split hsplit
    · cases hrequest
    · exact hr.sent pre q post' hpost
  · rw [hreturns, hreq]
    exact hr.named
  · intro pre r i post hsplit
    rw [hmsg] at hsplit
    obtain ⟨-, rfl⟩ | ⟨post', hpost⟩ := concat_eq_split hsplit
    · cases hreturn
    · exact hr.answered pre r i post' hpost
  · rw [hreturns, hres]
    exact hr.results
  · rw [hafter, hres]
    exact hr.unanswered

theorem Coherent.snapshot (h : Coherent st t) : Coherent (st.snapshot t) (t.withSnapshot st) :=
  h.bookkeeping rfl rfl rfl rfl rfl rfl (fun _ ↦ rfl) rfl rfl

/-- The transaction behind a revert. -/
def SemanticTransaction.withRevert (t : SemanticTransaction) (st : State) (s : Snapshot) :
    SemanticTransaction :=
  { t with
    calls := t.calls.take s.firstCallIndex ++
      rollBackCalls (st.region t s).index (t.calls.drop s.firstCallIndex)
    messages := t.messages ++ [.revert (st.region t s)]
    rollbackRegions := t.rollbackRegions ++ [st.region t s] }

/-- Rolling calls back does not change what a view does not show. -/
theorem map_rollBackCalls {β : Type} {g : SemanticCall → β}
    (hg : ∀ call region, g (SemanticCall.rollBack region call) = g call)
    (hspan : ∀ (call : SemanticCall) span, g { call with rollbackSpan := span } = g call)
    (calls : List SemanticCall) (region : ℕ) :
    (rollBackCalls region calls).map g = calls.map g := by
  rw [rollBackCalls]
  cases calls with
  | nil => rfl
  | cons first rest =>
    simp only [List.map_cons, List.modifyHead_cons, hspan, hg, List.map_map, Function.comp_def]

theorem map_withRevert {β : Type} {g : SemanticCall → β}
    (hg : ∀ call region, g (SemanticCall.rollBack region call) = g call)
    (hspan : ∀ (call : SemanticCall) span, g { call with rollbackSpan := span } = g call)
    (st : State) (t : SemanticTransaction) (s : Snapshot) :
    (t.withRevert st s).calls.map g = t.calls.map g := by
  rw [SemanticTransaction.withRevert, List.map_append, map_rollBackCalls hg hspan,
    ← List.map_append, List.take_append_drop]

theorem Coherent.revert (h : Coherent st t) (s : Snapshot) :
    Coherent (st.revert t s) (t.withRevert st s) := by
  have hreq : (t.withRevert st s).requests = t.requests := by
    rw [SemanticTransaction.requests]
    exact map_withRevert (fun _ _ ↦ rfl) (fun _ _ ↦ rfl) st t s
  have hres : (t.withRevert st s).results = t.results := by
    rw [SemanticTransaction.results]
    exact map_withRevert (fun _ _ ↦ rfl) (fun _ _ ↦ rfl) st t s
  exact h.bookkeeping rfl rfl rfl hreq hres rfl (fun _ ↦ rfl) rfl rfl

/-- The transaction behind an `Initiate`. -/
def initiated (origin : ℕ) (txData : Bytes) : SemanticTransaction where
  originChain := origin
  txDataBytes := txData.length
  txDataPreview := preview txData
  messages := [.initiate origin txData.length (preview txData)]

theorem current_initiate (st : State) (origin : ℕ) (txData : Bytes) :
    (st.initiate origin txData).current = some (initiated origin txData) := rfl

/-- Nothing has been recorded yet. -/
theorem State.Idle.coherent (h : st.Idle) (origin : ℕ) (txData : Bytes) :
    Coherent (st.initiate origin txData) (initiated origin txData) := by
  have hopen : (st.initiate origin txData).openCalls = [] := h.openCalls
  have hsplit : ∀ pre m post, (initiated origin txData).messages = pre ++ m :: post →
      m = .initiate origin txData.length (preview txData) := by
    intro pre m post hsplit
    obtain ⟨-, hm⟩ | ⟨post', hbad⟩ := concat_eq_split (l := []) hsplit
    · exact hm
    · exact absurd (congrArg List.length hbad) (by simp)
  refine ⟨hopen, ?_, ?_, ?_, ⟨rfl, ?_, ?_, ?_, ?_, ?_, ?_, ?_⟩⟩
  · simp [hopen]
  · simp [hopen]
  · rw [hopen, State.initiate, State.record, h.contexts]
    rfl
  · simp [SemanticTransaction.requests, initiated]
  · simp [SemanticTransaction.requests, initiated]
  · intro pre q post hq
    cases hsplit pre _ post hq
  · simp [SemanticTransaction.returns, SemanticMessage.return?, initiated]
  · intro pre r i post hr
    cases hsplit pre _ post hr
  · simp [SemanticTransaction.results, initiated]
  · simp [SemanticTransaction.results, initiated]

end Steps

/-! ## Whole transactions -/

/-- **What is so of every transaction that is finished.**  It is enough that some `P` holds when a
transaction is initiated, that every bracket keeps it, and that `Finish` can make the conclusion of
it. -/
theorem Steps.finished {P : State → SemanticTransaction → Prop} {Q : FinishedTransaction → Prop}
    (hinit : ∀ {st : State} origin txData, st.Idle →
      P (st.initiate origin txData) (initiated origin txData))
    (hstep : ∀ {st t b st' t'}, st.current = some t → P st t → Step st (.bracket b) st' →
      st'.current = some t' → P st' t')
    (hfinish : ∀ {st t st'}, st.current = some t → P st t → Step st .finish st' → Q t.finish)
    {st st' : State} {ms : List Message} (h : Steps st ms st') (hidle : st.Idle)
    (hQ : ∀ tx ∈ st.semanticTransactions, Q tx) : ∀ tx ∈ st'.semanticTransactions, Q tx := by
  refine (h.invariant (P := fun st ↦ (st.current = none → st.Idle) ∧
    (∀ t, st.current = some t → P st t) ∧ ∀ tx ∈ st.semanticTransactions, Q tx) ?_
    ⟨fun _ ↦ hidle, by simp [hidle.current], hQ⟩).2.2
  rintro st m st' h ⟨hidle, hP, hQ⟩
  rcases m with ⟨origin, txData⟩ | b | _
  · cases h with
    | initiate hcur hctx =>
      refine ⟨by simp [current_initiate], ?_, hQ⟩
      rintro t ⟨⟩
      exact hinit origin txData (hidle hcur)
  · obtain ⟨t, hcur⟩ : ∃ t, st.current = some t := by cases h <;> exact ⟨_, ‹_›⟩
    obtain ⟨t', hcur'⟩ : ∃ t', st'.current = some t' := by cases h <;> exact ⟨_, rfl⟩
    have hsame : st'.semanticTransactions = st.semanticTransactions := by cases h <;> rfl
    refine ⟨by simp [hcur'], ?_, by rwa [hsame]⟩
    intro t'' hcur''
    exact hstep hcur (hP t hcur) h hcur''
  · cases h with
    | finish hcur hctx hopen hsnap hcalls =>
      have hctx' : st.contexts.tail = [] := by
        rw [← List.length_eq_zero_iff, List.length_tail, hctx]
      refine ⟨fun _ ↦ ⟨rfl, hctx', hopen, hsnap⟩, by simp [State.finish], ?_⟩
      rw [State.finish, List.forall_mem_append, List.forall_mem_singleton]
      exact ⟨hQ, hfinish hcur (hP _ hcur) (.finish hcur hctx hopen hsnap hcalls)⟩

theorem Step.coherent {st st' : State} {t t' : SemanticTransaction} {b : Bracket Opening Closing}
    (hcur : st.current = some t) (h : Coherent st t) (hstep : Step st (.bracket b) st')
    (hcur' : st'.current = some t') : Coherent st' t' := by
  cases hstep with
  | call hcur₁ =>
    obtain rfl := Option.some_inj.mp (hcur.symm.trans hcur₁)
    obtain rfl := Option.some_inj.mp hcur'
    exact h.call _
  | ret hcur₁ hopen =>
    obtain rfl := Option.some_inj.mp (hcur.symm.trans hcur₁)
    obtain rfl := Option.some_inj.mp hcur'
    exact h.ret hopen _
  | snapshot hcur₁ =>
    obtain rfl := Option.some_inj.mp (hcur.symm.trans hcur₁)
    obtain rfl := Option.some_inj.mp hcur'
    exact h.snapshot
  | revert hcur₁ =>
    obtain rfl := Option.some_inj.mp (hcur.symm.trans hcur₁)
    obtain rfl := Option.some_inj.mp hcur'
    exact h.revert _

/-- The name of a message that is listed in full. -/
def SemanticMessage.type : SemanticMessage → MessageType
  | .initiate .. => .initiate
  | .call request => request.mode.messageType
  | .ret result _ => result.outcome.messageType
  | .snapshot _ => .snapshot
  | .revert _ => .revert
  | .finish => .finish

/-- The totals of a transaction are the numbers of its messages. -/
structure Totals (tx : FinishedTransaction) : Prop where
  callCount : tx.callCount = tx.calls.length
  mutable : tx.mutableCallCount = (tx.messages.map SemanticMessage.type).count .call
  static : tx.staticCallCount = (tx.messages.map SemanticMessage.type).count .staticCall
  succeeded : tx.successReturnCount = (tx.messages.map SemanticMessage.type).count .returnSuccess
  failed : tx.failedReturnCount = (tx.messages.map SemanticMessage.type).count .returnFail
  snapshots : tx.snapshotCount = (tx.messages.map SemanticMessage.type).count .snapshot
  reverts : tx.rollbackRegionCount = (tx.messages.map SemanticMessage.type).count .revert
  calls : tx.mutableCallCount + tx.staticCallCount = tx.callCount
  returns : tx.successReturnCount + tx.failedReturnCount = tx.callCount

theorem Body.map_type_log (f : Body) (s : Scope) :
    (Body.log s f).map SemanticMessage.type = f.types := by
  induction f generalizing s with
  | nil => rfl
  | node k a body b rest ihb ihr =>
    cases k with
    | call =>
      simp only [Body.log, Body.types, List.map_cons, List.map_append, ihb, ihr]
      rfl
    | region =>
      simp only [Body.log, Body.types, List.map_cons, List.map_append, ihb, ihr]
      rfl

theorem countP_rollBackCalls {p : SemanticCall → Bool}
    (hp : ∀ call region, p (SemanticCall.rollBack region call) = p call)
    (hspan : ∀ (call : SemanticCall) span, p { call with rollbackSpan := span } = p call)
    (calls : List SemanticCall) (region : ℕ) :
    (rollBackCalls region calls).countP p = calls.countP p := by
  have h := congrArg (List.countP id) (map_rollBackCalls hp hspan calls region)
  rwa [List.countP_map, List.countP_map] at h

theorem messageType_mode_eq_iff {m n : Mode} : m.messageType = n.messageType ↔ m = n := by
  cases m <;> cases n <;> decide

theorem messageType_outcome_eq_iff {m n : Outcome} : m.messageType = n.messageType ↔ m = n := by
  cases m <;> cases n <;> decide

theorem messageType_mode_ne (m : Mode) (o : Outcome) : m.messageType ≠ o.messageType := by
  cases m <;> cases o <;> decide

/-- As many calls of a mode are recorded as there are messages of it. -/
theorem Body.countP_mode (f : Body) (s : Scope) (mode : Mode) :
    (Body.calls s f).countP (fun call ↦ call.mode = mode) = f.types.count mode.messageType := by
  induction f generalizing s with
  | nil => rfl
  | node k a body b rest ihb ihr =>
    cases k with
    | call =>
      have hhead : (s.request a).mode = a.mode := rfl
      simp only [Body.calls, Body.types, List.countP_cons, List.countP_append, List.count_cons,
        List.count_append, ihb, ihr, beq_iff_eq, messageType_mode_eq_iff,
        (messageType_mode_ne mode b.outcome).symm, CallRequest.opened, hhead, decide_eq_true_eq,
        if_false, Nat.add_zero]
    | region =>
      rw [Body.calls, Body.types, List.countP_append, countP_rollBackCalls (fun _ _ ↦ rfl)
        (fun _ _ ↦ rfl), ihb, ihr, List.count_cons_of_ne (by cases mode <;> decide),
        List.count_append, List.count_cons_of_ne (by cases mode <;> decide)]

/-- As many results are recorded as there are returns. -/
theorem Body.countP_outcome (f : Body) (s : Scope) (outcome : Outcome) :
    (Body.calls s f).countP (fun call ↦ call.result.any fun r ↦ r.outcome = outcome) =
      f.types.count outcome.messageType := by
  induction f generalizing s with
  | nil => rfl
  | node k a body b rest ihb ihr =>
    cases k with
    | call =>
      have hresult : b.result.outcome = b.outcome := rfl
      simp only [Body.calls, Body.types, List.countP_cons, List.countP_append, List.count_cons,
        List.count_append, ihb, ihr, beq_iff_eq, messageType_outcome_eq_iff,
        messageType_mode_ne a.mode outcome, Option.any_some, hresult, decide_eq_true_eq, if_false,
        Nat.add_zero, Nat.add_assoc]
    | region =>
      rw [Body.calls, Body.types, List.countP_append, countP_rollBackCalls (fun _ _ ↦ rfl)
        (fun _ _ ↦ rfl), ihb, ihr, List.count_cons_of_ne (by cases outcome <;> decide),
        List.count_append, List.count_cons_of_ne (by cases outcome <;> decide)]

/-- Every region is opened once and reverted once. -/
theorem Body.count_region (f : Body) :
    f.types.count .snapshot = f.regionCount ∧ f.types.count .revert = f.regionCount := by
  induction f with
  | nil => exact ⟨rfl, rfl⟩
  | node k a body b rest ihb ihr =>
    cases k with
    | call =>
      have hmode : a.mode.messageType ≠ .snapshot ∧ a.mode.messageType ≠ .revert := by
        cases a.mode <;> decide
      have houtcome : b.outcome.messageType ≠ .snapshot ∧ b.outcome.messageType ≠ .revert := by
        cases b.outcome <;> decide
      simp [Body.types, Body.regionCount, ihb, ihr, hmode, houtcome]
    | region =>
      simp [Body.types, Body.regionCount, ihb, ihr]
      omega

/-- Every call is opened once and answered once. -/
theorem Body.count_call (f : Body) :
    f.types.count .call + f.types.count .staticCall = f.size ∧
      f.types.count .returnSuccess + f.types.count .returnFail = f.size := by
  induction f with
  | nil => exact ⟨rfl, rfl⟩
  | node k a body b rest ihb ihr =>
    cases k with
    | call =>
      simp only [Body.types, Body.size, List.count_cons, List.count_append]
      constructor
      · cases a.mode <;> cases b.outcome <;>
          simp [Mode.messageType, Outcome.messageType] <;> omega
      · cases a.mode <;> cases b.outcome <;>
          simp [Mode.messageType, Outcome.messageType] <;> omega
    | region =>
      simp only [Body.types, Body.size, List.count_append, List.count_cons_of_ne, ne_eq,
        reduceCtorEq, not_false_eq_true]
      omega

theorem NativeTransaction.map_type_messages (tx : NativeTransaction) :
    tx.record.messages.map SemanticMessage.type = tx.types := by
  simp [NativeTransaction.record, SemanticTransaction.finish, NativeTransaction.types,
    NativeTransaction.initiated, Body.map_type_log, SemanticMessage.type]

/-- A transaction is summed up by its messages. -/
theorem NativeTransaction.totals (tx : NativeTransaction) : Totals tx.record := by
  have hcount : ∀ type, type ≠ .initiate → type ≠ .finish →
      (tx.record.messages.map SemanticMessage.type).count type = tx.body.types.count type := by
    intro type hi hf
    rw [tx.map_type_messages, NativeTransaction.types, List.count_cons_of_ne hi.symm,
      List.count_append, List.count_singleton]
    simp [hf.symm]
  have hcalls := tx.body.count_call
  have hregions := tx.body.count_region
  have hmode := tx.body.countP_mode tx.scope
  have houtcome := tx.body.countP_outcome tx.scope
  have hlen : tx.record.callCount = tx.body.size := Body.length_calls ..
  refine ⟨rfl, ?_, ?_, ?_, ?_, ?_, ?_, ?_, ?_⟩
  · rw [hcount _ (by decide) (by decide)]
    exact hmode .call
  · rw [hcount _ (by decide) (by decide)]
    exact hmode .staticCall
  · rw [hcount _ (by decide) (by decide)]
    exact houtcome .returnSuccess
  · rw [hcount _ (by decide) (by decide)]
    exact houtcome .returnFail
  · rw [hcount _ (by decide) (by decide), hregions.1]
    rfl
  · rw [hcount _ (by decide) (by decide), hregions.2]
    exact Body.length_regions ..
  · rw [hlen, ← hcalls.1]
    exact congrArg₂ (· + ·) (hmode .call) (hmode .staticCall)
  · rw [hlen, ← hcalls.2]
    exact congrArg₂ (· + ·) (houtcome .returnSuccess) (houtcome .returnFail)

/-! ## What the decoder promises -/

/-- Every call of a transaction is answered: by one return, and that the one that closed it. -/
structure Answered (tx : FinishedTransaction) : Prop where
  closed : openAfter tx.messages = []
  result : ∀ call ∈ tx.calls, ∃ r, call.result = some r ∧
    (tx.returns.filter fun x ↦ x.1 = call.index) = [(call.index, r)]

/-- `Finish` finds every call answered. -/
theorem Coherent.finish {st st' : State} {t : SemanticTransaction} (h : Coherent st t)
    (hstep : Step st .finish st') :
    CallRecords t.finish.toSemanticTransaction ∧ Answered t.finish := by
  have hopen : st.openCalls = [] := by cases hstep with | finish _ _ hopen => exact hopen
  have h' : Coherent st t.finish.toSemanticTransaction :=
    h.bookkeeping rfl rfl rfl rfl rfl rfl (fun _ ↦ rfl) rfl rfl
  have hafter : openAfter t.finish.messages = [] := by rw [← h'.openCalls, hopen]
  refine ⟨h'.records, hafter, ?_⟩
  intro call hcall
  obtain ⟨i, hi⟩ := List.mem_iff_getElem?.mp hcall
  have hresult : t.finish.results[i]? = some call.result := by
    rw [SemanticTransaction.results, List.getElem?_map, hi, Option.map_some]
  have hindex : call.index = i := h'.records.index i call.toCallRequest (by
    rw [SemanticTransaction.requests, List.getElem?_map, hi, Option.map_some])
  cases hr : call.result with
  | none =>
    have hmem := (h'.records.unanswered i _ hresult).mp hr
    rw [hafter] at hmem
    cases hmem
  | some r =>
    refine ⟨r, rfl, ?_⟩
    rw [hindex, h'.records.results i _ hresult, hr]
    rfl

/-- What is so of every transaction that the loop finishes is so of every one it records. -/
theorem NativeContent.finished {P : State → SemanticTransaction → Prop}
    {Q : FinishedTransaction → Prop}
    (hinit : ∀ {st : State} origin txData, st.Idle →
      P (st.initiate origin txData) (initiated origin txData))
    (hstep : ∀ {st t b st' t'}, st.current = some t → P st t → Step st (.bracket b) st' →
      st'.current = some t' → P st' t')
    (hfinish : ∀ {st t st'}, st.current = some t → P st t → Step st .finish st' → Q t.finish)
    (c : NativeContent) : ∀ tx ∈ c.transactions, Q tx.record := by
  have hidle : State.Idle {} := ⟨rfl, rfl, rfl, rfl⟩
  obtain ⟨hsteps, -⟩ := (steps_idle hidle).mpr ⟨c.transactions, c.fits, rfl, rfl⟩
  have h := hsteps.finished hinit hstep hfinish hidle (by simp)
  intro tx htx
  exact h tx.record (by simpa [State.after] using ⟨tx, htx, rfl⟩)

/-- **The native decoder accepts exactly the streams of well nested transactions**, and what it
records of their calls agrees with the messages. -/
theorem decodeNativeBlobs_iff_written :
    (∀ blobs expectedChainId, (∃ r, decodeNativeBlobs blobs expectedChainId = .ok r) ↔
      ∃ (c : NativeContent) (padding : ℕ), c.Written padding blobs ∧ c.chainId = expectedChainId) ∧
    ∀ blobs expectedChainId r, decodeNativeBlobs blobs expectedChainId = .ok r →
      (∃ (c : NativeContent) (padding : ℕ), c.Written padding blobs ∧
        r.semanticTransactions = c.transactions.map NativeTransaction.record) ∧
      ∀ tx ∈ r.semanticTransactions,
        CallRecords tx.toSemanticTransaction ∧ Answered tx ∧ Totals tx := by
  refine ⟨?_, ?_⟩
  · intro blobs expectedChainId
    simp only [decodeNativeBlobs_eq_ok]
    constructor
    · rintro ⟨r, c, padding, hc, hchain, -⟩
      exact ⟨c, padding, hc, hchain⟩
    · rintro ⟨c, padding, hc, hchain⟩
      exact ⟨_, c, padding, hc, hchain, rfl⟩
  · intro blobs expectedChainId r hr
    obtain ⟨c, padding, hc, -, rfl⟩ := decodeNativeBlobs_eq_ok.mp hr
    refine ⟨⟨c, padding, hc, rfl⟩, List.forall_mem_map.mpr fun tx htx ↦ ?_⟩
    obtain ⟨hrecords, hanswered⟩ := c.finished (P := Coherent)
      (Q := fun tx ↦ CallRecords tx.toSemanticTransaction ∧ Answered tx)
      (fun _ _ h ↦ h.coherent _ _) (fun hcur h hstep hcur' ↦ hstep.coherent hcur h hcur')
      (fun _ h hstep ↦ h.finish hstep) tx htx
    exact ⟨hrecords, hanswered, tx.totals⟩

end BlobDecoder
