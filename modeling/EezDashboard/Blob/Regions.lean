import EezDashboard.Blob.Calls
import Mathlib.Logic.Relation

/-!
# Rollback regions

A region is found at its revert, from the number of calls there were at its snapshot and the number
there are now.  That it is closed, and that nothing is open across it, is not checked there; it
follows from the checks on depths, by what `Regional` says of every state of the loop: the calls
that were open at a snapshot are those below its depth still (`below`), so that a revert to it
happens with only these open (`Regional.open_lt`), and none of them is in a region.
-/

set_option autoImplicit false

open Brackets

namespace BlobDecoder

/-- The indices of the calls of a region. -/
def RollbackRegion.Covers (r : RollbackRegion) (i : ℕ) : Prop :=
  r.firstCallIndex ≤ i ∧ i ≤ r.lastCallIndex

/-- The records of regions agree with the calls and the messages of the transaction. -/
structure RegionRecords (t : SemanticTransaction) : Prop where
  interval : ∀ (k : ℕ) (r : RollbackRegion), t.rollbackRegions[k]? = some r →
    r.index = k ∧ r.firstCallIndex ≤ r.lastCallIndex ∧ r.lastCallIndex < t.calls.length ∧
      r.callCount = r.lastCallIndex + 1 - r.firstCallIndex
  ordered : t.rollbackRegions.Pairwise fun r r' ↦ r.lastCallIndex < r'.firstCallIndex
  closed : ∀ q ∈ t.requests, ∀ p, q.parentIndex = some p →
    ∀ r ∈ t.rollbackRegions, r.Covers p → r.Covers q.index
  parent : ∀ pre s post, t.messages = pre ++ .snapshot s :: post →
    ∀ q ∈ t.requests, s.firstCallIndex ≤ q.index →
      ∀ p, q.parentIndex = some p → s.firstCallIndex ≤ p ∨ p ∈ openAfter pre
  marked : ∀ (i : ℕ) (call : SemanticCall), t.calls[i]? = some call →
    (∀ k, call.rollbackRegion = some k ↔ ∃ r, t.rollbackRegions[k]? = some r ∧ r.Covers i) ∧
      call.forcedRollback = call.rollbackRegion.isSome
  span : ∀ (i : ℕ) (call : SemanticCall), t.calls[i]? = some call → ∀ n,
    call.rollbackSpan = some n ↔ ∃ r ∈ t.rollbackRegions, r.firstCallIndex = i ∧ r.callCount = n
  spans : t.calls.filterMap SemanticCall.rollbackSpan = t.rollbackRegions.map RollbackRegion.callCount
  total : t.calls.countP SemanticCall.forcedRollback =
    (t.rollbackRegions.map RollbackRegion.callCount).sum

/-- What the loop keeps for the regions that are still to come. -/
structure Regional (st : State) (t : SemanticTransaction) : Prop where
  coherent : Coherent st t
  tracks : ∃ stack, st.Tracks stack
  outside : ∀ i ∈ st.openCalls, ∀ r ∈ t.rollbackRegions, ¬r.Covers i
  below : ∀ s ∈ st.snapshots, s.firstCallIndex ≤ t.calls.length ∧
    (st.openCalls.filter (· < s.firstCallIndex)).length = s.callDepth
  still : ∀ pre s post, t.messages = pre ++ .snapshot s :: post →
    s.firstCallIndex ≤ t.calls.length ∧ ∀ i ∈ st.openCalls, i < s.firstCallIndex → i ∈ openAfter pre
  records : RegionRecords t

section Steps

variable {st : State} {t : SemanticTransaction}

theorem length_requests (t : SemanticTransaction) : t.requests.length = t.calls.length := by
  simp [SemanticTransaction.requests]

theorem CallRecords.index_lt (h : CallRecords t) {q : CallRequest} (hq : q ∈ t.requests) :
    q.index < t.calls.length := by
  obtain ⟨i, hi⟩ := List.mem_iff_getElem?.mp hq
  rw [h.index i q hi, ← length_requests]
  exact (List.getElem?_eq_some_iff.mp hi).1

theorem CallRecords.parent_lt (h : CallRecords t) {q : CallRequest} (hq : q ∈ t.requests) {p : ℕ}
    (hp : q.parentIndex = some p) : p < q.index := by
  have hencl := h.enclosed q hq
  rw [Enclosed, hp] at hencl
  exact hencl.1

theorem RegionRecords.of_mem (h : RegionRecords t) {r : RollbackRegion}
    (hr : r ∈ t.rollbackRegions) :
    r.firstCallIndex ≤ r.lastCallIndex ∧ r.lastCallIndex < t.calls.length := by
  obtain ⟨k, hk⟩ := List.mem_iff_getElem?.mp hr
  exact ⟨(h.interval k r hk).2.1, (h.interval k r hk).2.2.1⟩

theorem Regional.call (h : Regional st t) {c : CallFields}
    (htracks : ∃ stack, (st.call t c).Tracks stack) :
    Regional (st.call t c) (t.withCall st c) := by
  have hcalls : (t.withCall st c).calls = t.calls ++ [(st.request t c).opened] := rfl
  have hreq : (t.withCall st c).requests = t.requests ++ [st.request t c] := by
    simp [SemanticTransaction.requests, hcalls, CallRequest.opened]
  have hopen : (st.call t c).openCalls = t.calls.length :: st.openCalls := rfl
  have hr := h.records
  have hbounded : ∀ i ∈ st.openCalls, i < t.calls.length := by
    rw [← length_requests]
    exact h.coherent.bounded
  refine ⟨h.coherent.call c, htracks, ?_, ?_, ?_, ⟨?_, ?_, ?_, ?_, ?_, ?_, ?_, ?_⟩⟩
  · rw [hopen, List.forall_mem_cons]
    refine ⟨fun r hmem hcov ↦ ?_, h.outside⟩
    have := (hr.of_mem hmem).2
    have := hcov.2
    omega
  · intro s hs
    obtain ⟨hle, hlen⟩ := h.below s hs
    refine ⟨by rw [hcalls, List.length_append]; omega, ?_⟩
    rw [hopen, List.filter_cons_of_neg (by simpa using hle), hlen]
  · intro pre s post hsplit
    obtain ⟨-, hbad⟩ | ⟨post', hpost⟩ := concat_eq_split hsplit
    · cases hbad
    · obtain ⟨hle, hstill⟩ := h.still pre s post' hpost
      rw [hcalls, hopen, List.length_append, List.forall_mem_cons]
      exact ⟨by omega, fun hlt ↦ absurd hlt (by omega), hstill⟩
  · intro k r hk
    obtain ⟨hindex, hle, hlt, hcount⟩ := hr.interval k r hk
    exact ⟨hindex, hle, by rw [hcalls, List.length_append]; omega, hcount⟩
  · exact hr.ordered
  · rw [hreq, List.forall_mem_append, List.forall_mem_singleton]
    refine ⟨hr.closed, fun p hp r hmem hcov ↦ ?_⟩
    exact absurd hcov (h.outside p (List.mem_of_mem_head? hp) r hmem)
  · intro pre s post hsplit
    obtain ⟨-, hbad⟩ | ⟨post', hpost⟩ := concat_eq_split hsplit
    · cases hbad
    · rw [hreq, List.forall_mem_append, List.forall_mem_singleton]
      refine ⟨hr.parent pre s post' hpost, fun _ p hp ↦ ?_⟩
      rcases Nat.lt_or_ge p s.firstCallIndex with hlt | hge
      · exact Or.inr ((h.still pre s post' hpost).2 p (List.mem_of_mem_head? hp) hlt)
      · exact Or.inl hge
  · intro i call hi
    obtain hi | ⟨rfl, rfl⟩ := getElem?_concat_eq_some.mp hi
    · exact hr.marked i call hi
    · refine ⟨fun k ↦ ⟨fun hbad ↦ (by cases hbad), ?_⟩, rfl⟩
      rintro ⟨r, hk, hcov⟩
      have := (hr.of_mem (List.mem_of_getElem? hk)).2
      have := hcov.2
      omega
  · intro i call hi n
    obtain hi | ⟨rfl, rfl⟩ := getElem?_concat_eq_some.mp hi
    · exact hr.span i call hi n
    · refine ⟨fun hbad ↦ (by cases hbad), ?_⟩
      rintro ⟨r, hmem, hfirst, -⟩
      have := hr.of_mem hmem
      omega
  · rw [hcalls, List.filterMap_append, hr.spans]
    exact List.append_nil _
  · rw [hcalls, List.countP_append, hr.total]
    rfl

/-- What is recorded of rollbacks in a call. -/
def SemanticCall.rollback (call : SemanticCall) : Option ℕ × Bool × Option ℕ :=
  (call.rollbackRegion, call.forcedRollback, call.rollbackSpan)

/-- A message that neither makes a call nor finds a region. -/
theorem RegionRecords.keep (h : RegionRecords t) {t' : SemanticTransaction}
    (hreq : t'.requests = t.requests)
    (hroll : t'.calls.map SemanticCall.rollback = t.calls.map SemanticCall.rollback)
    (hregions : t'.rollbackRegions = t.rollbackRegions)
    (hmsg : ∀ pre s post, t'.messages = pre ++ .snapshot s :: post →
      (∃ post', t.messages = pre ++ .snapshot s :: post') ∨
        ∀ q ∈ t.requests, q.index < s.firstCallIndex) : RegionRecords t' := by
  have hlen : t'.calls.length = t.calls.length := by
    rw [← length_requests, ← length_requests, hreq]
  have hsame : ∀ (i : ℕ) (call' : SemanticCall), t'.calls[i]? = some call' →
      ∃ call, t.calls[i]? = some call ∧ call.rollback = call'.rollback := by
    intro i call' hi
    have hview : (t'.calls.map SemanticCall.rollback)[i]? = some call'.rollback := by
      rw [List.getElem?_map, hi, Option.map_some]
    rw [hroll, List.getElem?_map] at hview
    exact Option.map_eq_some_iff.mp hview
  refine ⟨?_, ?_, ?_, ?_, ?_, ?_, ?_, ?_⟩
  · rw [hregions, hlen]
    exact h.interval
  · rw [hregions]
    exact h.ordered
  · rw [hreq, hregions]
    exact h.closed
  · intro pre s post hsplit q hq hle
    rw [hreq] at hq
    rcases hmsg pre s post hsplit with ⟨post', hpost⟩ | hnew
    · exact h.parent pre s post' hpost q hq hle
    · have := hnew q hq
      omega
  · intro i call' hi
    obtain ⟨call, hcall, heq⟩ := hsame i call' hi
    simp only [SemanticCall.rollback, Prod.mk.injEq] at heq
    rw [← heq.1, ← heq.2.1, hregions]
    exact h.marked i call hcall
  · intro i call' hi
    obtain ⟨call, hcall, heq⟩ := hsame i call' hi
    simp only [SemanticCall.rollback, Prod.mk.injEq] at heq
    rw [← heq.2.2, hregions]
    exact h.span i call hcall
  · have hspan := congrArg (List.filterMap fun x ↦ x.2.2) hroll
    rw [List.filterMap_map, List.filterMap_map] at hspan
    rw [hregions, ← h.spans]
    exact hspan
  · have htotal := congrArg (List.countP fun x ↦ x.2.1) hroll
    rw [List.countP_map, List.countP_map] at htotal
    rw [hregions, ← h.total]
    exact htotal

/-- The call that returns was made after every open snapshot. -/
theorem Regional.firstCallIndex_le (h : Regional st t) {i : ℕ} {below : List ℕ}
    (hi : st.openCalls = i :: below) {stack : List Kind} (hstack : st.Tracks (.call :: stack))
    {s : Snapshot} (hs : s ∈ st.snapshots) : s.firstCallIndex ≤ i := by
  by_contra hlt
  -- otherwise all open calls were open at the snapshot, which is deeper than it was taken
  have hall : st.openCalls.filter (· < s.firstCallIndex) = st.openCalls := by
    rw [List.filter_eq_self]
    intro j hj
    have hsorted := h.coherent.sorted
    rw [hi, List.pairwise_cons] at hsorted
    rw [hi, List.mem_cons] at hj
    rw [decide_eq_true_eq]
    rcases hj with rfl | hj
    · omega
    · have := hsorted.1 j hj
      omega
  have hdepth : s.callDepth ≤ stack.count .call :=
    snapshotDepths_le (hstack.callDepths ▸ List.mem_map_of_mem hs)
  have hlen := hstack.openCalls
  rw [List.count_cons_self] at hlen
  have := (h.below s hs).2
  rw [hall] at this
  omega

theorem Regional.ret (h : Regional st t) (hopen : st.openCalls ≠ []) {r : ReturnFields}
    {stack : List Kind} (hstack : st.Tracks (.call :: stack))
    (htracks : ∃ stack, (st.ret t r).Tracks stack) :
    Regional (st.ret t r) (t.withReturn st r) := by
  obtain ⟨i, below, hi⟩ := List.exists_cons_of_ne_nil hopen
  have hlen : (t.withReturn st r).calls.length = t.calls.length := by
    simp [SemanticTransaction.withReturn]
  have htail : (st.ret t r).openCalls = below := by
    rw [State.ret, State.record, hi]
    rfl
  have hsub : ∀ j ∈ below, j ∈ st.openCalls := by
    rw [hi]
    exact fun j ↦ List.mem_cons_of_mem _
  have hmsg : ∀ pre s post, (t.withReturn st r).messages = pre ++ .snapshot s :: post →
      ∃ post', t.messages = pre ++ .snapshot s :: post' := by
    intro pre s post hsplit
    obtain ⟨-, hbad⟩ | hold := concat_eq_split hsplit
    · cases hbad
    · exact hold
  refine ⟨h.coherent.ret hopen r, htracks, ?_, ?_, ?_, ?_⟩
  · rw [htail]
    exact fun j hj ↦ h.outside j (hsub j hj)
  · intro s hs
    obtain ⟨hle, hcount⟩ := h.below s hs
    have hfirst := h.firstCallIndex_le hi hstack hs
    rw [hi, List.filter_cons_of_neg (by simpa using hfirst)] at hcount
    rw [hlen, htail]
    exact ⟨hle, hcount⟩
  · intro pre s post hsplit
    obtain ⟨post', hpost⟩ := hmsg pre s post hsplit
    obtain ⟨hle, hstill⟩ := h.still pre s post' hpost
    rw [hlen, htail]
    exact ⟨hle, fun j hj ↦ hstill j (hsub j hj)⟩
  · refine h.records.keep ?_ ?_ rfl fun pre s post hsplit ↦ Or.inl (hmsg pre s post hsplit)
    · rw [SemanticTransaction.requests, SemanticTransaction.withReturn]
      refine map_modify_eq ?_ _ _
      exact fun _ ↦ rfl
    · rw [SemanticTransaction.withReturn]
      refine map_modify_eq ?_ _ _
      exact fun _ ↦ rfl

theorem Regional.snapshot (h : Regional st t) (htracks : ∃ stack, (st.snapshot t).Tracks stack) :
    Regional (st.snapshot t) (t.withSnapshot st) := by
  have hbounded : ∀ i ∈ st.openCalls, i < t.calls.length := by
    rw [← length_requests]
    exact h.coherent.bounded
  have hhere : (st.snapshotHere t).firstCallIndex = t.calls.length := rfl
  refine ⟨h.coherent.snapshot, htracks, h.outside, ?_, ?_, ?_⟩
  · refine List.forall_mem_cons.mpr ⟨⟨Nat.le_refl _, ?_⟩, h.below⟩
    refine congrArg List.length (List.filter_eq_self.mpr fun i hi ↦ ?_)
    exact decide_eq_true (hbounded i hi)
  · intro pre s post hsplit
    obtain ⟨rfl, hs⟩ | ⟨post', hpost⟩ := concat_eq_split hsplit
    · obtain rfl := SemanticMessage.snapshot.inj hs
      refine ⟨Nat.le_refl _, fun i hi _ ↦ ?_⟩
      rw [← h.coherent.openCalls]
      exact hi
    · exact h.still pre s post' hpost
  · refine h.records.keep rfl rfl rfl fun pre s post hsplit ↦ ?_
    obtain ⟨-, hs⟩ | hold := concat_eq_split hsplit
    · obtain rfl := SemanticMessage.snapshot.inj hs
      exact Or.inr fun q hq ↦ h.coherent.records.index_lt hq
    · exact Or.inl hold

/-- At a revert, only what was open at the snapshot is open. -/
theorem Regional.open_lt (h : Regional st t) {s : Snapshot} (hs : s ∈ st.snapshots)
    (hdepth : s.callDepth = st.openCalls.length) : ∀ i ∈ st.openCalls, i < s.firstCallIndex := by
  have hcount := (h.below s hs).2
  rw [hdepth, List.length_filter_eq_length_iff] at hcount
  simpa using hcount

theorem getElem?_rollBackCalls (k : ℕ) (calls : List SemanticCall) (j : ℕ) :
    (rollBackCalls k calls)[j]? = calls[j]?.map fun call ↦
      if j = 0 then { call.rollBack k with rollbackSpan := some calls.length }
      else call.rollBack k := by
  cases calls with
  | nil => rfl
  | cons first rest =>
    cases j with
    | zero => rfl
    | succ j => simp [rollBackCalls]

/-- The calls a revert rolls back carry the size of the region once. -/
theorem filterMap_rollBackCalls {k : ℕ} {calls : List SemanticCall} (hne : calls ≠ [])
    (hspan : ∀ call ∈ calls, call.rollbackSpan = none) :
    (rollBackCalls k calls).filterMap SemanticCall.rollbackSpan = [calls.length] := by
  obtain ⟨first, rest, rfl⟩ := List.exists_cons_of_ne_nil hne
  rw [List.forall_mem_cons] at hspan
  have hrest : (rest.map (SemanticCall.rollBack k)).filterMap SemanticCall.rollbackSpan = [] := by
    rw [List.filterMap_map, List.filterMap_eq_nil_iff]
    exact hspan.2
  rw [rollBackCalls, List.map_cons, List.modifyHead_cons, List.filterMap_cons]
  exact congrArg _ hrest

theorem countP_forced_rollBackCalls (k : ℕ) (calls : List SemanticCall) :
    (rollBackCalls k calls).countP SemanticCall.forcedRollback = calls.length := by
  rw [← length_rollBackCalls k calls, List.countP_eq_length]
  exact forall_rollBackCalls fun _ _ ↦ ⟨rfl, rfl⟩

section Revert

variable {s : Snapshot}

/-- No region reaches past a snapshot that can be reverted to. -/
theorem RegionRecords.last_lt (h : RegionRecords t)
    (hfree : ∀ call ∈ t.calls.drop s.firstCallIndex, call.rollbackRegion = none)
    {r : RollbackRegion} (hr : r ∈ t.rollbackRegions) : r.lastCallIndex < s.firstCallIndex := by
  by_contra hge
  obtain ⟨k, hk⟩ := List.mem_iff_getElem?.mp hr
  obtain ⟨hle, hlt⟩ := h.of_mem hr
  have hcall : t.calls[r.lastCallIndex]? = some t.calls[r.lastCallIndex] :=
    List.getElem?_eq_getElem hlt
  have hsome := ((h.marked _ _ hcall).1 k).mpr ⟨r, hk, hle, Nat.le_refl _⟩
  have hmem : t.calls[r.lastCallIndex] ∈ t.calls.drop s.firstCallIndex := by
    rw [List.mem_iff_getElem?]
    refine ⟨r.lastCallIndex - s.firstCallIndex, ?_⟩
    rw [List.getElem?_drop, Nat.add_sub_cancel' (by omega), hcall]
  rw [hfree _ hmem] at hsome
  cases hsome

/-- A call behind such a snapshot starts no region. -/
theorem RegionRecords.span_none (h : RegionRecords t)
    (hfree : ∀ call ∈ t.calls.drop s.firstCallIndex, call.rollbackRegion = none) :
    ∀ call ∈ t.calls.drop s.firstCallIndex, call.rollbackSpan = none := by
  intro call hmem
  obtain ⟨j, hj⟩ := List.mem_iff_getElem?.mp hmem
  rw [List.getElem?_drop] at hj
  cases hspan : call.rollbackSpan with
  | none => rfl
  | some n =>
    obtain ⟨r, hr, hfirst, -⟩ := (h.span _ _ hj n).mp hspan
    have := h.last_lt hfree hr
    have := (h.of_mem hr).1
    omega

/-- A call after a revert: one from before the snapshot, or one that has been rolled back. -/
theorem getElem?_withRevert (hpos : s.firstCallIndex < t.calls.length) {i : ℕ}
    {call' : SemanticCall} (hi : (t.withRevert st s).calls[i]? = some call') :
    (i < s.firstCallIndex ∧ t.calls[i]? = some call') ∨
      (s.firstCallIndex ≤ i ∧ ∃ call, t.calls[i]? = some call ∧
        call' = if i = s.firstCallIndex then
          { call.rollBack t.rollbackRegions.length with
            rollbackSpan := some (t.calls.length - s.firstCallIndex) }
        else call.rollBack t.rollbackRegions.length) := by
  rw [SemanticTransaction.withRevert, List.getElem?_append, List.length_take,
    Nat.min_eq_left (by omega)] at hi
  split at hi
  · next hlt =>
    rw [List.getElem?_take_of_lt hlt] at hi
    exact Or.inl ⟨hlt, hi⟩
  · next hge =>
    rw [getElem?_rollBackCalls, List.getElem?_drop, Nat.add_sub_cancel' (by omega),
      List.length_drop] at hi
    obtain ⟨call, hcall, rfl⟩ := Option.map_eq_some_iff.mp hi
    refine Or.inr ⟨by omega, call, hcall, ?_⟩
    by_cases h : i = s.firstCallIndex
    · rw [if_pos h, if_pos (by omega)]
      rfl
    · rw [if_neg h, if_neg (by omega)]
      rfl

theorem rollbackRegions_withRevert :
    (t.withRevert st s).rollbackRegions = t.rollbackRegions ++ [st.region t s] := rfl

theorem requests_withRevert : (t.withRevert st s).requests = t.requests := by
  rw [SemanticTransaction.requests]
  exact map_withRevert (fun _ _ ↦ rfl) (fun _ _ ↦ rfl) st t s

theorem length_withRevert (hpos : s.firstCallIndex < t.calls.length) :
    (t.withRevert st s).calls.length = t.calls.length := by
  simp [SemanticTransaction.withRevert]
  omega

/-- A snapshot in the messages after a revert was there before. -/
theorem snapshot_withRevert {pre post : List SemanticMessage} {s' : Snapshot}
    (hsplit : (t.withRevert st s).messages = pre ++ .snapshot s' :: post) :
    ∃ post', t.messages = pre ++ .snapshot s' :: post' := by
  obtain ⟨-, hbad⟩ | hold := concat_eq_split hsplit
  · cases hbad
  · exact hold

/-- The region of a revert has every call since the snapshot. -/
theorem covers_region (hpos : s.firstCallIndex < t.calls.length) (i : ℕ) :
    (st.region t s).Covers i ↔ s.firstCallIndex ≤ i ∧ i < t.calls.length := by
  simp only [RollbackRegion.Covers, State.region]
  omega

/-! What `RegionRecords` says of the calls after a revert -/

section Records

variable (hr : RegionRecords t) (hpos : s.firstCallIndex < t.calls.length)
  (hfree : ∀ call ∈ t.calls.drop s.firstCallIndex, call.rollbackRegion = none)
include hr hpos hfree

/-- A call carries the index of the region it is in. -/
theorem RegionRecords.marked_withRevert {i : ℕ} {call' : SemanticCall}
    (hi : (t.withRevert st s).calls[i]? = some call') :
    (∀ k, call'.rollbackRegion = some k ↔
      ∃ r, (t.rollbackRegions ++ [st.region t s])[k]? = some r ∧ r.Covers i) ∧
        call'.forcedRollback = call'.rollbackRegion.isSome := by
  obtain ⟨hlt, hi⟩ | ⟨hge, call, hcall, rfl⟩ := getElem?_withRevert hpos hi
  · refine ⟨fun k ↦ ((hr.marked i call' hi).1 k).trans ⟨?_, ?_⟩, (hr.marked i call' hi).2⟩
    · rintro ⟨r, hk, hcov⟩
      exact ⟨r, getElem?_concat_eq_some.mpr (Or.inl hk), hcov⟩
    · rintro ⟨r, hk, hcov⟩
      obtain hk | ⟨-, rfl⟩ := getElem?_concat_eq_some.mp hk
      · exact ⟨r, hk, hcov⟩
      · have := (covers_region hpos i).mp hcov
        omega
  · have hi := (List.getElem?_eq_some_iff.mp hcall).1
    have hmark : (if i = s.firstCallIndex then
        { call.rollBack t.rollbackRegions.length with
          rollbackSpan := some (t.calls.length - s.firstCallIndex) }
      else call.rollBack t.rollbackRegions.length).rollbackRegion =
        some t.rollbackRegions.length := by split <;> rfl
    refine ⟨fun k ↦ ?_, by rw [hmark]; split <;> rfl⟩
    rw [hmark, Option.some_inj]
    constructor
    · rintro rfl
      exact ⟨_, getElem?_concat_eq_some.mpr (Or.inr ⟨rfl, rfl⟩),
        (covers_region hpos i).mpr ⟨hge, hi⟩⟩
    · rintro ⟨r, hk, hcov⟩
      obtain hk | ⟨rfl, -⟩ := getElem?_concat_eq_some.mp hk
      · have := hr.last_lt hfree (List.mem_of_getElem? hk)
        have := hcov.2
        omega
      · rfl

/-- The first call of a region carries its size. -/
theorem RegionRecords.span_withRevert {i : ℕ} {call' : SemanticCall}
    (hi : (t.withRevert st s).calls[i]? = some call') (n : ℕ) :
    call'.rollbackSpan = some n ↔
      ∃ r ∈ t.rollbackRegions ++ [st.region t s], r.firstCallIndex = i ∧ r.callCount = n := by
  have hnew : (st.region t s).firstCallIndex = s.firstCallIndex := rfl
  simp only [List.mem_append, List.mem_singleton, or_and_right, exists_or, exists_eq_left, hnew]
  obtain ⟨hlt, hi⟩ | ⟨hge, call, hcall, rfl⟩ := getElem?_withRevert hpos hi
  · rw [hr.span i call' hi n]
    simp [Nat.ne_of_gt hlt]
  · have hnone : ¬∃ r ∈ t.rollbackRegions, r.firstCallIndex = i ∧ r.callCount = n := by
      rintro ⟨r, hmem, hfirst, -⟩
      have := hr.last_lt hfree hmem
      have := (hr.of_mem hmem).1
      omega
    simp only [hnone, false_or]
    by_cases h : i = s.firstCallIndex
    · subst h
      rw [if_pos rfl]
      simp [State.region]
    · have hspan := hr.span_none hfree call (by
        rw [List.mem_iff_getElem?]
        exact ⟨i - s.firstCallIndex, by
          rw [List.getElem?_drop, Nat.add_sub_cancel' hge, hcall]⟩)
      rw [if_neg h]
      simp [SemanticCall.rollBack, hspan, Ne.symm h]

theorem RegionRecords.spans_withRevert :
    (t.withRevert st s).calls.filterMap SemanticCall.rollbackSpan =
      (t.rollbackRegions ++ [st.region t s]).map RollbackRegion.callCount := by
  have hspans := hr.spans
  have hdrop : (t.calls.drop s.firstCallIndex).filterMap SemanticCall.rollbackSpan = [] :=
    List.filterMap_eq_nil_iff.mpr (hr.span_none hfree)
  rw [← List.take_append_drop s.firstCallIndex t.calls, List.filterMap_append, hdrop,
    List.append_nil] at hspans
  rw [SemanticTransaction.withRevert, List.filterMap_append, hspans,
    filterMap_rollBackCalls (by simpa using hpos) (hr.span_none hfree), List.length_drop,
    List.map_append]
  rfl

omit hpos in
theorem RegionRecords.total_withRevert :
    (t.withRevert st s).calls.countP SemanticCall.forcedRollback =
      ((t.rollbackRegions ++ [st.region t s]).map RollbackRegion.callCount).sum := by
  have htotal := hr.total
  have hdrop : (t.calls.drop s.firstCallIndex).countP SemanticCall.forcedRollback = 0 := by
    rw [List.countP_eq_zero]
    intro call hmem
    obtain ⟨j, hj⟩ := List.mem_iff_getElem?.mp hmem
    rw [List.getElem?_drop] at hj
    rw [(hr.marked _ _ hj).2, hfree call hmem]
    simp
  rw [← List.take_append_drop s.firstCallIndex t.calls, List.countP_append, hdrop,
    Nat.add_zero] at htotal
  rw [SemanticTransaction.withRevert, List.countP_append, htotal, countP_forced_rollBackCalls,
    List.length_drop, List.map_append, List.sum_append_nat]
  rfl

theorem RegionRecords.revert (hcalls : CallRecords t) : RegionRecords (t.withRevert st s) where
  interval k r hk := by
    rw [length_withRevert hpos]
    obtain hk | ⟨rfl, rfl⟩ := getElem?_concat_eq_some.mp hk
    · exact hr.interval k r hk
    · simp only [State.region, true_and]
      omega
  ordered := by
    rw [rollbackRegions_withRevert, List.pairwise_append]
    refine ⟨hr.ordered, List.pairwise_singleton _ _, fun r hmem r' hr' ↦ ?_⟩
    rw [List.mem_singleton.mp hr']
    exact hr.last_lt hfree hmem
  closed q hq p hp := by
    rw [requests_withRevert] at hq
    rw [rollbackRegions_withRevert, List.forall_mem_append, List.forall_mem_singleton,
      covers_region hpos, covers_region hpos]
    have hlt := hcalls.parent_lt hq hp
    have := hcalls.index_lt hq
    exact ⟨hr.closed q hq p hp, by omega⟩
  parent pre s' post hsplit := by
    obtain ⟨post', hpost⟩ := snapshot_withRevert hsplit
    rw [requests_withRevert]
    exact hr.parent pre s' post' hpost
  marked _ _ hi := hr.marked_withRevert hpos hfree hi
  span _ _ hi n := hr.span_withRevert hpos hfree hi n
  spans := hr.spans_withRevert hpos hfree
  total := hr.total_withRevert hfree

end Records

theorem Regional.revert (h : Regional st t) {rest : List Snapshot}
    (hs : st.snapshots = s :: rest) (hdepth : s.callDepth = st.openCalls.length)
    (hpos : s.firstCallIndex < t.calls.length)
    (hfree : ∀ call ∈ t.calls.drop s.firstCallIndex, call.rollbackRegion = none)
    (htracks : ∃ stack, (st.revert t s).Tracks stack) :
    Regional (st.revert t s) (t.withRevert st s) where
  coherent := h.coherent.revert s
  tracks := htracks
  outside i hi := by
    rw [rollbackRegions_withRevert, List.forall_mem_append, List.forall_mem_singleton,
      covers_region hpos]
    have hmem : s ∈ st.snapshots := by
      rw [hs]
      exact List.mem_cons_self ..
    have := h.open_lt hmem hdepth i hi
    exact ⟨h.outside i hi, by omega⟩
  below s' hs' := by
    have hmem : s' ∈ rest := by simpa [State.revert, State.record, hs] using hs'
    rw [length_withRevert hpos]
    exact h.below s' (by rw [hs]; exact List.mem_cons_of_mem _ hmem)
  still pre s' post hsplit := by
    obtain ⟨post', hpost⟩ := snapshot_withRevert hsplit
    rw [length_withRevert hpos]
    exact h.still pre s' post' hpost
  records := h.records.revert hpos hfree h.coherent.records

end Revert

end Steps

theorem State.Idle.regional {st : State} (h : st.Idle) (origin : ℕ) (txData : Bytes) :
    Regional (st.initiate origin txData) (initiated origin txData) := by
  have hcoherent := h.coherent origin txData
  have hopen : (st.initiate origin txData).openCalls = [] := h.openCalls
  have hsnap : (st.initiate origin txData).snapshots = [] := h.snapshots
  have hno : ∀ pre s post, (initiated origin txData).messages ≠ pre ++ .snapshot s :: post := by
    intro pre s post hsplit
    obtain ⟨-, hbad⟩ | ⟨post', hbad⟩ := concat_eq_split (l := []) hsplit
    · cases hbad
    · exact absurd (congrArg List.length hbad) (by simp)
  refine ⟨hcoherent, ⟨_, h.initiate origin txData⟩, ?_, ?_, ?_, ⟨?_, ?_, ?_, ?_, ?_, ?_, rfl, rfl⟩⟩
  · simp [hopen]
  · simp [hsnap]
  · exact fun pre s post hsplit ↦ absurd hsplit (hno pre s post)
  · simp [initiated]
  · simp [initiated]
  · simp [initiated]
  · exact fun pre s post hsplit ↦ absurd hsplit (hno pre s post)
  · simp [initiated]
  · simp [initiated]

theorem Step.regional {st st' : State} {t t' : SemanticTransaction} {b : Bracket Opening Closing}
    (hcur : st.current = some t) (h : Regional st t) (hstep : Step st (.bracket b) st')
    (hcur' : st'.current = some t') : Regional st' t' := by
  obtain ⟨stack, hstack⟩ := h.tracks
  obtain ⟨stack', -, hstack'⟩ := hstep.tracks hstack
  cases hstep with
  | call hcur₁ =>
    obtain rfl := Option.some_inj.mp (hcur.symm.trans hcur₁)
    obtain rfl := Option.some_inj.mp hcur'
    exact h.call ⟨_, hstack'⟩
  | ret hcur₁ hopen hctx hsnap =>
    obtain rfl := Option.some_inj.mp (hcur.symm.trans hcur₁)
    obtain rfl := Option.some_inj.mp hcur'
    obtain ⟨below, rfl⟩ := hstack.exists_call hopen hsnap
    exact h.ret hopen hstack ⟨_, hstack'⟩
  | snapshot hcur₁ =>
    obtain rfl := Option.some_inj.mp (hcur.symm.trans hcur₁)
    obtain rfl := Option.some_inj.mp hcur'
    exact h.snapshot ⟨_, hstack'⟩
  | revert hcur₁ hs hctx hdepth hpos hfree =>
    obtain rfl := Option.some_inj.mp (hcur.symm.trans hcur₁)
    obtain rfl := Option.some_inj.mp hcur'
    exact h.revert hs hdepth hpos hfree ⟨_, hstack'⟩

/-! ## Whole transactions -/

def SemanticMessage.snapshot? : SemanticMessage → Option Snapshot
  | .snapshot s => some s
  | _ => none

theorem snapshot?_eq_some {m : SemanticMessage} {s : Snapshot} (h : m.snapshot? = some s) :
    m = .snapshot s := by
  cases m with
  | snapshot s' =>
    obtain rfl := Option.some_inj.mp h
    rfl
  | initiate => cases h
  | call => cases h
  | ret => cases h
  | revert => cases h
  | finish => cases h

/-- A body without regions lists no snapshot. -/
theorem Body.snapshots_log_of_flat {f : Body} (h : f.regionCount = 0) (s : Scope) :
    (Body.log s f).filterMap SemanticMessage.snapshot? = [] ∧ Body.regions s f = [] := by
  induction f generalizing s with
  | nil => exact ⟨rfl, rfl⟩
  | node k a body b rest ihb ihr =>
    cases k with
    | call =>
      rw [Body.regionCount, Nat.add_eq_zero_iff] at h
      rw [Body.log, Body.regions, List.filterMap_cons_none rfl, List.filterMap_append,
        List.filterMap_cons_none rfl, (ihb h.1 _).1, (ihr h.2 _).1, (ihb h.1 _).2, (ihr h.2 _).2]
      exact ⟨rfl, rfl⟩
    | region =>
      rw [Body.regionCount] at h
      omega

/-- The regions are those between a snapshot and its revert, in the order of the snapshots. -/
theorem Body.snapshots_log {f : Body} {depth : ℕ} (h : f.Fits depth) (s : Scope) :
    ((Body.log s f).filterMap SemanticMessage.snapshot?).map Snapshot.firstCallIndex =
      (Body.regions s f).map RollbackRegion.firstCallIndex := by
  induction f generalizing depth s with
  | nil => rfl
  | node k a body b rest ihb ihr =>
    cases k with
    | call =>
      obtain ⟨-, hbody, hrest⟩ := h
      rw [Body.log, Body.regions, List.filterMap_cons_none rfl, List.filterMap_append,
        List.filterMap_cons_none rfl, List.map_append, List.map_append, ihb hbody, ihr hrest]
    | region =>
      obtain ⟨⟨-, hflat⟩, hbody, hrest⟩ := h
      obtain ⟨hlog, hregions⟩ := Body.snapshots_log_of_flat hflat s
      have hhead : SemanticMessage.snapshot? (.snapshot s.snapshot) = some s.snapshot := rfl
      rw [Body.log, Body.regions, List.filterMap_cons_some hhead, List.filterMap_append,
        List.filterMap_cons_none rfl, hlog, hregions, List.nil_append, List.nil_append,
        List.map_cons, List.map_cons, ihr hrest]
      rfl

/-- Where a filtered list has an entry, the list has it too. -/
theorem exists_split_of_filterMap {α β : Type} {f : α → Option β} {l : List α} {k : ℕ} {b : β}
    (h : (l.filterMap f)[k]? = some b) :
    ∃ pre a post, l = pre ++ a :: post ∧ f a = some b ∧ (pre.filterMap f).length = k := by
  induction l generalizing k with
  | nil => simp at h
  | cons x l ih =>
    cases hx : f x with
    | none =>
      rw [List.filterMap_cons_none hx] at h
      obtain ⟨pre, a, post, rfl, ha, hlen⟩ := ih h
      exact ⟨x :: pre, a, post, rfl, ha, by rw [List.filterMap_cons_none hx, hlen]⟩
    | some y =>
      rw [List.filterMap_cons_some hx] at h
      cases k with
      | zero =>
        obtain rfl : y = b := by simpa using h
        exact ⟨[], x, l, rfl, hx, rfl⟩
      | succ k =>
        obtain ⟨pre, a, post, rfl, ha, hlen⟩ := ih h
        exact ⟨x :: pre, a, post, rfl, ha, by rw [List.filterMap_cons_some hx, List.length_cons, hlen]⟩

/-- Call `i` was made under call `p`. -/
def MadeUnder (tx : FinishedTransaction) (i p : ℕ) : Prop :=
  ∃ call, tx.calls[i]? = some call ∧ call.parentIndex = some p

/-- What the regions of a finished transaction are. -/
structure RegionFacts (tx : FinishedTransaction) : Prop where
  /-- Nonempty intervals of call indices. -/
  interval : ∀ (k : ℕ) (r : RollbackRegion), tx.rollbackRegions[k]? = some r →
    r.index = k ∧ r.firstCallIndex ≤ r.lastCallIndex ∧ r.lastCallIndex < tx.calls.length ∧
      r.callCount = r.lastCallIndex + 1 - r.firstCallIndex
  /-- Disjoint, and in increasing order. -/
  ordered : tx.rollbackRegions.Pairwise fun r r' ↦ r.lastCallIndex < r'.firstCallIndex
  /-- Closed under descendants at any depth. -/
  closed : ∀ r ∈ tx.rollbackRegions, ∀ i p, Relation.TransGen (MadeUnder tx) i p →
    r.Covers p → r.Covers i
  /-- A parent outside of the region was open at its snapshot. -/
  parent : ∀ (k : ℕ) (r : RollbackRegion), tx.rollbackRegions[k]? = some r → ∃ pre s post,
    tx.messages = pre ++ .snapshot s :: post ∧
      (pre.filterMap SemanticMessage.snapshot?).length = k ∧
      s.firstCallIndex = r.firstCallIndex ∧
      ∀ i p, r.Covers i → MadeUnder tx i p → r.Covers p ∨ p ∈ openAfter pre
  /-- The calls of a region, and no others, say that they belong to it. -/
  marked : ∀ (i : ℕ) (call : SemanticCall), tx.calls[i]? = some call →
    (∀ k, (call.forcedRollback = true ∧ call.rollbackRegion = some k) ↔
      ∃ r, tx.rollbackRegions[k]? = some r ∧ r.Covers i) ∧
    call.forcedRollback = call.rollbackRegion.isSome
  /-- The first call of a region carries its size. -/
  span : ∀ r ∈ tx.rollbackRegions, ∃ call, tx.calls[r.firstCallIndex]? = some call ∧
    call.rollbackSpan = some r.callCount
  total : tx.forcedRollbackCallCount = (tx.calls.filterMap SemanticCall.rollbackSpan).sum

/-- What `Finish` can say of the regions without a look at their snapshots. -/
theorem Regional.finish {st : State} {t : SemanticTransaction} (h : Regional st t) :
    CallRecords t.finish.toSemanticTransaction ∧ RegionRecords t.finish.toSemanticTransaction := by
  have h' : Coherent st t.finish.toSemanticTransaction :=
    h.coherent.bookkeeping rfl rfl rfl rfl rfl rfl (fun _ ↦ rfl) rfl rfl
  refine ⟨h'.records, h.records.keep rfl rfl rfl fun pre s post hsplit ↦ Or.inl ?_⟩
  obtain ⟨-, hbad⟩ | hold := concat_eq_split hsplit
  · cases hbad
  · exact hold

/-- **Rollback regions are sound.**  In every transaction of every stream that is accepted, the
regions are disjoint intervals of calls, closed under descendants, left upwards only to calls that
were open at the snapshot, and marked exactly where they are. -/
theorem decodeNativeBlobs_regions : ∀ blobs expectedChainId r,
    decodeNativeBlobs blobs expectedChainId = .ok r →
      ∀ tx ∈ r.semanticTransactions, RegionFacts tx := by
  intro blobs expectedChainId r hr
  obtain ⟨c, padding, hc, -, rfl⟩ := decodeNativeBlobs_eq_ok.mp hr
  refine List.forall_mem_map.mpr fun tx htx ↦ ?_
  obtain ⟨hcalls, hregions⟩ := c.finished (P := Regional)
    (Q := fun tx ↦ CallRecords tx.toSemanticTransaction ∧ RegionRecords tx.toSemanticTransaction)
    (fun _ _ h ↦ h.regional _ _) (fun hcur h hstep hcur' ↦ hstep.regional hcur h hcur')
    (fun _ h _ ↦ h.finish) tx htx
  have hsnapshots : (tx.record.messages.filterMap SemanticMessage.snapshot?).map
      Snapshot.firstCallIndex = tx.record.rollbackRegions.map RollbackRegion.firstCallIndex := by
    have h := Body.snapshots_log (c.fits tx htx).body tx.scope
    have hmsg : tx.record.messages =
        tx.initiated :: (Body.log tx.scope tx.body ++ [.finish]) := rfl
    have hend : [SemanticMessage.finish].filterMap SemanticMessage.snapshot? = [] := rfl
    rw [hmsg, List.filterMap_cons_none rfl, List.filterMap_append, hend, List.append_nil, h]
    rfl
  have hrequest : ∀ (i : ℕ) (call : SemanticCall), tx.record.calls[i]? = some call →
      call.toCallRequest ∈ tx.record.requests ∧ call.index = i := by
    intro i call hi
    have hq : tx.record.requests[i]? = some call.toCallRequest := by
      rw [SemanticTransaction.requests, List.getElem?_map, hi, Option.map_some]
    exact ⟨List.mem_of_getElem? hq, hcalls.index i _ hq⟩
  refine ⟨hregions.interval, hregions.ordered, ?_, ?_, ?_, ?_, ?_⟩
  · intro r hmem i p hunder
    induction hunder with
    | @single p h =>
      obtain ⟨call, hi, hp⟩ := h
      obtain ⟨hq, hindex⟩ := hrequest i call hi
      rw [← hindex]
      exact hregions.closed _ hq p hp r hmem
    | @tail j p _ h ih =>
      obtain ⟨call, hj, hp⟩ := h
      obtain ⟨hq, hindex⟩ := hrequest j call hj
      refine fun hcov ↦ ih ?_
      rw [← hindex]
      exact hregions.closed _ hq p hp r hmem hcov
  · intro k r hk
    have hfirst := congrArg (·[k]?) hsnapshots
    simp only [List.getElem?_map, hk, Option.map_some] at hfirst
    obtain ⟨s, hs, hfirst⟩ := Option.map_eq_some_iff.mp hfirst
    obtain ⟨pre, m, post, hsplit, hm, hlen⟩ := exists_split_of_filterMap hs
    obtain rfl := snapshot?_eq_some hm
    refine ⟨pre, s, post, hsplit, hlen, hfirst, ?_⟩
    rintro i p hcov ⟨call, hi, hp⟩
    obtain ⟨hq, hindex⟩ := hrequest i call hi
    have hlt := hcalls.parent_lt hq hp
    refine (hregions.parent pre s post hsplit _ hq (by rw [hindex, hfirst]; exact hcov.1) p hp).imp
      (fun hle ↦ ⟨by rwa [← hfirst], ?_⟩) id
    have := hcov.2
    rw [hindex] at hlt
    omega
  · intro i call hi
    obtain ⟨hmark, hforced⟩ := hregions.marked i call hi
    refine ⟨fun k ↦ ?_, hforced⟩
    rw [← hmark k, hforced]
    constructor
    · exact And.right
    · intro h
      exact ⟨by rw [h]; rfl, h⟩
  · intro r hmem
    have hlt : r.firstCallIndex < tx.record.calls.length := by
      have := hregions.of_mem hmem
      exact Nat.lt_of_le_of_lt this.1 this.2
    have hcall := List.getElem?_eq_getElem hlt
    exact ⟨_, hcall, (hregions.span _ _ hcall _).mpr ⟨r, hmem, rfl, rfl⟩⟩
  · rw [hregions.spans, ← hregions.total]
    rfl

/-! ## A stream with a region -/

/-- A call to another chain, without data. -/
def sampleCall : CallFields where
  mode := .staticCall
  target := 7
  fromAddress := List.replicate 20 1
  toAddress := List.replicate 20 2
  value := 0
  gas := 0
  data := []

def sampleCallBytes : Bytes :=
  5 :: ([7, 0, 0, 0, 0, 0, 0, 0] ++ (List.replicate 20 1 ++ (List.replicate 20 2 ++ ([] ++
    ([0, 0, 0, 0, 0, 0, 0, 0] ++ [0])))))

/-- A transaction whose only call makes another one and is rolled back with it. -/
def sampleTransaction : NativeTransaction where
  origin := 5
  txData := []
  body := .node .region () (.node .call sampleCall (.node .call sampleCall .nil ⟨.returnFail, []⟩ .nil)
    ⟨.returnSuccess, []⟩ .nil) () .nil

theorem sampleTransaction_fits : sampleTransaction.Fits :=
  ⟨⟨by decide, ⟨⟨by decide, ⟨⟨by decide, trivial, trivial⟩, trivial⟩⟩, trivial⟩⟩, by decide⟩

def sampleContent : NativeContent where
  chainId := 5
  payload := [0x00, 0xC3, 0xC0, 0xC0, 0xC0]
  operations := .envelope ⟨0, "legacy-calldata", 5, 0, [], 0, [], 0, [], [], []⟩
  transactions := [sampleTransaction]
  decodes := by decide +kernel
  fits := List.forall_mem_singleton.2 sampleTransaction_fits

def sampleBody : Bytes :=
  [3, 5, 0, 0, 0, 0, 0, 0, 0, 0] ++ ([8] ++ (sampleCallBytes ++ (sampleCallBytes ++ ([7, 0] ++ ([6, 0] ++
    ([9] ++ ([10] ++ [])))))))

/-- What its only blob carries before the zeros. -/
def sampleStream : Bytes :=
  [0, 2] ++ ([5, 0, 0, 0, 0, 0, 0, 0] ++ ([5, 0x00, 0xC3, 0xC0, 0xC0, 0xC0] ++ (sampleBody ++ [1])))

def samplePadding : ℕ := 31 * 4096 - sampleStream.length

theorem spells_nil : SpellsBytes [] [0] := ⟨[0], .last (by decide) (by decide) nofun, rfl⟩

theorem spells_sampleCall : (Message.call sampleCall).Spells sampleCallBytes :=
  ⟨_, ⟨[7, 0, 0, 0, 0, 0, 0, 0], [], [0, 0, 0, 0, 0, 0, 0, 0], [0], ⟨rfl, rfl⟩, rfl, rfl, ⟨rfl, rfl⟩, ⟨rfl, rfl⟩,
    spells_nil, rfl⟩, rfl⟩

theorem spells_sampleBody : SpellsAll sampleContent.messages sampleBody := by
  refine .cons ⟨_, ⟨[5, 0, 0, 0, 0, 0, 0, 0], [0], ⟨rfl, rfl⟩, spells_nil, rfl⟩, rfl⟩ (.cons ⟨_, rfl, rfl⟩ ?_)
  refine .cons spells_sampleCall (.cons spells_sampleCall (.cons ⟨_, spells_nil, rfl⟩ ?_))
  exact .cons ⟨_, spells_nil, rfl⟩ (.cons ⟨_, rfl, rfl⟩ (.cons ⟨_, rfl, rfl⟩ .nil))

theorem sampleContent_spells :
    sampleContent.Spells samplePadding (sampleStream ++ List.replicate samplePadding 0) := by
  refine ⟨[5, 0, 0, 0, 0, 0, 0, 0], [5, 0x00, 0xC3, 0xC0, 0xC0, 0xC0], sampleBody, ⟨rfl, rfl⟩,
    ⟨[5], .last (by decide) (by decide) nofun, rfl⟩, spells_sampleBody, ?_⟩
  simp only [sampleStream, List.append_assoc]

theorem decodeNativeBlobs_regions_sample : RegionFacts sampleTransaction.record := by
  have hlength : (sampleStream ++ List.replicate samplePadding 0).length = 31 * 4096 := by
    rw [List.length_append, List.length_replicate, samplePadding]
    decide +kernel
  exact decodeNativeBlobs_regions _ 5 _
    (decodeNativeBlobs_eq_ok.2 ⟨sampleContent, _, sampleContent.written_packBlob sampleContent_spells hlength, rfl, rfl⟩)
    _ (List.mem_singleton_self _)

end BlobDecoder
