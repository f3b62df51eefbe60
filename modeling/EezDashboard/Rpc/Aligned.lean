import Mathlib.Data.List.Forall2
import Mathlib.Data.List.Perm.Subperm
import Mathlib.Data.List.Range
import EezDashboard.Rpc.Batch

/-!
# Batches stay aligned

Whatever the server answers, each position of the list that is returned has a result of its own request: of the
reply with its id in a batch whose ids are those of the requests, or of the response to its single request.
-/

set_option autoImplicit false

namespace Rpc

variable {P R : Type} {requests : List (Request P)} {replies : List (Reply R)} {response : Response R}
  {expected : List ℕ} {acc out : List (ℕ × R)} {params : List P} {s s' : Call P R} {log log' : List (Exchange P R)}
  {p : P} {r : R} {n : ℕ} {reply : Reply R}

/-! ## Replies -/

/-- What a reply says: its version, its id and its result. -/
def Reply.read (reply : Reply R) : Bool × Option ℕ × Option R := (reply.jsonrpc, reply.id, (Rpc.result reply).toOption)

/-- There is one reply for each request, with its id and the result `value` for it, and no other. -/
structure Matches (requests : List (Request P)) (replies : List (Reply R)) (value : ℕ → Option R) : Prop where
  some : ∀ q ∈ requests, (value q.id).isSome
  perm : (replies.map Reply.read).Perm (requests.map fun q ↦ (true, Option.some q.id, value q.id))

theorem result_toOption : (result reply).toOption = some r ↔ result reply = .ok r := by
  cases result reply <;> simp [Except.toOption]

/-- One turn of the loop. -/
theorem collect_cons : collect expected acc (reply :: replies) = .ok out ↔
    ∃ i r, reply.read = (true, some i, some r) ∧ (i ∈ expected ∧ i ∉ acc.map Prod.fst) ∧
      collect expected (acc ++ [(i, r)]) replies = .ok out := by
  rw [collect]
  simp only [Reply.read, Prod.mk.injEq, result_toOption]
  cases reply.id with
  | none => exact ⟨fun h ↦ (Except.throw_ne_ok h).elim, fun ⟨_, _, ⟨_, h, _⟩, _⟩ ↦ by cases h⟩
  | some i =>
    dsimp only
    rw [Except.ite_eq_ok, Except.bind_eq_ok]
    constructor
    · rintro (⟨⟨hjson, hexpected, hnew⟩, r, hr, hrest⟩ | ⟨-, h⟩)
      · exact ⟨i, r, ⟨hjson, rfl, hr⟩, ⟨hexpected, hnew⟩, hrest⟩
      · exact (Except.throw_ne_ok h).elim
    · rintro ⟨i', r, ⟨hjson, hi, hr⟩, ⟨hexpected, hnew⟩, hrest⟩
      obtain rfl := Option.some.inj hi
      exact .inl ⟨⟨hjson, hexpected, hnew⟩, r, hr, hrest⟩

/-- The loop takes replies with new ids that are expected, and a result. -/
theorem collect_eq_ok : collect expected acc replies = .ok out ↔
    ∃ pairs : List (ℕ × R), out = acc ++ pairs ∧
      replies.map Reply.read = pairs.map (fun pair ↦ (true, some pair.1, some pair.2)) ∧
      (∀ i ∈ pairs.map Prod.fst, i ∈ expected ∧ i ∉ acc.map Prod.fst) ∧ (pairs.map Prod.fst).Nodup := by
  induction replies generalizing acc with
  | nil =>
    rw [collect]
    constructor
    · intro h
      exact ⟨[], by rw [List.append_nil]; exact (Except.ok.inj h).symm, rfl, nofun, List.nodup_nil⟩
    · rintro ⟨pairs, rfl, hread, -⟩
      rw [List.map_eq_nil_iff.1 hread.symm, List.append_nil]
      rfl
  | cons reply rest ih =>
    rw [collect_cons]
    constructor
    · rintro ⟨i, r, hread, hi, hrest⟩
      obtain ⟨pairs, rfl, hreads, hall, hnodup⟩ := ih.1 hrest
      have hnot : i ∉ pairs.map Prod.fst := fun hmem ↦ (hall i hmem).2 (by simp)
      refine ⟨(i, r) :: pairs, by simp, by rw [List.map_cons, List.map_cons, hread, hreads], ?_, ?_⟩
      · refine List.forall_mem_cons.2 ⟨hi, fun j hj ↦ ⟨(hall j hj).1, fun hacc ↦ (hall j hj).2 ?_⟩⟩
        rw [List.map_append]
        exact List.mem_append_left _ hacc
      · exact List.nodup_cons.2 ⟨hnot, hnodup⟩
    · rintro ⟨pairs, rfl, hreads, hall, hnodup⟩
      cases pairs with
      | nil => cases hreads
      | cons pair pairs =>
        obtain ⟨i, r⟩ := pair
        obtain ⟨hread, hreads⟩ := List.cons.inj hreads
        obtain ⟨hi, hall⟩ := List.forall_mem_cons.1 hall
        obtain ⟨hnot, hnodup⟩ := List.nodup_cons.1 hnodup
        refine ⟨i, r, hread, hi, ih.2 ⟨pairs, by simp, hreads, fun j hj ↦ ⟨(hall j hj).1, ?_⟩, hnodup⟩⟩
        rw [List.map_append, List.mem_append]
        rintro (hacc | hnew)
        · exact (hall j hj).2 hacc
        · rw [List.mem_singleton.1 hnew] at hj
          exact hnot hj

theorem lookup_eq_some {pairs : List (ℕ × R)} (hnodup : (pairs.map Prod.fst).Nodup) {i : ℕ} :
    pairs.lookup i = some r ↔ (i, r) ∈ pairs := by
  induction pairs with
  | nil => simp
  | cons pair pairs ih =>
    obtain ⟨j, b⟩ := pair
    obtain ⟨hnot, hnodup⟩ := List.nodup_cons.1 hnodup
    rw [List.lookup_cons, List.mem_cons]
    by_cases hij : i = j
    · subst hij
      simp only [beq_self_eq_true, Prod.mk.injEq, true_and, Option.some.injEq]
      refine ⟨fun h ↦ .inl h.symm, fun h ↦ h.elim Eq.symm fun hmem ↦ absurd (List.mem_map_of_mem hmem) hnot⟩
    · simp only [beq_eq_false_iff_ne.2 hij, Prod.mk.injEq, hij, false_and, false_or]
      exact ih hnodup

theorem exists_pairs {l : List (Bool × Option ℕ × Option R)}
    (h : ∀ x ∈ l, ∃ pair : ℕ × R, x = (true, some pair.1, some pair.2)) :
    ∃ pairs : List (ℕ × R), l = pairs.map fun pair ↦ (true, some pair.1, some pair.2) := by
  induction l with
  | nil => exact ⟨[], rfl⟩
  | cons x l ih =>
    obtain ⟨⟨pair, rfl⟩, hl⟩ := List.forall_mem_cons.1 h
    obtain ⟨pairs, rfl⟩ := ih hl
    exact ⟨pair :: pairs, rfl⟩

/-- **A batch is received when there is one reply for each request**, in any order: replies that are missing, too
many, repeated or for another request make it throw, and so do errors. -/
theorem receive_eq_ok {results : List (Option R)} (hids : (requests.map Request.id).Nodup) :
    receive requests replies = .ok results ↔
      ∃ value, Matches requests replies value ∧ results = requests.map fun q ↦ value q.id := by
  rw [receive, Except.ite_eq_ok, Except.bind_eq_ok]
  constructor
  · rintro (⟨hlength, pairs, hcollect, hresults⟩ | ⟨-, h⟩)
    · obtain ⟨pairs, rfl, hread, hall, hnodup⟩ := collect_eq_ok.1 hcollect
      have hlength' : (requests.map Request.id).length ≤ (pairs.map Prod.fst).length := by
        have := congrArg List.length hread
        simp only [List.length_map] at this ⊢
        omega
      have hperm : (pairs.map Prod.fst).Perm (requests.map Request.id) :=
        (List.subperm_of_subset hnodup fun i hi ↦ (hall i hi).1).perm_of_length_le hlength'
      refine ⟨fun i ↦ pairs.lookup i, ⟨fun q hq ↦ ?_, ?_⟩, (Except.pure_eq_ok.1 hresults).symm⟩
      · obtain ⟨pair, hpair, hid⟩ := List.mem_map.1 (hperm.mem_iff.2 (List.mem_map_of_mem hq))
        exact Option.isSome_iff_exists.2 ⟨pair.2, (lookup_eq_some hnodup).2 (hid ▸ hpair)⟩
      · have hpairs : pairs.map (fun pair ↦ (true, some pair.1, some pair.2)) =
            (pairs.map Prod.fst).map fun i ↦ (true, some i, pairs.lookup i) := by
          rw [List.map_map]
          refine List.map_congr_left fun pair hpair ↦ ?_
          rw [Function.comp_apply, (lookup_eq_some hnodup).2 hpair]
        rw [hread, hpairs]
        refine (hperm.map _).trans (List.Perm.of_eq ?_)
        rw [List.map_map]
        rfl
    · exact (Except.throw_ne_ok h).elim
  · rintro ⟨value, hmatches, rfl⟩
    have hform : ∀ x ∈ replies.map Reply.read, ∃ pair : ℕ × R, x = (true, some pair.1, some pair.2) := by
      intro x hx
      obtain ⟨q, hq, rfl⟩ := List.mem_map.1 (hmatches.perm.mem_iff.1 hx)
      obtain ⟨r, hr⟩ := Option.isSome_iff_exists.1 (hmatches.some q hq)
      exact ⟨(q.id, r), by rw [hr]⟩
    obtain ⟨pairs, hread⟩ := exists_pairs hform
    have hperm := hmatches.perm
    rw [hread] at hperm
    have hkeys : (pairs.map Prod.fst).Perm (requests.map Request.id) := by
      have := (hperm.map fun x ↦ x.2.1).filterMap id
      simpa only [List.map_map, List.filterMap_map, Function.comp_def, id, List.filterMap_eq_map'] using this
    have hnodup := hkeys.nodup_iff.2 hids
    have hlookup : ∀ q ∈ requests, pairs.lookup q.id = value q.id := by
      intro q hq
      obtain ⟨pair, hpair, heq⟩ := List.mem_map.1 (hperm.mem_iff.2 (List.mem_map_of_mem hq))
      simp only [Prod.mk.injEq, Option.some.injEq, true_and] at heq
      rw [← heq.2, lookup_eq_some hnodup, ← heq.1]
      exact hpair
    refine .inl ⟨?_, pairs, ?_, ?_⟩
    · simpa using hmatches.perm.length_eq
    · exact collect_eq_ok.2 ⟨pairs, rfl, hread, fun i hi ↦ ⟨hkeys.mem_iff.1 hi, List.not_mem_nil⟩, hnodup⟩
    · rw [List.map_congr_left hlookup]
      rfl

/-! ## Invariants -/

/-- The result is that of the parameters' own request, in a batch or alone.  The parameters may carry their position,
so that equal parameters have requests of their own. -/
inductive Own (log : List (Exchange P R)) (p : P) (r : R) : Prop
  | batch (requests : List (Request P)) (replies : List (Reply R)) (value : ℕ → Option R) (q : Request P)
      (logged : .batch requests (.body (.array replies)) ∈ log) (nodup : (requests.map Request.id).Nodup)
      (matched : Matches requests replies value) (mem : q ∈ requests) (params : q.params = p)
      (result : value q.id = some r)
  | call (id : ℕ) (response : Response R) (logged : .call ⟨id, p⟩ response ∈ log) (result : rpc response = .ok r)

theorem Own.mono (h : Own log p r) (hsub : log ⊆ log') : Own log' p r := by
  cases h with
  | batch requests replies value q hlogged hnodup hmatched hq hp hr =>
    exact .batch requests replies value q (hsub hlogged) hnodup hmatched hq hp hr
  | call id response hlogged hr => exact .call id response (hsub hlogged) hr

/-- Each result is its own request's. -/
def Aligned (log : List (Exchange P R)) (params : List P) (results : List (Option R)) : Prop :=
  List.Forall₂ (fun p o ↦ ∃ r, o = some r ∧ Own log p r) params results

theorem Aligned.mono {results : List (Option R)} (h : Aligned log params results) (hsub : log ⊆ log') :
    Aligned log' params results :=
  h.imp fun _ _ ⟨r, hr, hown⟩ ↦ ⟨r, hr, hown.mono hsub⟩

theorem Aligned.append {params' : List P} {results results' : List (Option R)} (h : Aligned log params results)
    (h' : Aligned log params' results') : Aligned log (params ++ params') (results ++ results') := by
  induction h with
  | nil => exact h'
  | cons ho _ ih => exact .cons ho ih

/-- The requests that were posted for a chunk. -/
structure Posted (params : List P) (start : ℕ) (requests : List (Request P)) : Prop where
  lt : start < params.length
  params : requests.map Request.params = chunkOf params start
  nodup : (requests.map Request.id).Nodup

/-- The pool that asks one by one for a chunk. -/
structure Mapped (params : List P) (start : ℕ) (log : List (Exchange P R)) (pool : Pool R) : Prop where
  lt : start < params.length
  count : pool.count = (chunkOf params start).length
  valid : Pool.Valid (fun i r ↦ ∃ p, (chunkOf params start)[i]? = some p ∧ Own log p r) pool
  busy : ¬pool.Done

/-- What holds of a call at any time. -/
structure Inv (params : List P) (s : Call P R) : Prop where
  aligned : Aligned s.log (params.take s.start) s.results
  posted : ∀ requests, s.phase = .posted requests → Posted params s.start requests
  mapped : ∀ pool ids, s.phase = .mapping pool ids → Mapped params s.start s.log pool
  returned : s.phase = .returned → params.length ≤ s.start

theorem inv_begin (id : ℕ) (noBatch : Bool) : Inv params (Call.begin id noBatch : Call P R) :=
  ⟨.nil, nofun, nofun, nofun⟩

theorem requestsOf_params (id : ℕ) (chunk : List P) : (requestsOf id chunk).map Request.params = chunk := by
  rw [requestsOf, List.map_map]
  exact List.zipIdx_map_fst 0 chunk

theorem nodup_requestsOf (id : ℕ) (chunk : List P) : ((requestsOf id chunk).map Request.id).Nodup := by
  have heq : (requestsOf id chunk).map Request.id = (chunk.zipIdx.map Prod.snd).map fun i ↦ id + 1 + i := by
    rw [requestsOf, List.map_map, List.map_map]
    rfl
  rw [heq, List.zipIdx_map_snd]
  exact List.Nodup.map (fun i j h ↦ by omega) List.nodup_range'

theorem chunkOf_ne_nil {start : ℕ} (h : start < params.length) : 0 < (chunkOf params start).length := by
  rw [chunkOf, List.length_take, List.length_drop]
  omega

theorem take_add_chunk (params : List P) (start : ℕ) :
    params.take (start + 100) = params.take start ++ chunkOf params start := List.take_add

/-- The workers start on a chunk. -/
theorem Inv.map (haligned : Aligned s.log (params.take s.start) s.results) (hlt : s.start < params.length) :
    Inv params (s.map (chunkOf params s.start)) := by
  have hpos := chunkOf_ne_nil hlt
  refine ⟨haligned, nofun, fun pool ids h ↦ ?_, nofun⟩
  obtain ⟨rfl, -⟩ := Phase.mapping.inj h
  refine ⟨hlt, rfl, Pool.valid_start (by decide) _, fun hdone ↦ ?_⟩
  have hmem : some 0 ∈ (Pool.start 8 (chunkOf params s.start).length : Pool R).workers :=
    List.mem_map_of_mem (List.mem_range.2 (by omega))
  cases hdone _ hmem

theorem Inv.push {results : List (Option R)} (haligned : Aligned s.log (params.take s.start) s.results)
    (hresults : Aligned s.log (chunkOf params s.start) results) : Inv params (s.push results) := by
  refine ⟨?_, nofun, nofun, nofun⟩
  rw [Call.push, take_add_chunk]
  exact haligned.append hresults

theorem Inv.advance (h : Inv params s) : Inv params (s.advance params) := by
  rw [Call.advance]
  split
  next hlt =>
    dsimp only
    split
    · exact Inv.map h.aligned hlt
    · refine ⟨h.aligned, fun requests hrequests ↦ ?_, nofun, nofun⟩
      obtain rfl := Phase.posted.inj hrequests
      exact ⟨hlt, requestsOf_params _ _, nodup_requestsOf _ _⟩
  next hge => exact ⟨h.aligned, nofun, nofun, fun _ ↦ not_lt.1 hge⟩

/-- What comes of a batch is received from its replies. -/
theorem answered_eq_results {results : List (Option R)} (h : answered requests response = .results results) :
    ∃ replies, response = .body (.array replies) ∧ receive requests replies = .ok results := by
  have hcaught (e : Failure) : (caught e : Received R) ≠ .results results := by
    rw [caught]
    split <;> nofun
  unfold answered at h
  split at h
  · exact absurd h (hcaught _)
  · split at h
    · exact absurd h (hcaught _)
    · cases h
  · split at h
    · cases h
      exact ⟨_, rfl, ‹_›⟩
    · cases h

theorem Inv.answer (h : Inv params s) (hphase : s.phase = .posted requests) (response : Response R) :
    Inv params (s.answer params requests response) := by
  have hposted := h.posted requests hphase
  have haligned := h.aligned.mono (List.subset_append_left s.log [.batch requests response])
  rw [Call.answer]
  dsimp only
  split
  next results hresults =>
    refine Inv.push haligned ?_
    obtain ⟨replies, rfl, hreceive⟩ := answered_eq_results hresults
    obtain ⟨value, hmatches, rfl⟩ := (receive_eq_ok hposted.nodup).1 hreceive
    rw [← hposted.params]
    have hown : ∀ q ∈ requests, ∃ r, value q.id = some r ∧
        Own (s.log ++ [.batch requests (.body (.array replies))]) q.params r := by
      intro q hq
      obtain ⟨r, hr⟩ := Option.isSome_iff_exists.1 (hmatches.some q hq)
      exact ⟨r, hr, .batch requests replies value q (by simp) hposted.nodup hmatches hq rfl hr⟩
    rw [Aligned, List.forall₂_map_left_iff, List.forall₂_map_right_iff, List.forall₂_same]
    exact hown
  next => exact Inv.map (s := { s with noBatch := true, log := _ }) haligned hposted.lt
  next => exact ⟨haligned, nofun, nofun, nofun⟩

/-- What a pool that is done has answered is in order. -/
theorem aligned_results {pool : Pool R} {start : ℕ} (hcount : pool.count = (chunkOf params start).length)
    (hvalid : Pool.Valid (fun i r ↦ ∃ p, (chunkOf params start)[i]? = some p ∧ Own log p r) pool)
    (hdone : pool.Done) : Aligned log (chunkOf params start) pool.results := by
  have hlength : (chunkOf params start).length = pool.results.length := by
    rw [Pool.results, List.length_map, List.length_range, hcount]
  refine List.forall₂_iff_get.2 ⟨hlength, fun i hi hi' ↦ ?_⟩
  obtain ⟨r, hr, p, hp, hown⟩ := hvalid.results hdone i (hcount ▸ hi)
  obtain ⟨_, rfl⟩ := List.getElem?_eq_some_iff.1 hp
  refine ⟨r, ?_, hown⟩
  rw [List.get_eq_getElem]
  simp only [Pool.results, List.getElem_map, List.getElem_range]
  exact hr

theorem Inv.settle (h : Inv params s) {pool : Pool R} {ids : ℕ → ℕ} (hphase : s.phase = .mapping pool ids) {w i : ℕ}
    (hw : pool.workers[w]? = some (some i)) (hp : (chunkOf params s.start)[i]? = some p) (response : Response R) :
    Inv params (s.settle pool ids w i p response) := by
  have hmapped := h.mapped pool ids hphase
  have hsub := List.subset_append_left s.log [.call ⟨ids i, p⟩ response]
  have haligned := h.aligned.mono hsub
  rw [Call.settle]
  dsimp only
  split
  next => exact ⟨haligned, nofun, nofun, nofun⟩
  next r hr =>
    have hvalid : Pool.Valid (fun j b ↦ ∃ q, (chunkOf params s.start)[j]? = some q ∧
        Own (s.log ++ [.call ⟨ids i, p⟩ response]) q b) (pool.settle w i r) := by
      refine (hmapped.valid.mono fun j b ⟨q, hq, hown⟩ ↦ ⟨q, hq, hown.mono hsub⟩).settle hw ⟨p, hp, ?_⟩
      exact .call (ids i) response (by simp) hr
    split
    next hdone => exact Inv.push haligned (aligned_results hmapped.count hvalid hdone)
    next hbusy =>
      split
      · refine ⟨haligned, nofun, fun pool' ids' h ↦ ?_, nofun⟩
        obtain ⟨rfl, -⟩ := Phase.mapping.inj h
        exact ⟨hmapped.lt, hmapped.count, hvalid, hbusy⟩
      · refine ⟨haligned, nofun, fun pool' ids' h ↦ ?_, nofun⟩
        obtain ⟨rfl, -⟩ := Phase.mapping.inj h
        exact ⟨hmapped.lt, hmapped.count, hvalid, hbusy⟩

/-- **Every step keeps the call aligned.** -/
theorem Inv.step (h : Inv params s) (hstep : Step params s s') : Inv params s' := by
  cases hstep with
  | advance => exact h.advance
  | answer requests hphase response => exact h.answer hphase response
  | settle pool ids hphase w i p hw hp response => exact h.settle hphase hw hp response

end Rpc
