import Mathlib
import EezDashboard.Rpc.Aligned

/-!
# Batches are complete

A call of `rpc.batch` ends after at most three steps for each parameter set, and one more.  When the server answers
each request with its result, the list is that of the results in order, whatever the order of the replies and
wherever the server starts to refuse batches.
-/

set_option autoImplicit false

namespace Rpc

variable {P R : Type} {params : List P} {s s' s₀ : Call P R} {requests : List (Request P)} {replies : List (Reply R)}
  {response : Response R} {log : List (Exchange P R)} {f : P → R} {n : ℕ}

/-! ## Steps -/

/-- A bound on the steps that are left to a call. -/
def Call.left (params : List P) (s : Call P R) : ℕ :=
  match s.phase with
  | .loop => 3 * (params.length - s.start) + 1
  | .posted _ => 3 * (params.length - s.start)
  | .mapping pool _ => 3 * (params.length - (s.start + 100)) + 1 + pool.remaining
  | .returned | .thrown _ => 0

theorem length_chunkOf (params : List P) (start : ℕ) :
    (chunkOf params start).length = min 100 (params.length - start) := by
  rw [chunkOf, List.length_take, List.length_drop]

theorem left_map (s : Call P R) (start : ℕ) :
    (s.map (chunkOf params start)).left params =
      3 * (params.length - (s.start + 100)) + 1 + (chunkOf params start).length :=
  congrArg _ (Pool.remaining_start 8 _)

theorem left_push (s : Call P R) (results : List (Option R)) :
    (s.push results).left params = 3 * (params.length - (s.start + 100)) + 1 := rfl

theorem left_advance (hphase : s.phase = .loop) : (s.advance params).left params < s.left params := by
  have hleft : s.left params = 3 * (params.length - s.start) + 1 := by rw [Call.left, hphase]
  rw [hleft, Call.advance]
  split
  next hlt =>
    dsimp only
    split
    · have := length_chunkOf params s.start
      rw [left_map]
      omega
    · exact Nat.lt_succ_self _
  next => exact Nat.succ_pos _

theorem left_answer (h : Inv params s) (hphase : s.phase = .posted requests) (response : Response R) :
    (s.answer params requests response).left params < s.left params := by
  have hlt := (h.posted requests hphase).lt
  have hleft : s.left params = 3 * (params.length - s.start) := by rw [Call.left, hphase]
  rw [hleft, Call.answer]
  dsimp only
  split
  · rw [left_push]
    dsimp only
    omega
  · have := length_chunkOf params s.start
    rw [left_map]
    dsimp only
    omega
  · exact Nat.mul_pos (by decide) (Nat.sub_pos_of_lt hlt)

theorem left_settle (h : Inv params s) {pool : Pool R} {ids : ℕ → ℕ} (hphase : s.phase = .mapping pool ids) {w i : ℕ}
    (hw : pool.workers[w]? = some (some i)) (p : P) (response : Response R) :
    (s.settle pool ids w i p response).left params < s.left params := by
  have hleft : s.left params = 3 * (params.length - (s.start + 100)) + 1 + pool.remaining := by
    rw [Call.left, hphase]
  have hremaining (r : R) : (pool.settle w i r).remaining + 1 = pool.remaining :=
    Pool.remaining_settle (h.mapped pool ids hphase).valid.next_le hw
  rw [hleft, Call.settle]
  dsimp only
  split
  · exact Nat.lt_of_lt_of_le (Nat.succ_pos _) (Nat.le_add_right _ _)
  next r _ =>
    have hless := hremaining r
    split
    · rw [left_push]
      dsimp only
      omega
    · split
      · simp only [Call.left]
        omega
      · simp only [Call.left]
        omega

/-- **Every step leaves fewer steps.** -/
theorem left_step (h : Inv params s) (hstep : Step params s s') : s'.left params < s.left params := by
  cases hstep with
  | advance hphase => exact left_advance hphase
  | answer requests hphase response => exact left_answer h hphase response
  | settle pool ids hphase w i p hw _ response => exact left_settle h hphase hw p response

/-- A call that has not ended goes on with any response. -/
theorem exists_step (h : Inv params s) (response : Response R) :
    (∃ s', Step params s s') ∨ s.phase = .returned ∨ ∃ e, s.phase = .thrown e := by
  cases hphase : s.phase with
  | loop => exact .inl ⟨_, .advance s hphase⟩
  | posted requests => exact .inl ⟨_, .answer s requests hphase response⟩
  | mapping pool ids =>
    have hmapped := h.mapped pool ids hphase
    obtain ⟨w, i, hw⟩ := Pool.exists_awaited hmapped.busy
    have hi : i < (chunkOf params s.start).length := by
      rw [← hmapped.count]
      exact (hmapped.valid.awaited i (List.mem_of_getElem? hw)).1.trans_le hmapped.valid.next_le
    exact .inl ⟨_, .settle s pool ids hphase w i _ hw (List.getElem?_eq_getElem hi) response⟩
  | returned => exact .inr (.inl rfl)
  | thrown e => exact .inr (.inr ⟨e, rfl⟩)

/-! ## Truthful servers -/

/-- A batch that is refused with the code -32600, with an HTTP error or without. -/
inductive Refusal : Response R → Prop
  | http : Refusal (.failed (some (-32600)))
  | body (reply : Reply R) (message : String) (herror : reply.error = some ⟨some (-32600), some message⟩) :
      Refusal (.body (.object reply))

/-- The server answers with the result `f p` for `p`; it may refuse a batch, and reply in any order. -/
inductive Truthful (f : P → R) : Exchange P R → Prop
  | call (request : Request P) (response : Response R) (hresult : rpc response = .ok (f request.params)) :
      Truthful f (.call request response)
  | refused (requests : List (Request P)) (response : Response R) (hrefusal : Refusal response) :
      Truthful f (.batch requests response)
  | replies (requests : List (Request P)) (replies : List (Reply R))
      (hreplies : (replies.map Reply.read).Perm (requests.map fun q ↦ (true, some q.id, some (f q.params)))) :
      Truthful f (.batch requests (.body (.array replies)))

theorem answered_refusal (h : Refusal response) : answered requests response = .refused := by
  cases h with
  | http => rfl
  | body reply message herror =>
    have hresult : result reply = .error ⟨some (-32600), message⟩ := by
      rw [result, herror]
      rfl
    simp only [answered, herror, hresult]
    rfl

/-- The truthful replies to a batch, by id. -/
theorem matches_of_perm (hids : (requests.map Request.id).Nodup)
    (hreplies : (replies.map Reply.read).Perm (requests.map fun q ↦ (true, some q.id, some (f q.params)))) :
    ∃ value, Matches requests replies value := by
  have hnodup : ((requests.map fun q ↦ (q.id, f q.params)).map Prod.fst).Nodup := by
    rw [List.map_map]
    exact hids
  have hvalue : ∀ q ∈ requests, (requests.map fun q ↦ (q.id, f q.params)).lookup q.id = some (f q.params) :=
    fun q hq ↦ (lookup_eq_some hnodup).2 (List.mem_map_of_mem hq)
  refine ⟨fun i ↦ (requests.map fun q ↦ (q.id, f q.params)).lookup i, fun q hq ↦ ?_, ?_⟩
  · exact Option.isSome_iff_exists.2 ⟨_, hvalue q hq⟩
  · refine hreplies.trans (List.Perm.of_eq (List.map_congr_left fun q hq ↦ ?_))
    rw [hvalue q hq]

/-- A result of one's own request is the truth, when the server is truthful. -/
theorem Own.eq_of_truthful {p : P} {r : R} (h : Own log p r) (htruthful : ∀ e ∈ log, Truthful f e) : r = f p := by
  cases h with
  | call id response hlogged hr =>
    cases htruthful _ hlogged with
    | call _ _ hresult => exact Except.ok.inj (hr.symm.trans hresult)
  | batch requests replies value q hlogged hnodup hmatched hq hp hr =>
    cases htruthful _ hlogged with
    | refused _ _ hrefusal => cases hrefusal
    | replies _ _ hreplies =>
      have hmem : (true, some q.id, value q.id) ∈ requests.map fun q ↦ (true, some q.id, some (f q.params)) :=
        (hmatched.perm.symm.trans hreplies).mem_iff.1 (List.mem_map_of_mem (f := fun q ↦ (true, some q.id, value q.id)) hq)
      obtain ⟨q', hq', heq⟩ := List.mem_map.1 hmem
      simp only [Prod.mk.injEq, Option.some.injEq, true_and] at heq
      obtain rfl := List.inj_on_of_nodup_map hnodup hq' hq heq.1
      rw [hr, Option.some.injEq, hp] at heq
      exact heq.2.symm

theorem answer_log (s : Call P R) (requests : List (Request P)) (response : Response R) :
    (s.answer params requests response).log = s.log ++ [.batch requests response] := by
  rw [Call.answer]
  dsimp only
  split <;> rfl

theorem settle_log (s : Call P R) (pool : Pool R) (ids : ℕ → ℕ) (w i : ℕ) (p : P) (response : Response R) :
    (s.settle pool ids w i p response).log = s.log ++ [.call ⟨ids i, p⟩ response] := by
  rw [Call.settle]
  dsimp only
  split
  · rfl
  · split
    · rfl
    · split <;> rfl

/-- A batch that is answered as it was asked is received, or refused. -/
theorem answered_ne_thrown (hids : (requests.map Request.id).Nodup) (h : Truthful f (.batch requests response))
    (e : Failure) : answered requests response ≠ .thrown e := by
  cases h with
  | refused _ _ hrefusal =>
    rw [answered_refusal hrefusal]
    nofun
  | replies _ replies hreplies =>
    obtain ⟨value, hmatches⟩ := matches_of_perm hids hreplies
    rw [answered, (receive_eq_ok hids).2 ⟨value, hmatches, rfl⟩]
    nofun

/-- Replies that are not one for each request make a batch throw. -/
theorem answered_eq_thrown (hids : (requests.map Request.id).Nodup) (h : ¬∃ value, Matches requests replies value) :
    ∃ e, answered requests (.body (.array replies)) = .thrown e := by
  rw [answered]
  cases hreceive : receive requests replies with
  | ok results =>
    obtain ⟨value, hmatches, -⟩ := (receive_eq_ok hids).1 hreceive
    exact absurd ⟨value, hmatches⟩ h
  | error e => exact ⟨e, rfl⟩

/-- **A step does not throw when the server is truthful.** -/
theorem not_thrown_step (h : Inv params s) (hstep : Step params s s') (htruthful : ∀ e ∈ s'.log, Truthful f e)
    (e : Failure) : s'.phase ≠ .thrown e := by
  cases hstep with
  | advance hphase =>
    rw [Call.advance]
    split
    · dsimp only
      split <;> rintro ⟨⟩
    · rintro ⟨⟩
  | answer requests hphase response =>
    rw [answer_log] at htruthful
    have hbatch := htruthful (.batch requests response) (by simp)
    have hlast := answered_ne_thrown (h.posted requests hphase).nodup hbatch
    rw [Call.answer]
    dsimp only
    split
    · rintro ⟨⟩
    · rintro ⟨⟩
    next e' he => exact absurd he (hlast e')
  | settle pool ids hphase w i p hw hp response =>
    rw [settle_log] at htruthful
    have hlast := htruthful (.call ⟨ids i, p⟩ response) (by simp)
    rw [Call.settle]
    dsimp only
    split
    next e' he =>
      cases hlast with
      | call _ _ hresult => cases he.symm.trans hresult
    · split
      · rintro ⟨⟩
      · split <;> rintro ⟨⟩

/-! ## Runs -/

theorem Run.inv (h : Run params s₀ n s) (h₀ : Inv params s₀) : Inv params s := by
  induction h with
  | nil => exact h₀
  | step _ hstep ih => exact ih.step hstep
  | others _ id noBatch _ _ ih => exact ⟨ih.aligned, ih.posted, ih.mapped, ih.returned⟩

theorem Run.left (h : Run params s₀ n s) (h₀ : Inv params s₀) : n + s.left params ≤ s₀.left params := by
  induction h with
  | nil => exact (Nat.zero_add _).le
  | step h hstep ih =>
    have := left_step (h.inv h₀) hstep
    omega
  | others _ id noBatch _ _ ih => exact ih

theorem Run.not_thrown (h : Run params s₀ n s) (h₀ : Inv params s₀) (hphase : ∀ e, s₀.phase ≠ .thrown e)
    (htruthful : ∀ e ∈ s.log, Truthful f e) (e : Failure) : s.phase ≠ .thrown e := by
  induction h with
  | nil => exact hphase e
  | step h hstep => exact not_thrown_step (h.inv h₀) hstep htruthful e
  | others _ id noBatch _ _ ih => exact ih htruthful

/-- Results that are each their own request's are the truth, when the server is truthful. -/
theorem Aligned.eq_map {results : List (Option R)} (h : Aligned log params results)
    (htruthful : ∀ e ∈ log, Truthful f e) : results = params.map fun p ↦ some (f p) := by
  induction h with
  | nil => rfl
  | cons ho _ ih =>
    obtain ⟨r, rfl, hown⟩ := ho
    rw [List.map_cons, ← ih, hown.eq_of_truthful htruthful]

/-- **A call of `rpc.batch`, in any run.**  It goes on until it returns or throws, for at most three steps a parameter
set and one more.  What it returns has for each parameter set the result of a request for it, from the reply with
its id in a batch, or from the response to its own single request.  Where the server is truthful it does not throw,
and returns the results in order.  A batch whose replies are not one result for each id throws, and so does a single
request without a result. -/
theorem batch_aligned (params : List P) (id : ℕ) (noBatch : Bool) (n : ℕ) (s : Call P R)
    (h : Run params (Call.begin id noBatch) n s) :
    n ≤ 3 * params.length + 1 ∧
    ((∃ s', Step params s s') ∨ s.phase = .returned ∨ ∃ e, s.phase = .thrown e) ∧
    (s.phase = .returned → Aligned s.log params s.results) ∧
    (∀ f : P → R, (∀ e ∈ s.log, Truthful f e) →
      (∀ e, s.phase ≠ .thrown e) ∧ (s.phase = .returned → s.results = params.map fun p ↦ some (f p))) ∧
    (∀ requests replies, s.phase = .posted requests → (¬∃ value, Matches requests replies value) →
      ∃ e, (s.answer params requests (.body (.array replies))).phase = .thrown e) ∧
    ∀ pool ids w i p response e, s.phase = .mapping pool ids → rpc response = .error e →
      (s.settle pool ids w i p response).phase = .thrown e := by
  have h₀ : Inv params (Call.begin id noBatch : Call P R) := inv_begin id noBatch
  have hinv := h.inv h₀
  have hreturned (hphase : s.phase = .returned) : Aligned s.log params s.results := by
    have haligned := hinv.aligned
    rwa [List.take_of_length_le (hinv.returned hphase)] at haligned
  refine ⟨(Nat.le_add_right _ _).trans (h.left h₀), exists_step hinv (.failed none), hreturned, ?_, ?_, ?_⟩
  · exact fun f htruthful ↦ ⟨h.not_thrown h₀ nofun htruthful, fun hphase ↦ (hreturned hphase).eq_map htruthful⟩
  · intro requests replies hphase hnot
    obtain ⟨e, he⟩ := answered_eq_thrown (hinv.posted requests hphase).nodup hnot
    exact ⟨e, by simp only [Call.answer, he]⟩
  · intro pool ids w i p response e _ he
    simp only [Call.settle, he]

/-! ## Single requests -/

/-- A run whose batch is refused, and whose two single replies have each other's id. -/
theorem run_swapped : ∃ s : Call ℕ ℕ, Run [10, 20] (Call.begin 0 false) 5 s ∧ s.phase = .returned ∧
    s.results = [some 200, some 100] ∧ s.log = [.batch [⟨1, 10⟩, ⟨2, 20⟩] (.failed (some (-32600))),
      .call ⟨3, 10⟩ (.body (.object ⟨true, some 4, none, some 200⟩)),
      .call ⟨4, 20⟩ (.body (.object ⟨true, some 3, none, some 100⟩))] := by
  let first : Response ℕ := .body (.object ⟨true, some 4, none, some 200⟩)
  let second : Response ℕ := .body (.object ⟨true, some 3, none, some 100⟩)
  have hposted : Run [10, 20] (Call.begin 0 false : Call ℕ ℕ) 1 _ := .step .nil (.advance _ rfl)
  have hrefused := Run.step hposted (.answer _ _ rfl (.failed (some (-32600))))
  have hfirst := Run.step hrefused (.settle _ _ _ rfl 0 0 10 rfl rfl first)
  have hsecond := Run.step hfirst (.settle _ _ _ rfl 1 1 20 rfl rfl second)
  have hdone := Run.step hsecond (.advance _ rfl)
  exact ⟨_, hdone, rfl, rfl, rfl⟩

/-- The ids of single replies are not checked: one with another request's id does not make the call throw. -/
theorem batch_foreignId : ¬∀ (params : List ℕ) (id : ℕ) (noBatch : Bool) (n : ℕ) (s : Call ℕ ℕ),
    Run params (Call.begin id noBatch) n s → s.phase = .returned →
      ∀ q reply, .call q (.body (.object reply)) ∈ s.log → reply.id = some q.id := by
  intro h
  obtain ⟨s, hrun, hphase, -, hlog⟩ := run_swapped
  have hid := h _ 0 false 5 s hrun hphase ⟨3, 10⟩ ⟨true, some 4, none, some 200⟩ (by simp [hlog])
  cases hid

theorem batch_aligned_swapped : ∃ s : Call ℕ ℕ, Run [10, 20] (Call.begin 0 false) 5 s ∧
    Aligned s.log [10, 20] s.results := by
  obtain ⟨s, hrun, hphase, -, -⟩ := run_swapped
  exact ⟨s, hrun, (batch_aligned [10, 20] 0 false 5 s hrun).2.2.1 hphase⟩

end Rpc
