import Mathlib.Data.List.Nodup
import Mathlib.Algebra.Order.Group.Nat
import Mathlib.Logic.Function.Basic
import Mathlib.Tactic.Common

/-!
# A bounded pool of workers

Workers take the indices of a list one after the other, and each awaits the answer for its index before it takes
the next.  Answers come in any order.  `Valid` is kept by every answer, and says that an index is answered or
awaited once it was taken; a pool whose workers are all idle has answered everything.
-/

set_option autoImplicit false

structure Pool (β : Type) where
  count : ℕ
  next : ℕ
  /-- The index that each worker awaits, if it has not ended. -/
  workers : List (Option ℕ)
  answers : ℕ → Option β

namespace Pool

variable {β : Type} {p : Pool β} {w i j : ℕ} {b : β} {Own Own' : ℕ → β → Prop}

/-- Each of at most `limit` workers has taken an index. -/
def start (limit count : ℕ) : Pool β where
  count := count
  next := min limit count
  workers := (List.range (min limit count)).map some
  answers := fun _ ↦ none

/-- The worker `w` gets the answer for `i`, and takes the next index if there is one. -/
def settle (p : Pool β) (w i : ℕ) (b : β) : Pool β :=
  { p with
    next := if p.next < p.count then p.next + 1 else p.next
    workers := p.workers.set w (if p.next < p.count then some p.next else none)
    answers := Function.update p.answers i (some b) }

def Done (p : Pool β) : Prop := ∀ w ∈ p.workers, w = none

instance : Decidable p.Done := inferInstanceAs (Decidable (∀ w ∈ p.workers, w = none))

/-- The answers in the order of the list. -/
def results (p : Pool β) : List (Option β) := (List.range p.count).map p.answers

/-- How many answers are left to come, and indices to be taken. -/
def remaining (p : Pool β) : ℕ := p.count - p.next + (p.workers.filterMap id).length

/-- What holds of a pool at any time: `Own i b` says that `b` may be the answer for `i`. -/
structure Valid (Own : ℕ → β → Prop) (p : Pool β) : Prop where
  next_le : p.next ≤ p.count
  awaited : ∀ i, some i ∈ p.workers → i < p.next ∧ p.answers i = none
  nodup : (p.workers.filterMap id).Nodup
  covered : ∀ i < p.next, p.answers i ≠ none ∨ some i ∈ p.workers
  own : ∀ i b, p.answers i = some b → i < p.next ∧ Own i b
  busy : p.next < p.count → none ∉ p.workers
  staffed : p.workers = [] → p.count = 0

theorem valid_start {limit : ℕ} (hlimit : 0 < limit) (count : ℕ) : Valid Own (start limit count : Pool β) := by
  constructor
  · exact Nat.min_le_right _ _
  · intro i hi
    obtain ⟨k, hk, heq⟩ := List.mem_map.1 hi
    obtain rfl := Option.some.inj heq
    exact ⟨List.mem_range.1 hk, rfl⟩
  · have heq : ((List.range (min limit count)).map some).filterMap id = List.range (min limit count) := by
      rw [List.filterMap_map, Function.id_comp, List.filterMap_some]
    rw [start, heq]
    exact List.nodup_range
  · exact fun i hi ↦ .inr (List.mem_map_of_mem (List.mem_range.2 hi))
  · exact fun _ _ h ↦ by cases h
  · intro _ h
    obtain ⟨_, -, heq⟩ := List.mem_map.1 h
    cases heq
  · intro h
    have := congrArg List.length h
    simp only [start, List.length_map, List.length_range, List.length_nil] at this
    simp only [start]
    omega

@[simp] theorem remaining_start (limit count : ℕ) : (start limit count : Pool β).remaining = count := by
  have hworkers : ((List.range (min limit count)).map some).filterMap id = List.range (min limit count) := by
    rw [List.filterMap_map, Function.id_comp, List.filterMap_some]
  rw [remaining, start, hworkers, List.length_range]
  exact Nat.sub_add_cancel (Nat.min_le_right _ _)

theorem Valid.mono (h : Valid Own p) (himp : ∀ i b, Own i b → Own' i b) : Valid Own' p :=
  { h with own := fun i b hb ↦ (h.own i b hb).imp_right (himp i b) }

@[simp] theorem settle_count (p : Pool β) (w i : ℕ) (b : β) : (p.settle w i b).count = p.count := rfl

@[simp] theorem settle_next (p : Pool β) (w i : ℕ) (b : β) :
    (p.settle w i b).next = if p.next < p.count then p.next + 1 else p.next := rfl

theorem settle_answers_of_ne (h : j ≠ i) : (p.settle w i b).answers j = p.answers j := Function.update_of_ne h _ _

@[simp] theorem settle_answers (p : Pool β) (w i : ℕ) (b : β) : (p.settle w i b).answers i = some b :=
  Function.update_self _ _ _

/-- The place of a worker among the others. -/
theorem exists_split {l : List (Option ℕ)} (hw : l[w]? = some (some i)) :
    ∃ pre post, l = pre ++ some i :: post ∧ ∀ o, l.set w o = pre ++ o :: post := by
  obtain ⟨hlt, hget⟩ := List.getElem?_eq_some_iff.1 hw
  refine ⟨l.take w, l.drop (w + 1), ?_, fun o ↦ List.set_eq_take_append_cons_drop.trans (if_pos hlt)⟩
  rw [← hget, List.getElem_cons_drop hlt, List.take_append_drop]

/-- The other workers await other indices. -/
theorem Valid.others {pre post : List (Option ℕ)} (h : Valid Own p) (hsplit : p.workers = pre ++ some i :: post) :
    ((pre ++ post).filterMap id).Nodup ∧ ∀ j, some j ∈ pre ++ post → j ≠ i ∧ j < p.next ∧ p.answers j = none := by
  have hnodup := h.nodup
  rw [hsplit, List.filterMap_append, List.filterMap_cons_some (by rfl)] at hnodup
  obtain ⟨hnot, hrest⟩ := List.nodup_cons.1 (List.nodup_middle.1 hnodup)
  rw [← List.filterMap_append] at hnot hrest
  refine ⟨hrest, fun j hj ↦ ⟨?_, h.awaited j ?_⟩⟩
  · rintro rfl
    exact hnot (List.mem_filterMap.2 ⟨some j, hj, rfl⟩)
  · rw [hsplit]
    exact List.perm_middle.mem_iff.2 (List.mem_cons_of_mem _ hj)

/-- They and the index that is taken, if there is one, are what is awaited next. -/
theorem nodup_settle {pre post : List (Option ℕ)} (hset : ∀ o, p.workers.set w o = pre ++ o :: post)
    (hrest : ((pre ++ post).filterMap id).Nodup) (hother : ∀ j, some j ∈ pre ++ post → j < p.next) :
    ((p.settle w i b).workers.filterMap id).Nodup := by
  have heq : (p.settle w i b).workers.filterMap id =
      pre.filterMap id ++ ((if p.next < p.count then some p.next else none).toList ++ post.filterMap id) := by
    have hcons (o : Option ℕ) : (o :: post).filterMap id = o.toList ++ post.filterMap id := by cases o <;> rfl
    rw [Pool.settle, hset, List.filterMap_append, hcons]
  rw [heq, (List.perm_append_comm_assoc _ _ _).nodup_iff, ← List.filterMap_append]
  split
  next hlt =>
    refine List.nodup_cons.2 ⟨fun hmem ↦ ?_, hrest⟩
    obtain ⟨o, ho, rfl⟩ := List.mem_filterMap.1 hmem
    exact (hother _ ho).false
  next => exact hrest

/-- **An answer keeps the pool valid.** -/
theorem Valid.settle (h : Valid Own p) (hw : p.workers[w]? = some (some i)) (hb : Own i b) :
    Valid Own (p.settle w i b) := by
  obtain ⟨pre, post, hsplit, hset⟩ := exists_split hw
  obtain ⟨hi, -⟩ := h.awaited i (List.mem_of_getElem? hw)
  obtain ⟨hrest, hother⟩ := h.others hsplit
  have hworker {o : Option ℕ} : o ∈ (p.settle w i b).workers ↔
      o = (if p.next < p.count then some p.next else none) ∨ o ∈ pre ++ post := by
    rw [Pool.settle, hset, List.perm_middle.mem_iff, List.mem_cons]
  have hnext : p.next ≤ (p.settle w i b).next := by
    rw [settle_next]
    split <;> omega
  constructor
  · have := h.next_le
    rw [settle_next, settle_count]
    split <;> omega
  · intro j hj
    obtain hj | hj := hworker.1 hj
    · split at hj
      next hlt =>
        obtain rfl := Option.some.inj hj
        refine ⟨by rw [settle_next, if_pos hlt]; exact Nat.lt_succ_self _, ?_⟩
        rw [settle_answers_of_ne (by omega), Option.eq_none_iff_forall_ne_some]
        exact fun b hb ↦ (h.own _ b hb).1.false
      next => cases hj
    · obtain ⟨hne, hlt, hnone⟩ := hother j hj
      exact ⟨hlt.trans_le hnext, (settle_answers_of_ne hne).trans hnone⟩
  · exact nodup_settle hset hrest fun j hj ↦ (hother j hj).2.1
  · intro j hj
    by_cases hji : j = i
    · exact .inl (by simp [hji])
    · rw [settle_answers_of_ne hji]
      obtain hlt | hge := lt_or_ge j p.next
      · refine (h.covered j hlt).imp_right fun hj ↦ hworker.2 (.inr ?_)
        rw [hsplit, List.perm_middle.mem_iff] at hj
        exact (List.mem_cons.1 hj).resolve_left fun heq ↦ hji (Option.some.inj heq)
      · rw [settle_next] at hj
        split at hj
        next hlt => exact .inr (hworker.2 (.inl (by rw [if_pos hlt, (by omega : j = p.next)])))
        next => omega
  · intro j c hc
    by_cases hji : j = i
    · subst hji
      rw [settle_answers] at hc
      exact ⟨hi.trans_le hnext, Option.some.inj hc ▸ hb⟩
    · rw [settle_answers_of_ne hji] at hc
      exact (h.own j c hc).imp_left fun hlt ↦ hlt.trans_le hnext
  · intro hlt hnone
    rw [settle_next, settle_count] at hlt
    have hlt' : p.next < p.count := by
      split at hlt <;> omega
    obtain heq | hmem := hworker.1 hnone
    · rw [if_pos hlt'] at heq
      cases heq
    · refine h.busy hlt' ?_
      rw [hsplit, List.perm_middle.mem_iff]
      exact List.mem_cons_of_mem _ hmem
  · intro hempty
    have hlength := congrArg List.length hempty
    rw [Pool.settle, List.length_set, hsplit] at hlength
    simp at hlength

theorem remaining_settle (h : p.next ≤ p.count) (hw : p.workers[w]? = some (some i)) :
    (p.settle w i b).remaining + 1 = p.remaining := by
  obtain ⟨pre, post, hsplit, hset⟩ := exists_split hw
  have hworkers : (p.settle w i b).workers = pre ++ (if p.next < p.count then some p.next else none) :: post := hset _
  rw [remaining, remaining, hworkers, hsplit, settle_next, settle_count]
  split
  · simp only [List.filterMap_append, List.filterMap_cons, id, List.length_append, List.length_cons]
    omega
  · simp only [List.filterMap_append, List.filterMap_cons, id, List.length_append, List.length_cons]
    omega

/-- **A pool that is done has answered everything.** -/
theorem Valid.results (h : Valid Own p) (hdone : p.Done) : ∀ i < p.count, ∃ b, p.answers i = some b ∧ Own i b := by
  intro i hi
  have hnext : p.next = p.count := by
    refine h.next_le.antisymm (not_lt.1 fun hlt ↦ ?_)
    cases hworkers : p.workers with
    | nil => exact absurd (h.staffed hworkers) (by omega)
    | cons o rest =>
      have ho : o ∈ p.workers := hworkers ▸ List.mem_cons_self
      exact h.busy hlt (hdone o ho ▸ ho)
  obtain hsome | hawaited := h.covered i (hnext ▸ hi)
  · obtain ⟨b, hb⟩ := Option.ne_none_iff_exists'.1 hsome
    exact ⟨b, hb, (h.own i b hb).2⟩
  · cases hdone _ hawaited

/-- A pool that is not done awaits an answer. -/
theorem exists_awaited (h : ¬p.Done) : ∃ w i : ℕ, p.workers[w]? = some (some i) := by
  simp only [Done, not_forall] at h
  obtain ⟨o, ho, hne⟩ := h
  obtain ⟨i, rfl⟩ := Option.ne_none_iff_exists'.1 hne
  obtain ⟨w, hw⟩ := List.getElem?_of_mem ho
  exact ⟨w, i, hw⟩

end Pool
