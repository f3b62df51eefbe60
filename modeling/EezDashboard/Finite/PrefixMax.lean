import Mathlib.Data.Int.Bitwise
import Mathlib.Data.Set.Insert
import Mathlib.Tactic.Ring

/-!
# The best candidate of a prefix

A binary indexed tree over positions: candidates are put at positions, and `query n` finds one with the highest score
among those at a position below `n`.  A candidate is kept in the nodes that are reached from its position by adding
the lowest set bit, and a query reads the nodes that are reached by taking it away.  The two ways meet exactly when
the position is below `n` (`exists_meet`).
-/

set_option autoImplicit false

namespace PrefixMax

/-! ## The lowest set bit -/

/-- `i & -i` -/
def lowBit (i : ℕ) : ℕ := (Int.land (i : ℤ) (-(i : ℤ))).toNat

theorem lowBit_succ (i : ℕ) : lowBit (i + 1) = Nat.ldiff (i + 1) i := rfl

theorem lowBit_two_mul_add_one (i : ℕ) : lowBit (2 * i + 1) = 1 := by
  have hself : Nat.ldiff i i = 0 := Nat.eq_of_testBit_eq fun k ↦ by simp
  have hbit := Nat.ldiff_bit true i false i
  rw [hself] at hbit
  rw [lowBit_succ]
  simpa [Nat.bit] using hbit

theorem lowBit_two_mul {i : ℕ} (h : 0 < i) : lowBit (2 * i) = 2 * lowBit i := by
  obtain ⟨j, rfl⟩ := Nat.exists_eq_add_of_le' h
  have hbit := Nat.ldiff_bit false (j + 1) true j
  have hdouble : 2 * (j + 1) = 2 * j + 1 + 1 := by ring
  rw [hdouble, lowBit_succ, lowBit_succ, ← hdouble]
  simpa [Nat.bit] using hbit

/-- The lowest set bit is the highest power of two that divides. -/
theorem exists_lowBit {i : ℕ} (h : 0 < i) : ∃ k m, lowBit i = 2 ^ k ∧ i = 2 ^ k * (2 * m + 1) := by
  induction i using Nat.strong_induction_on with
  | _ i ih =>
    rcases Nat.even_or_odd' i with ⟨j, rfl | rfl⟩
    · have hj : 0 < j := by omega
      obtain ⟨k, m, hlow, hodd⟩ := ih j (by omega) hj
      refine ⟨k + 1, m, by rw [lowBit_two_mul hj, hlow, Nat.pow_succ'], ?_⟩
      rw [Nat.pow_succ', Nat.mul_assoc, ← hodd]
    · exact ⟨0, j, lowBit_two_mul_add_one j, by rw [Nat.pow_zero, Nat.one_mul]⟩

theorem lowBit_pos {i : ℕ} (h : 0 < i) : 0 < lowBit i := by
  obtain ⟨k, m, hlow, -⟩ := exists_lowBit h
  rw [hlow]
  exact Nat.two_pow_pos k

/-- The nodes whose ranges hold `p` are above one another. -/
theorem add_lowBit_le {p i : ℕ} (hp : 0 < p) (hlow : i - lowBit i < p) (hlt : p < i) : p + lowBit p ≤ i := by
  obtain ⟨k, m, hk, hi⟩ := exists_lowBit (hp.trans hlt)
  obtain ⟨k', m', hk', hp'⟩ := exists_lowBit hp
  rw [hk'] at *
  have hle : k' ≤ k := by
    -- otherwise the bit of `i` divides `p`, which lies between two neighbouring multiples of it
    by_contra hgt
    obtain ⟨d, rfl⟩ := Nat.exists_eq_add_of_le (Nat.le_of_not_le hgt)
    obtain ⟨q, hq⟩ : 2 ^ k ∣ p := ⟨2 ^ d * (2 * m' + 1), by rw [hp', Nat.pow_add, Nat.mul_assoc]⟩
    have hbelow : i - lowBit i = 2 ^ k * (2 * m) := by
      rw [hk]
      conv_lhs => rw [hi]
      rw [Nat.mul_add, Nat.mul_one, Nat.add_sub_cancel]
    rw [hbelow, hq] at hlow
    have hq' : 2 ^ k * q < 2 ^ k * (2 * m + 1) := by rwa [← hq, ← hi]
    have := Nat.lt_of_mul_lt_mul_left hlow
    have := Nat.lt_of_mul_lt_mul_left hq'
    omega
  -- both are multiples of the bit of `p`
  obtain ⟨d, rfl⟩ := Nat.exists_eq_add_of_le hle
  have hi' : i = 2 ^ k' * (2 ^ d * (2 * m + 1)) := by rw [hi, Nat.pow_add, Nat.mul_assoc]
  have hmul : 2 ^ k' * (2 * m' + 1) < 2 ^ k' * (2 ^ d * (2 * m + 1)) := by rwa [← hi', ← hp']
  have hstep := Nat.mul_le_mul_left (2 ^ k') (Nat.succ_le_of_lt (Nat.lt_of_mul_lt_mul_left hmul))
  rwa [← hi', Nat.succ_eq_add_one, Nat.mul_add, ← hp', Nat.mul_one] at hstep

/-! ## Where the two ways meet -/

/-- The nodes that keep what is put at `p`. -/
inductive Up : ℕ → ℕ → Prop
  | refl (p : ℕ) : Up p p
  | step {p k : ℕ} (h : Up (p + lowBit p) k) : Up p k

/-- The nodes that are read up to `n`. -/
inductive Down : ℕ → ℕ → Prop
  | refl (n : ℕ) : Down n n
  | step {n k : ℕ} (h : Down (n - lowBit n) k) : Down n k

theorem Up.le {p k : ℕ} (h : Up p k) : p ≤ k := by
  induction h with
  | refl => exact Nat.le_refl _
  | step _ ih => exact Nat.le_trans (Nat.le_add_right _ _) ih

theorem Down.le {n k : ℕ} (h : Down n k) : k ≤ n := by
  induction h with
  | refl => exact Nat.le_refl _
  | step _ ih => exact Nat.le_trans ih (Nat.sub_le _ _)

theorem up_iff {p k : ℕ} : Up p k ↔ k = p ∨ Up (p + lowBit p) k := by
  constructor
  · rintro (_ | h)
    · exact .inl rfl
    · exact .inr h
  · rintro (rfl | h)
    · exact .refl _
    · exact .step h

theorem down_iff {n k : ℕ} : Down n k ↔ k = n ∨ Down (n - lowBit n) k := by
  constructor
  · rintro (_ | h)
    · exact .inl rfl
    · exact .inr h
  · rintro (rfl | h)
    · exact .refl _
    · exact .step h

/-- A node that holds `p` in its range keeps what is put at `p`. -/
theorem up_of_mem {p i : ℕ} (hp : 0 < p) (hlow : i - lowBit i < p) (hle : p ≤ i) : Up p i := by
  induction hd : i - p using Nat.strong_induction_on generalizing p with
  | _ d ih =>
    rcases Nat.eq_or_lt_of_le hle with rfl | hlt
    · exact .refl p
    · have hpos := lowBit_pos hp
      exact .step (ih (i - (p + lowBit p)) (by omega) (by omega) (by omega) (add_lowBit_le hp hlow hlt) rfl)

theorem exists_meet {p n : ℕ} (hp : 0 < p) (hle : p ≤ n) : ∃ k, Up p k ∧ Down n k := by
  induction n using Nat.strong_induction_on with
  | _ n ih =>
    rcases Nat.lt_or_ge (n - lowBit n) p with hlow | hle'
    · exact ⟨n, up_of_mem hp hlow hle, .refl n⟩
    · have hpos := lowBit_pos (hp.trans_le hle)
      obtain ⟨k, hup, hdown⟩ := ih (n - lowBit n) (by omega) hle'
      exact ⟨k, hup, .step hdown⟩

/-! ## The tree -/

section Tree

universe u

variable {α : Type u} (score : α → ℕ)

/-- The first candidate, if it is there and has the higher score. -/
def better : Option α → Option α → Option α
  | none, b => b
  | some a, none => some a
  | some a, some b => if score a > score b then some a else some b

def updateLoop (len : ℕ) (candidate : α) : ℕ → ℕ → (ℕ → Option α) → ℕ → Option α
  | 0, _, tree => tree
  | fuel + 1, i, tree =>
    if i < len then
      updateLoop len candidate fuel (i + lowBit i) (Function.update tree i (better score (some candidate) (tree i)))
    else tree

/-- `for (let i = position + 1; i < tree.length; i += i & -i)` -/
def update (len position : ℕ) (candidate : α) (tree : ℕ → Option α) : ℕ → Option α :=
  updateLoop score len candidate len (position + 1) tree

def queryLoop (tree : ℕ → Option α) : ℕ → ℕ → Option α → Option α
  | 0, _, best => best
  | fuel + 1, i, best => if 0 < i then queryLoop tree fuel (i - lowBit i) (better score (tree i) best) else best

/-- `for (let i = end; i > 0; i -= i & -i)` -/
def query (tree : ℕ → Option α) (n : ℕ) : Option α := queryLoop score tree n n none

/-- A member with the highest score, if there are members. -/
def IsBest (s : Set α) : Option α → Prop
  | none => ∀ c, c ∉ s
  | some c => c ∈ s ∧ ∀ c' ∈ s, score c' ≤ score c

/-- The tree keeps the best candidates of what has been put at positions. -/
def Keeps (len : ℕ) (tree : ℕ → Option α) (s : Set (ℕ × α)) : Prop :=
  ∀ k, 0 < k → k < len → IsBest score {c | ∃ p, (p, c) ∈ s ∧ Up (p + 1) k} (tree k)

variable {score}

theorem IsBest.union {s t : Set α} {a b : Option α} (ha : IsBest score s a) (hb : IsBest score t b) :
    IsBest score (s ∪ t) (better score a b) := by
  cases a with
  | none => rwa [Set.eq_empty_of_forall_notMem ha, Set.empty_union]
  | some a =>
    cases b with
    | none => rwa [Set.eq_empty_of_forall_notMem hb, Set.union_empty]
    | some b =>
      rw [better]
      split
      · rename_i hgt
        exact ⟨.inl ha.1, fun c hc ↦ hc.elim (ha.2 c) fun hc ↦ (hb.2 c hc).trans hgt.le⟩
      · rename_i hle
        exact ⟨.inr hb.1, fun c hc ↦ hc.elim (fun hc ↦ (ha.2 c hc).trans (Nat.le_of_not_gt hle)) (hb.2 c)⟩

theorem isBest_empty : IsBest score (∅ : Set α) none := fun _ h ↦ h

theorem isBest_singleton (c : α) : IsBest score {c} (some c) := ⟨rfl, fun _ h ↦ by rw [h]⟩

/-- Only the scores of the members matter. -/
theorem IsBest.congr {score' : α → ℕ} {s : Set α} {a : Option α} (h : IsBest score s a)
    (heq : ∀ c ∈ s, score' c = score c) : IsBest score' s a := by
  cases a with
  | none => exact h
  | some a =>
    refine ⟨h.1, fun c hc ↦ ?_⟩
    rw [heq c hc, heq a h.1]
    exact h.2 c hc

theorem Keeps.congr {score' : α → ℕ} {len : ℕ} {tree : ℕ → Option α} {s : Set (ℕ × α)} (h : Keeps score len tree s)
    (heq : ∀ p ∈ s, score' p.2 = score p.2) : Keeps score' len tree s :=
  fun k hk hlen ↦ (h k hk hlen).congr fun _ ⟨_, hp, _⟩ ↦ heq _ hp

theorem keeps_empty (len : ℕ) : Keeps score len (fun _ ↦ none) ∅ := fun _ _ _ _ ⟨_, h, _⟩ ↦ h

/-- The loop goes through the nodes that keep the position, and no others change. -/
theorem updateLoop_eq {len fuel i : ℕ} {candidate : α} {tree : ℕ → Option α} (hi : 0 < i) (hfuel : len ≤ fuel + i)
    {k : ℕ} (hk : k < len) :
    (Up i k → updateLoop score len candidate fuel i tree k = better score (some candidate) (tree k)) ∧
      (¬Up i k → updateLoop score len candidate fuel i tree k = tree k) := by
  induction fuel generalizing i tree with
  | zero => exact ⟨fun hup ↦ absurd hup.le (by omega), fun _ ↦ rfl⟩
  | succ fuel ih =>
    rw [updateLoop]
    split
    · have hpos := lowBit_pos hi
      obtain ⟨hin, hout⟩ := @ih (i + lowBit i)
        (Function.update tree i (better score (some candidate) (tree i))) (by omega) (by omega)
      by_cases hki : k = i
      · subst hki
        have hnot : ¬Up (k + lowBit k) k := fun hup ↦ absurd hup.le (by omega)
        rw [hout hnot, Function.update_self]
        exact ⟨fun _ ↦ rfl, fun hup ↦ absurd (.refl k) hup⟩
      · rw [Function.update_of_ne hki] at hin hout
        rw [up_iff]
        exact ⟨fun hup ↦ hin (hup.resolve_left hki), fun hup ↦ hout fun hup' ↦ hup (.inr hup')⟩
    · exact ⟨fun hup ↦ absurd hup.le (by omega), fun _ ↦ rfl⟩

/-- **Putting a candidate.** -/
theorem Keeps.update {len : ℕ} {tree : ℕ → Option α} {s : Set (ℕ × α)} (h : Keeps score len tree s) (position : ℕ)
    (candidate : α) : Keeps score len (update score len position candidate tree) (insert (position, candidate) s) := by
  intro k hk hlen
  have hfuel : len ≤ len + (position + 1) := Nat.le_add_right _ _
  obtain ⟨hin, hout⟩ := @updateLoop_eq _ score len len (position + 1) candidate tree (Nat.succ_pos position)
    hfuel k hlen
  rw [PrefixMax.update]
  by_cases hup : Up (position + 1) k
  · rw [hin hup]
    have hset : {c | ∃ p, (p, c) ∈ insert (position, candidate) s ∧ Up (p + 1) k} =
        {candidate} ∪ {c | ∃ p, (p, c) ∈ s ∧ Up (p + 1) k} := by
      ext c
      constructor
      · rintro ⟨p, hp | hp, hup'⟩
        · exact .inl (Prod.mk.inj hp).2
        · exact .inr ⟨p, hp, hup'⟩
      · rintro (rfl | ⟨p, hp, hup'⟩)
        · exact ⟨position, .inl rfl, hup⟩
        · exact ⟨p, .inr hp, hup'⟩
    rw [hset]
    exact (isBest_singleton candidate).union (h k hk hlen)
  · rw [hout hup]
    have hset : {c | ∃ p, (p, c) ∈ insert (position, candidate) s ∧ Up (p + 1) k} =
        {c | ∃ p, (p, c) ∈ s ∧ Up (p + 1) k} := by
      ext c
      constructor
      · rintro ⟨p, hp | hp, hup'⟩
        · exact absurd ((Prod.mk.inj hp).1 ▸ hup') hup
        · exact ⟨p, hp, hup'⟩
      · rintro ⟨p, hp, hup'⟩
        exact ⟨p, .inr hp, hup'⟩
    rw [hset]
    exact h k hk hlen

theorem queryLoop_isBest {len fuel i : ℕ} {tree : ℕ → Option α} {s : Set (ℕ × α)} (h : Keeps score len tree s)
    (hfuel : i ≤ fuel) (hi : i < len) {t : Set α} {best : Option α} (hbest : IsBest score t best) :
    IsBest score ({c | ∃ p, (p, c) ∈ s ∧ ∃ k, 0 < k ∧ Up (p + 1) k ∧ Down i k} ∪ t)
      (queryLoop score tree fuel i best) := by
  have hdone : i = 0 → {c | ∃ p, (p, c) ∈ s ∧ ∃ k, 0 < k ∧ Up (p + 1) k ∧ Down i k} = ∅ := by
    rintro rfl
    refine Set.eq_empty_of_forall_notMem ?_
    rintro c ⟨p, -, k, hk, -, hdown⟩
    exact absurd hdown.le (by omega)
  induction fuel generalizing i t best with
  | zero => rwa [hdone (Nat.le_zero.1 hfuel), Set.empty_union]
  | succ fuel ih =>
    rw [queryLoop]
    split
    · rename_i hpos
      have hlow := lowBit_pos hpos
      have hrest := ih (i := i - lowBit i) (by omega) (by omega) ((h i hpos hi).union hbest) ?_
      · rw [← Set.union_assoc] at hrest
        refine Eq.mp (congrArg (fun u ↦ IsBest score (u ∪ t) _) (Set.ext fun c ↦ ?_)) hrest
        constructor
        · rintro (⟨p, hp, k, hk, hup, hdown⟩ | ⟨p, hp, hup⟩)
          · exact ⟨p, hp, k, hk, hup, .step hdown⟩
          · exact ⟨p, hp, i, hpos, hup, .refl i⟩
        · rintro ⟨p, hp, k, hk, hup, hdown⟩
          rcases down_iff.1 hdown with rfl | hdown
          · exact .inr ⟨p, hp, hup⟩
          · exact .inl ⟨p, hp, k, hk, hup, hdown⟩
      · intro hzero
        refine Set.eq_empty_of_forall_notMem ?_
        rintro c ⟨p, -, k, hk, -, hdown⟩
        exact absurd hdown.le (by omega)
    · rename_i hzero
      rwa [hdone (by omega), Set.empty_union]

/-- **Asking for the best below `n`.** -/
theorem Keeps.query {len : ℕ} {tree : ℕ → Option α} {s : Set (ℕ × α)} (h : Keeps score len tree s) {n : ℕ}
    (hn : n < len) : IsBest score {c | ∃ p < n, (p, c) ∈ s} (query score tree n) := by
  have hbest := queryLoop_isBest h (Nat.le_refl n) hn isBest_empty
  rw [Set.union_empty] at hbest
  refine Eq.mp (congrArg (fun u ↦ IsBest score u _) (Set.ext fun c ↦ ?_)) hbest
  constructor
  · rintro ⟨p, hp, k, -, hup, hdown⟩
    exact ⟨p, hup.le.trans hdown.le, hp⟩
  · rintro ⟨p, hlt, hp⟩
    obtain ⟨k, hup, hdown⟩ := exists_meet (Nat.succ_pos p) (Nat.succ_le_of_lt hlt)
    exact ⟨p, hp, k, Nat.lt_of_lt_of_le (Nat.succ_pos p) hup.le, hup, hdown⟩

end Tree

end PrefixMax
