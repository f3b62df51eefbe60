import Mathlib.Data.List.Count
import Mathlib.Data.List.Induction
import Mathlib.Data.Nat.Basic

/-!
# Items that are put and taken

Items come with a key and are numbered as they come; a taker names a key and gets the earliest item there is.
One item is taken at most once, and which takers get one depends on counts alone when nothing is put after the
first of them.
-/

set_option autoImplicit false

namespace Shelf

variable {κ : Type} [DecidableEq κ]

/-- What is put, by key, and then what is asked for. -/
structure Turn (κ : Type) where
  puts : List κ
  takes : Option κ

/-- The items that are there, with their numbers, and how many came. -/
structure State (κ : Type) where
  items : List (ℕ × κ)
  count : ℕ

variable (s : State κ) (t : Turn κ)

omit [DecidableEq κ] in
/-- The items when those of the turn have come. -/
def State.full : List (ℕ × κ) := s.items ++ (t.puts.zipIdx s.count).map Prod.swap

/-- What the turn takes. -/
def State.taken : Option (ℕ × κ) := t.takes.bind fun k ↦ (s.full t).find? fun x ↦ x.2 = k

def State.next : State κ where
  items := t.takes.elim (s.full t) fun k ↦ (s.full t).eraseP fun x ↦ x.2 = k
  count := s.count + t.puts.length

def start : State κ := ⟨[], 0⟩

def run (turns : List (Turn κ)) : State κ := turns.foldl State.next start

/-- What is there and what is taken at each of the turns. -/
def history : State κ → List (Turn κ) → List (List (ℕ × κ) × Option (ℕ × κ))
  | _, [] => []
  | s, t :: turns => (s.full t, s.taken t) :: history (s.next t) turns

/-- What the turn with this number takes. -/
def takenAt (turns : List (Turn κ)) (i : ℕ) : Option (ℕ × κ) :=
  turns[i]?.bind (run (turns.take i)).taken

variable {s t} {turns : List (Turn κ)} {i j n : ℕ} {k : κ}

theorem history_getElem? (s : State κ) (turns : List (Turn κ)) (i : ℕ) :
    (history s turns)[i]? = turns[i]?.map fun t ↦
      (((turns.take i).foldl State.next s).full t, ((turns.take i).foldl State.next s).taken t) := by
  induction turns generalizing s i with
  | nil => rfl
  | cons t turns ih =>
    cases i with
    | zero => rfl
    | succ i => exact ih (s.next t) i

theorem run_append_singleton : run (turns ++ [t]) = (run turns).next t := List.foldl_append

theorem run_count (turns : List (Turn κ)) : (run turns).count = (turns.flatMap Turn.puts).length := by
  induction turns using List.reverseRecOn with
  | nil => rfl
  | append_singleton turns t ih =>
    rw [run_append_singleton, List.flatMap_append, List.length_append, ← ih]
    simp [State.next]

/-! ## Numbers -/

omit [DecidableEq κ] in
theorem mem_numbered {puts : List κ} {m : ℕ} {x : ℕ × κ} :
    x ∈ (puts.zipIdx m).map Prod.swap ↔ m ≤ x.1 ∧ puts[x.1 - m]? = some x.2 := by
  obtain ⟨n, k⟩ := x
  rw [List.mem_map]
  constructor
  · rintro ⟨⟨k', n'⟩, hmem, heq⟩
    obtain ⟨rfl, rfl⟩ := Prod.mk.inj heq
    exact List.mem_zipIdx_iff_le_and_getElem?_sub.1 hmem
  · intro h
    exact ⟨(k, n), List.mem_zipIdx_iff_le_and_getElem?_sub.2 h, rfl⟩

/-- Items stand in the order of their numbers. -/
structure State.Ordered (s : State κ) : Prop where
  sorted : s.items.Pairwise fun x y ↦ x.1 < y.1
  lt : ∀ x ∈ s.items, x.1 < s.count

omit [DecidableEq κ] in
theorem State.Ordered.full (h : s.Ordered) (t : Turn κ) : (s.full t).Pairwise fun x y ↦ x.1 < y.1 := by
  rw [State.full, List.pairwise_append]
  refine ⟨h.sorted, ?_, fun x hx y hy ↦ Nat.lt_of_lt_of_le (h.lt x hx) (mem_numbered.1 hy).1⟩
  rw [List.pairwise_map, List.pairwise_iff_getElem]
  intro i j hi hj hij
  simpa using hij

theorem items_next_sublist : (s.next t).items.Sublist (s.full t) := by
  rw [State.next]
  cases t.takes with
  | none => exact .refl _
  | some k => exact List.eraseP_sublist

omit [DecidableEq κ] in
theorem full_lt (h : s.Ordered) {x : ℕ × κ} (hx : x ∈ s.full t) : x.1 < s.count + t.puts.length := by
  obtain hx | hx := List.mem_append.1 hx
  · exact Nat.lt_of_lt_of_le (h.lt x hx) (Nat.le_add_right _ _)
  · obtain ⟨hle, hput⟩ := mem_numbered.1 hx
    obtain ⟨hlt, -⟩ := List.getElem?_eq_some_iff.1 hput
    omega

theorem State.Ordered.next (h : s.Ordered) (t : Turn κ) : (s.next t).Ordered where
  sorted := (h.full t).sublist items_next_sublist
  lt _ hx := full_lt h (items_next_sublist.subset hx)

theorem ordered_run (turns : List (Turn κ)) : (run turns).Ordered := by
  induction turns using List.reverseRecOn with
  | nil => exact ⟨List.Pairwise.nil, nofun⟩
  | append_singleton turns t ih =>
    rw [run_append_singleton]
    exact ih.next t

/-! ## What is taken -/

/-- **A turn takes the earliest item with its key.** -/
theorem taken_eq_some_iff (h : s.Ordered) {x : ℕ × κ} : s.taken t = some x ↔
    t.takes = some x.2 ∧ x ∈ s.full t ∧ ∀ y ∈ s.full t, y.2 = x.2 → x.1 ≤ y.1 := by
  rw [State.taken, Option.bind_eq_some_iff]
  constructor
  · rintro ⟨k, htakes, hfind⟩
    obtain ⟨hk, before, after, hsplit, hbefore⟩ := List.find?_eq_some_iff_append.1 hfind
    obtain rfl : x.2 = k := of_decide_eq_true hk
    refine ⟨htakes, hsplit ▸ by simp, fun y hy hkey ↦ ?_⟩
    have hordered := h.full t
    rw [hsplit] at hy hordered
    obtain hy | hy := List.mem_append.1 hy
    · exact absurd hkey (by simpa using hbefore y hy)
    · obtain rfl | hy := List.mem_cons.1 hy
      · exact le_rfl
      · exact Nat.le_of_lt ((List.pairwise_cons.1 (List.pairwise_append.1 hordered).2.1).1 y hy)
  · rintro ⟨htakes, hx, hfirst⟩
    obtain ⟨y, hy⟩ : ∃ y, (s.full t).find? (fun y ↦ y.2 = x.2) = some y :=
      Option.isSome_iff_exists.1 (List.find?_isSome.2 ⟨x, hx, decide_eq_true rfl⟩)
    refine ⟨x.2, htakes, hy.trans (congrArg _ ?_)⟩
    obtain ⟨hk, before, after, hsplit, hbefore⟩ := List.find?_eq_some_iff_append.1 hy
    have hordered := h.full t
    have hle := hfirst y (List.mem_of_find?_eq_some hy) (of_decide_eq_true hk)
    rw [hsplit] at hx hordered
    obtain hx | hx := List.mem_append.1 hx
    · exact absurd (rfl : x.2 = x.2) (by simpa using hbefore x hx)
    · obtain rfl | hx := List.mem_cons.1 hx
      · rfl
      · have hlt := (List.pairwise_cons.1 (List.pairwise_append.1 hordered).2.1).1 x hx
        exact absurd hle (not_le.2 hlt)

omit [DecidableEq κ] in
theorem mem_eraseP_iff {l : List (ℕ × κ)} (h : l.Pairwise fun x y ↦ x.1 < y.1) (p : ℕ × κ → Bool) {x : ℕ × κ} :
    x ∈ l.eraseP p ↔ x ∈ l ∧ l.find? p ≠ some x := by
  induction l with
  | nil => simp
  | cons a l ih =>
    obtain ⟨ha, hl⟩ := List.pairwise_cons.1 h
    by_cases hp : p a
    · rw [List.eraseP_cons_of_pos hp, List.find?_cons_of_pos hp]
      constructor
      · exact fun hx ↦ ⟨List.mem_cons_of_mem _ hx, fun heq ↦ Nat.ne_of_lt (ha x hx) (congrArg Prod.fst (Option.some.inj heq))⟩
      · exact fun ⟨hx, hne⟩ ↦ (List.mem_cons.1 hx).resolve_left fun heq ↦ hne (heq ▸ rfl)
    · rw [List.eraseP_cons_of_neg hp, List.find?_cons_of_neg hp, List.mem_cons, List.mem_cons, ih hl]
      constructor
      · rintro (rfl | ⟨hx, hne⟩)
        · exact ⟨.inl rfl, fun heq ↦ hp (List.find?_some heq)⟩
        · exact ⟨.inr hx, hne⟩
      · exact fun ⟨hx, hne⟩ ↦ hx.imp_right fun hx ↦ ⟨hx, hne⟩

theorem mem_items_next (h : s.Ordered) {x : ℕ × κ} : x ∈ (s.next t).items ↔ x ∈ s.full t ∧ s.taken t ≠ some x := by
  rw [State.next, State.taken]
  cases t.takes with
  | none => simp
  | some k => exact mem_eraseP_iff (h.full t) _

theorem takenAt_append_left (h : i < turns.length) : takenAt (turns ++ [t]) i = takenAt turns i := by
  rw [takenAt, takenAt, List.getElem?_append_left h, List.take_append_of_le_length (Nat.le_of_lt h)]

theorem takenAt_append_self : takenAt (turns ++ [t]) turns.length = (run turns).taken t := by
  simp [takenAt]

theorem takenAt_lt {x : ℕ × κ} (h : takenAt turns i = some x) : i < turns.length := by
  obtain ⟨t, ht, -⟩ := Option.bind_eq_some_iff.1 h
  exact (List.getElem?_eq_some_iff.1 ht).1

/-- What is taken had come. -/
theorem takenAt_lt_count {x : ℕ × κ} (h : takenAt turns i = some x) : x.1 < (turns.flatMap Turn.puts).length := by
  obtain ⟨t, ht, htaken⟩ := Option.bind_eq_some_iff.1 h
  have hlt := full_lt (ordered_run _) ((taken_eq_some_iff (ordered_run _)).1 htaken).2.1
  obtain ⟨hi, rfl⟩ := List.getElem?_eq_some_iff.1 ht
  calc
    x.1 < (run (turns.take i)).count + turns[i].puts.length := hlt
    _ = ((turns.take (i + 1)).flatMap Turn.puts).length := by
      rw [run_count, List.take_add_one, List.flatMap_append, List.length_append, ht]
      simp
    _ ≤ (turns.flatMap Turn.puts).length := by
      conv_rhs => rw [← List.take_append_drop (i + 1) turns, List.flatMap_append, List.length_append]
      exact Nat.le_add_right _ _

theorem mem_full {x : ℕ × κ} (hitems : x ∈ (run turns).items ↔
      (turns.flatMap Turn.puts)[x.1]? = some x.2 ∧ ∀ j, takenAt turns j ≠ some x) :
    x ∈ (run turns).full t ↔
      ((turns ++ [t]).flatMap Turn.puts)[x.1]? = some x.2 ∧ ∀ j, takenAt turns j ≠ some x := by
  rw [State.full, List.mem_append, hitems, mem_numbered, run_count, List.flatMap_append, List.getElem?_append]
  have hput : [t].flatMap Turn.puts = t.puts := List.flatMap_singleton _ _
  rw [hput]
  split
  next hlt => exact or_iff_left fun h ↦ absurd h.1 (not_le.2 hlt)
  next hge =>
    have hnone : (turns.flatMap Turn.puts)[x.1]? = none := List.getElem?_eq_none (not_lt.1 hge)
    have hnew (j : ℕ) : takenAt turns j ≠ some x := fun h ↦ hge (takenAt_lt_count h)
    rw [hnone]
    refine ⟨fun h ↦ ⟨(h.resolve_left fun h ↦ nomatch h.1).2, hnew⟩, fun h ↦ .inr ⟨not_lt.1 hge, h.1⟩⟩

/-- **What is there came and was not taken.** -/
theorem mem_items_iff {x : ℕ × κ} : x ∈ (run turns).items ↔
    (turns.flatMap Turn.puts)[x.1]? = some x.2 ∧ ∀ j, takenAt turns j ≠ some x := by
  induction turns using List.reverseRecOn with
  | nil => simp [run, start]
  | append_singleton turns t ih =>
    rw [run_append_singleton, mem_items_next (ordered_run turns), mem_full ih, and_assoc]
    refine and_congr_right fun _ ↦ ⟨fun ⟨hold, hnew⟩ j hj ↦ ?_, fun h ↦ ⟨fun j hj ↦ ?_, ?_⟩⟩
    · have hlt := takenAt_lt hj
      rw [List.length_append, List.length_singleton] at hlt
      obtain hlt | rfl := Nat.lt_succ_iff_lt_or_eq.1 hlt
      · exact hold j ((takenAt_append_left hlt).symm.trans hj)
      · exact hnew (takenAt_append_self.symm.trans hj)
    · exact h j ((takenAt_append_left (takenAt_lt hj)).trans hj)
    · exact fun htaken ↦ h turns.length (takenAt_append_self.trans htaken)

/-- What a turn takes was not taken before, and what has its key and came earlier was. -/
theorem takenAt_eq_some {x : ℕ × κ} (h : takenAt turns i = some x) :
    (∃ t, turns[i]? = some t ∧ t.takes = some x.2) ∧
      ((turns.take (i + 1)).flatMap Turn.puts)[x.1]? = some x.2 ∧ (∀ j < i, takenAt turns j ≠ some x) ∧
      ∀ n < x.1, ((turns.take (i + 1)).flatMap Turn.puts)[n]? = some x.2 →
        ∃ j < i, takenAt turns j = some (n, x.2) := by
  obtain ⟨t, ht, htaken⟩ := Option.bind_eq_some_iff.1 h
  obtain ⟨htakes, hx, hfirst⟩ := (taken_eq_some_iff (ordered_run _)).1 htaken
  have htake : turns.take (i + 1) = turns.take i ++ [t] := by
    rw [List.take_add_one, ht]
    rfl
  have hbefore (j : ℕ) (hj : j < i) : takenAt (turns.take i) j = takenAt turns j := by
    rw [takenAt, takenAt, List.getElem?_take_of_lt hj, List.take_take, min_eq_left (Nat.le_of_lt hj)]
  obtain ⟨hput, hnot⟩ := (mem_full mem_items_iff).1 hx
  rw [htake]
  refine ⟨⟨t, ht, htakes⟩, hput, fun j hj heq ↦ hnot j ((hbefore j hj).trans heq), fun n hn hkey ↦ ?_⟩
  by_contra! hnone
  have hmem : (n, x.2) ∈ (run (turns.take i)).full t := by
    refine (mem_full mem_items_iff).2 ⟨hkey, fun j hj ↦ ?_⟩
    have hlt : j < i := Nat.lt_of_lt_of_le (takenAt_lt hj) (List.length_take_le _ _)
    exact hnone j hlt ((hbefore j hlt).symm.trans hj)
  exact absurd (hfirst _ hmem rfl) (not_le.2 hn)

/-- **Nothing is taken twice.** -/
theorem takenAt_inj {x : ℕ × κ} (hi : takenAt turns i = some x) (hj : takenAt turns j = some x) : i = j := by
  obtain hlt | heq | hlt := lt_trichotomy i j
  · exact absurd hi ((takenAt_eq_some hj).2.2.1 i hlt)
  · exact heq
  · exact absurd hj ((takenAt_eq_some hi).2.2.1 j hlt)

/-- An item is there at the turn that puts it. -/
theorem exists_put (h : (turns.flatMap Turn.puts)[n]? = some k) :
    ∃ i t, turns[i]? = some t ∧ t.puts ≠ [] ∧ (n, k) ∈ (run (turns.take i)).full t := by
  induction turns using List.reverseRecOn with
  | nil => exact nomatch h
  | append_singleton turns t ih =>
    rw [List.flatMap_append, List.flatMap_singleton, List.getElem?_append] at h
    split at h
    next =>
      obtain ⟨i, t', ht', hputs, hmem⟩ := ih h
      have hi := (List.getElem?_eq_some_iff.1 ht').1
      refine ⟨i, t', (List.getElem?_append_left hi).trans ht', hputs, ?_⟩
      rwa [List.take_append_of_le_length (Nat.le_of_lt hi)]
    next hge =>
      refine ⟨turns.length, t, List.getElem?_concat_length, fun hnil ↦ ?_, List.mem_append_right _ ?_⟩
      · rw [hnil] at h
        exact nomatch h
      · rw [List.take_left, mem_numbered, run_count]
        exact ⟨not_lt.1 hge, h⟩

/-! ## How many are left -/

omit [DecidableEq κ] in
/-- Nothing is put after the first taker. -/
def PutsFirst (turns : List (Turn κ)) : Prop := turns.Pairwise fun t t' ↦ t.takes = none ∨ t'.puts = []

/-- How many items with the key there are. -/
def amount (items : List (ℕ × κ)) (k : κ) : ℕ := items.countP fun x ↦ x.2 = k

theorem amount_numbered (puts : List κ) (m : ℕ) (k : κ) :
    amount ((puts.zipIdx m).map Prod.swap) k = puts.count k := by
  conv_rhs => rw [← List.zipIdx_map_fst m puts]
  rw [amount, List.count, List.countP_map, List.countP_map]
  exact List.countP_congr fun x _ ↦ by simp

theorem amount_eraseP (items : List (ℕ × κ)) (k k' : κ) :
    amount (items.eraseP fun x ↦ x.2 = k') k = amount items k - if k' = k then 1 else 0 := by
  induction items with
  | nil => simp [amount]
  | cons x items ih =>
    simp only [amount] at ih ⊢
    by_cases hx : x.2 = k'
    · rw [List.eraseP_cons_of_pos (by simpa using hx), List.countP_cons, ← hx]
      simp only [decide_eq_true_eq]
      omega
    · rw [List.eraseP_cons_of_neg (by simpa using hx), List.countP_cons, ih, List.countP_cons]
      simp only [decide_eq_true_eq]
      -- an item with the other key is not the one that is gone
      have hne : ¬(k' = k ∧ x.2 = k) := fun h ↦ hx (h.2.trans h.1.symm)
      grind

theorem amount_full (s : State κ) (t : Turn κ) (k : κ) :
    amount (s.full t) k = amount s.items k + t.puts.count k := by
  rw [State.full, amount, List.countP_append, ← amount, ← amount, amount_numbered]

theorem amount_next (s : State κ) (t : Turn κ) (k : κ) :
    amount (s.next t).items k = amount s.items k + t.puts.count k - if t.takes = some k then 1 else 0 := by
  rw [State.next, ← amount_full]
  cases t.takes with
  | none => rfl
  | some k' => simp only [Option.elim_some, amount_eraseP, Option.some.injEq]

/-- Where something was asked for, nothing is put. -/
theorem takers_eq_zero_or (h : ∀ t' ∈ turns, t'.takes = none ∨ t.puts = []) :
    (turns.countP fun t ↦ t.takes = some k) = 0 ∨ t.puts = [] := by
  by_contra! hne
  obtain ⟨t', ht', hk⟩ := List.countP_pos_iff.1 (Nat.pos_of_ne_zero hne.1)
  obtain hnone | hnil := h t' ht'
  · exact absurd (hnone.symm.trans (of_decide_eq_true hk)) (Option.some_ne_none k).symm
  · exact hne.2 hnil

theorem PutsFirst.amount_items (h : PutsFirst turns) (k : κ) :
    amount (run turns).items k =
      (turns.flatMap Turn.puts).count k - turns.countP fun t ↦ t.takes = some k := by
  induction turns using List.reverseRecOn with
  | nil => rfl
  | append_singleton turns t ih =>
    obtain ⟨hturns, -, hlast⟩ := List.pairwise_append.1 h
    rw [run_append_singleton, amount_next, ih hturns, List.flatMap_append, List.flatMap_singleton, List.count_append,
      List.countP_append, List.countP_singleton]
    simp only [decide_eq_true_eq]
    obtain hzero | hnil := takers_eq_zero_or (k := k) fun t' ht' ↦ hlast t' ht' t (List.mem_singleton_self t)
    · rw [hzero]
      omega
    · rw [hnil, List.count_nil]
      omega

/-- **A taker gets an item when fewer takers came before it than there are items**, of its key. -/
theorem PutsFirst.isSome_takenAt_iff (h : PutsFirst turns) : (takenAt turns i).isSome ↔
    ∃ t k, turns[i]? = some t ∧ t.takes = some k ∧
      ((turns.take i).countP fun t ↦ t.takes = some k) < (turns.flatMap Turn.puts).count k := by
  have hfind (t : Turn κ) (k : κ) (ht : turns[i]? = some t) (hk : t.takes = some k) :
      ((run (turns.take i)).taken t).isSome ↔
        ((turns.take i).countP fun t ↦ t.takes = some k) < (turns.flatMap Turn.puts).count k := by
    obtain ⟨hi, rfl⟩ := List.getElem?_eq_some_iff.1 ht
    have hsplit : turns = turns.take i ++ turns[i] :: turns.drop (i + 1) := by simp
    obtain ⟨hbefore, hrest, hcross⟩ := List.pairwise_append.1 (hsplit ▸ h)
    -- nothing is put after this turn, which takes something
    have hnil : (turns.drop (i + 1)).flatMap Turn.puts = [] := by
      refine List.flatMap_eq_nil_iff.2 fun t' ht' ↦ ?_
      exact ((List.pairwise_cons.1 hrest).1 t' ht').resolve_left fun hnone ↦ nomatch hnone.symm.trans hk
    have hputs : (turns.flatMap Turn.puts).count k =
        ((turns.take i).flatMap Turn.puts).count k + turns[i].puts.count k := by
      conv_lhs => rw [hsplit, List.flatMap_append, List.flatMap_cons, hnil, List.append_nil, List.count_append]
    calc
      ((run (turns.take i)).taken turns[i]).isSome ↔ 0 < amount ((run (turns.take i)).full turns[i]) k := by
        rw [State.taken, hk, Option.bind_some, List.find?_isSome, amount, List.countP_pos_iff]
      _ ↔ _ := by
        rw [amount_full, PutsFirst.amount_items hbefore, hputs]
        obtain hzero | hnil := takers_eq_zero_or (k := k) fun t' ht' ↦ hcross t' ht' _ List.mem_cons_self
        · rw [hzero]
          omega
        · rw [hnil, List.count_nil]
          omega
  rw [takenAt]
  constructor
  · intro hsome
    obtain ⟨x, hx⟩ := Option.isSome_iff_exists.1 hsome
    obtain ⟨t, ht, htaken⟩ := Option.bind_eq_some_iff.1 hx
    have hk := ((taken_eq_some_iff (ordered_run _)).1 htaken).1
    exact ⟨t, x.2, ht, hk, (hfind t x.2 ht hk).1 (htaken ▸ rfl)⟩
  · rintro ⟨t, k, ht, hk, hlt⟩
    rw [ht]
    exact (hfind t k ht hk).2 hlt

end Shelf
