import Mathlib.Data.List.Nodup
import Mathlib.Data.List.TakeWhile

/-!
# A window on the newest rows of a log

Rows that carry a key, sorted with the newest first.  `latest` keeps the last row of each key, the
way a map does that is filled row by row, and `newest` sorts what is left and cuts it off.

A window on a whole log is one of its prefixes.  Such a window is rebuilt from pieces: rows kept from
an earlier window and pages read again, in any order and with repetitions.  What a piece has to
satisfy is `Settled`: each of its rows is the one the log keeps for its key, or is followed by another
row of that key.  Then `newest` depends on the keys alone (`newest_eq`).
-/

set_option autoImplicit false

namespace Window

variable {α κ : Type} [DecidableEq κ] (key : α → κ)

/-! ## One row for each key -/

/-- Put a row in place of the one with its key, or behind the others. -/
def set (rows : List α) (x : α) : List α :=
  if key x ∈ rows.map key then rows.map fun y ↦ if key y = key x then x else y else rows ++ [x]

/-- The last row of each key, where the first one stood. -/
def latest (rows : List α) : List α := rows.foldl (set key) []

/-- The first row of each key. -/
def firsts : List α → List α
  | [] => []
  | x :: rows => x :: (firsts rows).filter fun y ↦ key y ≠ key x

/-- Every row is one of `full`, or is followed by another one of its key. -/
def Settled (full : List α) : List α → Prop
  | [] => True
  | x :: rows => (x ∈ full ∨ key x ∈ rows.map key) ∧ Settled full rows

section Keys

variable {key} {full rows rows' : List α} {x y : α}

theorem mem_set : x ∈ set key rows y ↔ x = y ∨ x ∈ rows ∧ key x ≠ key y := by
  unfold set
  split
  next hy =>
    rw [List.mem_map]
    constructor
    · rintro ⟨z, hz, rfl⟩
      split
      next => exact .inl rfl
      next hne => exact .inr ⟨hz, hne⟩
    · rintro (rfl | ⟨hx, hne⟩)
      · obtain ⟨z, hz, hkey⟩ := List.mem_map.1 hy
        exact ⟨z, hz, if_pos hkey⟩
      · exact ⟨x, hx, if_neg hne⟩
  next hy =>
    rw [List.mem_append, List.mem_singleton]
    constructor
    · rintro (hx | rfl)
      · exact .inr ⟨hx, fun heq ↦ hy (heq ▸ List.mem_map_of_mem hx)⟩
      · exact .inl rfl
    · rintro (rfl | ⟨hx, -⟩)
      · exact .inr rfl
      · exact .inl hx

theorem nodup_set (h : (rows.map key).Nodup) (y : α) : ((set key rows y).map key).Nodup := by
  unfold set
  split
  next =>
    have hmap : (rows.map fun z ↦ if key z = key y then y else z).map key = rows.map key := by
      rw [List.map_map]
      refine List.map_congr_left fun z _ ↦ ?_
      rw [Function.comp_apply]
      split
      next heq => exact heq.symm
      next => rfl
    rwa [hmap]
  next hy =>
    rw [List.map_append, List.nodup_append]
    refine ⟨h, List.nodup_singleton _, fun a ha b hb ↦ ?_⟩
    obtain rfl := List.mem_singleton.1 hb
    exact fun heq ↦ hy (heq ▸ ha)

theorem nodup_latest (rows : List α) : ((latest key rows).map key).Nodup := by
  have hfold : ∀ m : List α, (m.map key).Nodup → ((rows.foldl (set key) m).map key).Nodup := by
    induction rows with
    | nil => exact fun _ h ↦ h
    | cons x rows ih => exact fun m h ↦ ih _ (nodup_set h x)
  exact hfold [] List.nodup_nil

omit [DecidableEq κ] in
theorem Settled.append (h : Settled key full rows) (h' : Settled key full rows') :
    Settled key full (rows ++ rows') := by
  induction rows with
  | nil => exact h'
  | cons x rows ih =>
    refine ⟨h.1.imp_right fun hx ↦ ?_, ih h.2⟩
    exact List.map_append ▸ List.mem_append_left _ hx

omit [DecidableEq κ] in
theorem settled_of_subset (h : ∀ x ∈ rows, x ∈ full) : Settled key full rows := by
  induction rows with
  | nil => trivial
  | cons x rows ih =>
    rw [List.forall_mem_cons] at h
    exact ⟨.inl h.1, ih h.2⟩

/-- **Which rows are kept** depends on the keys alone: for each key that occurs, the one `full` has. -/
theorem mem_latest (hfull : (full.map key).Nodup) (h : Settled key full rows) :
    x ∈ latest key rows ↔ x ∈ full ∧ key x ∈ rows.map key := by
  have hfold : ∀ m : List α, x ∈ rows.foldl (set key) m ↔
      (x ∈ full ∧ key x ∈ rows.map key) ∨ (x ∈ m ∧ key x ∉ rows.map key) := by
    induction rows with
    | nil => simp
    | cons y rows ih =>
      intro m
      rw [List.foldl_cons, ih h.2, mem_set, List.map_cons, List.mem_cons]
      constructor
      · rintro (⟨hx, hkey⟩ | ⟨rfl | ⟨hx, hne⟩, hkey⟩)
        · exact .inl ⟨hx, .inr hkey⟩
        · exact .inl ⟨h.1.resolve_right hkey, .inl rfl⟩
        · exact .inr ⟨hx, fun hmem ↦ hmem.elim hne hkey⟩
      · rintro (⟨hx, hkey⟩ | ⟨hx, hkey⟩)
        · by_cases hlater : key x ∈ rows.map key
          · exact .inl ⟨hx, hlater⟩
          · have heq := hkey.resolve_right hlater
            have hy : y ∈ full := h.1.resolve_right (heq ▸ hlater)
            exact .inr ⟨.inl (List.inj_on_of_nodup_map hfull hx hy heq), hlater⟩
        · rw [not_or] at hkey
          exact .inr ⟨.inr ⟨hx, hkey.1⟩, hkey.2⟩
  rw [latest, hfold]
  simp

/-! ## The whole log -/

theorem firsts_sublist (rows : List α) : (firsts key rows).Sublist rows := by
  induction rows with
  | nil => exact .slnil
  | cons x rows ih => exact (List.filter_sublist.trans ih).cons_cons x

theorem nodup_firsts (rows : List α) : ((firsts key rows).map key).Nodup := by
  induction rows with
  | nil => exact List.nodup_nil
  | cons x rows ih =>
    rw [firsts, List.map_cons, List.nodup_cons]
    refine ⟨fun hx ↦ ?_, ih.sublist (List.filter_sublist.map key)⟩
    obtain ⟨y, hy, heq⟩ := List.mem_map.1 hx
    exact of_decide_eq_true (List.mem_filter.1 hy).2 heq

theorem key_mem_firsts {k : κ} : k ∈ (firsts key rows).map key ↔ k ∈ rows.map key := by
  induction rows with
  | nil => rfl
  | cons x rows ih =>
    rw [firsts, List.map_cons, List.map_cons, List.mem_cons, List.mem_cons, ← ih]
    refine or_congr_right' fun hne ↦ ?_
    simp only [List.mem_map, List.mem_filter, decide_eq_true_eq]
    constructor
    · rintro ⟨y, ⟨hy, -⟩, rfl⟩
      exact ⟨y, hy, rfl⟩
    · rintro ⟨y, hy, rfl⟩
      exact ⟨y, ⟨hy, hne⟩, rfl⟩

theorem firsts_append (h : ∀ x ∈ rows, key x ∉ rows'.map key) :
    firsts key (rows ++ rows') = firsts key rows ++ firsts key rows' := by
  induction rows with
  | nil => rfl
  | cons x rows ih =>
    rw [List.forall_mem_cons] at h
    rw [List.cons_append, firsts, ih h.2, firsts, List.filter_append, List.cons_append]
    congr 2
    refine List.filter_eq_self.2 fun y hy ↦ decide_eq_true fun heq ↦ h.1 ?_
    rw [← heq]
    exact key_mem_firsts.1 (List.mem_map_of_mem hy)

theorem mem_firsts_append (h : key x ∉ rows.map key) :
    x ∈ firsts key (rows ++ x :: rows') := by
  induction rows with
  | nil => exact List.mem_cons_self
  | cons y rows ih =>
    rw [List.map_cons, List.mem_cons, not_or] at h
    refine List.mem_cons_of_mem _ (List.mem_filter.2 ⟨ih h.2, decide_eq_true h.1⟩)

/-- A page of a log read oldest first is settled, when no key of the page comes again after it. -/
theorem settled_page {older page newer : List α}
    (h : ∀ x ∈ page, key x ∉ newer.map key) :
    Settled key (firsts key (older ++ page ++ newer).reverse) page := by
  induction page generalizing older with
  | nil => trivial
  | cons x page ih =>
    rw [List.forall_mem_cons] at h
    have hrest : Settled key (firsts key ((older ++ [x]) ++ page ++ newer).reverse) page := ih h.2
    rw [List.append_assoc older [x] page, List.singleton_append] at hrest
    refine ⟨?_, hrest⟩
    by_cases hx : key x ∈ page.map key
    · exact .inr hx
    · refine .inl ?_
      have hsplit : (older ++ x :: page ++ newer).reverse =
          (newer.reverse ++ page.reverse) ++ x :: older.reverse := by simp
      rw [hsplit]
      refine mem_firsts_append ?_
      rw [List.map_append, List.mem_append, List.map_reverse, List.mem_reverse, List.map_reverse,
        List.mem_reverse, not_or]
      exact ⟨h.1, hx⟩

end Keys

/-! ## Sorted and cut off -/

/-- The `limit` newest rows, each key once; `le` puts the newer row first. -/
def newest (le : α → α → Bool) (limit : ℕ) (rows : List α) : List α :=
  ((latest key rows).mergeSort le).take limit

variable {key} {full rows rows' : List α} {le : α → α → Bool} {limit : ℕ}

/-- **The window depends on the keys alone.** -/
theorem newest_eq (htrans : ∀ a b c, le a b → le b c → le a c) (htotal : ∀ a b, le a b || le b a)
    (hfull : (full.map key).Nodup) (hsorted : full.Pairwise fun a b ↦ le a b ∧ ¬le b a)
    (h : Settled key full rows) :
    newest key le limit rows = (full.filter fun x ↦ key x ∈ rows.map key).take limit := by
  have hperm : ((latest key rows).mergeSort le).Perm (full.filter fun x ↦ key x ∈ rows.map key) := by
    refine (List.mergeSort_perm _ _).trans ?_
    refine (List.perm_ext_iff_of_nodup (nodup_latest rows).of_map (hfull.of_map.filter _)).2 ?_
    intro x
    rw [mem_latest hfull h, List.mem_filter, decide_eq_true_eq]
  have hstrict : (full.filter fun x ↦ key x ∈ rows.map key).Pairwise fun a b ↦ le a b ∧ ¬le b a :=
    hsorted.filter _
  have heq : (latest key rows).mergeSort le = full.filter fun x ↦ key x ∈ rows.map key := by
    refine hperm.eq_of_pairwise (fun a b ha hb hab hba ↦ ?_) (List.pairwise_mergeSort htrans htotal _)
      (hstrict.imp fun h ↦ h.1)
    have hboth := List.Pairwise.forall_of_forall_of_flip (R := fun a b ↦ le a b → le b a → a = b)
      (fun a _ _ _ ↦ rfl) (hstrict.imp fun h _ hba ↦ absurd hba h.2)
      (hstrict.imp fun h hba _ ↦ absurd hba h.2)
    exact hboth (hperm.mem_iff.1 ha) hb hab hba
  rw [newest, heq]

/-! ## Prefixes of a log -/

/-- What a log has of the rows a downward closed test accepts is a prefix. -/
theorem filter_isPrefix {p : α → Bool} (h : full.Pairwise fun a b ↦ p b = true → p a = true) :
    full.filter p <+: full := by
  induction full with
  | nil => exact List.prefix_rfl
  | cons x full ih =>
    rw [List.pairwise_cons] at h
    cases hx : p x with
    | true =>
      rw [List.filter_cons_of_pos hx]
      exact (List.prefix_cons_inj x).2 (ih h.2)
    | false =>
      have hnone : full.filter p = [] := by
        rw [List.filter_eq_nil_iff]
        intro y hy hpy
        rw [h.1 y hy hpy] at hx
        cases hx
      rw [List.filter_cons_of_neg (by simp [hx]), hnone]
      exact List.nil_prefix

/-- A prefix has, with a row, every row before it. -/
theorem pairwise_of_isPrefix (hfull : full.Nodup) (h : rows <+: full) :
    full.Pairwise fun a b ↦ b ∈ rows → a ∈ rows := by
  obtain ⟨rest, rfl⟩ := h
  refine List.pairwise_append.2 ⟨List.Pairwise.imp_of_mem (fun ha _ _ _ ↦ ha) (List.pairwise_of_forall
    fun _ _ ↦ trivial), ?_, fun a ha _ _ _ ↦ ha⟩
  refine (List.pairwise_of_forall fun _ _ ↦ trivial).imp_of_mem fun _ hb _ hmem ↦ ?_
  exact absurd hb ((List.nodup_append.1 hfull).2.2 _ hmem _ · rfl)

/-- The rows whose keys occur in a prefix are the prefix. -/
theorem filter_key_isPrefix (hfull : (full.map key).Nodup) (h : rows <+: full) :
    (full.filter fun x ↦ key x ∈ rows.map key) = rows := by
  obtain ⟨rest, rfl⟩ := h
  rw [List.filter_append]
  have hself : (rows.filter fun x ↦ decide (key x ∈ rows.map key)) = rows :=
    List.filter_eq_self.2 fun x hx ↦ decide_eq_true (List.mem_map_of_mem hx)
  have hrest : (rest.filter fun x ↦ decide (key x ∈ rows.map key)) = [] := by
    rw [List.filter_eq_nil_iff]
    intro x hx hmem
    rw [List.map_append] at hfull
    exact (List.nodup_append.1 hfull).2.2 _ (of_decide_eq_true hmem) _ (List.mem_map_of_mem hx) rfl
  rw [hself, hrest, List.append_nil]

end Window
