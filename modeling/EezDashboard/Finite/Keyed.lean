import Mathlib.Data.List.Nodup
import Mathlib.Tactic.Common

/-!
# Rows with a key

A row is put in the place of the one with its key, or at the end.  What is put or removed is told apart from the
other rows by its key: `others` has these in order, and they stay as they are.
-/

set_option autoImplicit false

namespace Keyed

universe u v

variable {α : Type u} {κ : Type v} [DecidableEq κ] (key : α → κ) {rows : List α} {row x : α} {k : κ} {P : α → Prop}

def put : List α → α → List α
  | [], row => [row]
  | x :: rows, row => if key x = key row then row :: rows else x :: put rows row

/-- The rows with other keys. -/
def others (k : κ) (rows : List α) : List α := rows.filter fun x ↦ key x ≠ k

/-- The row with a key. -/
def find (k : κ) (rows : List α) : Option α := rows.find? fun x ↦ key x = k

theorem mem_others : x ∈ others key k rows ↔ x ∈ rows ∧ key x ≠ k := by simp [others]

theorem others_put (h : key row = k) : others key k (put key rows row) = others key k rows := by
  subst h
  induction rows with
  | nil => simp [put, others]
  | cons x rows ih =>
    rw [put]
    by_cases h : key x = key row
    · simp [others, h]
    · rw [if_neg h]
      simp only [others] at ih
      simp only [others, List.filter_cons, ih]

theorem others_others : others key k (others key k rows) = others key k rows := by
  simp [others, List.filter_filter]

theorem others_append_singleton (h : key row = k) : others key k (rows ++ [row]) = others key k rows := by
  simp [others, h]

theorem mem_of_mem_put (h : x ∈ put key rows row) : x = row ∨ x ∈ rows := by
  induction rows with
  | nil => exact .inl (List.mem_singleton.1 h)
  | cons y rows ih =>
    rw [put] at h
    split at h
    · exact (List.mem_cons.1 h).imp_right (List.mem_cons_of_mem y)
    · obtain rfl | h := List.mem_cons.1 h
      · exact .inr List.mem_cons_self
      · exact (ih h).imp_right (List.mem_cons_of_mem y)

theorem mem_put_self : row ∈ put key rows row := by
  induction rows with
  | nil => exact List.mem_singleton_self row
  | cons x rows ih =>
    rw [put]
    split
    · exact List.mem_cons_self
    · exact List.mem_cons_of_mem x ih

theorem keys_put : (put key rows row).map key =
    if key row ∈ rows.map key then rows.map key else rows.map key ++ [key row] := by
  induction rows with
  | nil => rfl
  | cons x rows ih =>
    rw [put]
    by_cases h : key x = key row
    · simp [h]
    · rw [if_neg h, List.map_cons, ih]
      have hne : key row ≠ key x := Ne.symm h
      split <;> simp_all

theorem nodup_put (h : (rows.map key).Nodup) : ((put key rows row).map key).Nodup := by
  rw [keys_put]
  split
  next => exact h
  next hnew =>
    refine List.nodup_append.2 ⟨h, List.nodup_singleton _, fun a ha b hb hab ↦ hnew ?_⟩
    rwa [← List.mem_singleton.1 hb, ← hab]

theorem mem_put (h : (rows.map key).Nodup) : x ∈ put key rows row ↔ x = row ∨ x ∈ rows ∧ key x ≠ key row := by
  constructor
  · intro hx
    by_cases hk : key x = key row
    · exact .inl (List.inj_on_of_nodup_map (nodup_put key h) hx (mem_put_self key) hk)
    · exact (mem_of_mem_put key hx).imp_right fun hx ↦ ⟨hx, hk⟩
  · rintro (rfl | ⟨hx, hk⟩)
    · exact mem_put_self key
    · have hothers : x ∈ others key (key row) (put key rows row) := by
        rw [others_put key rfl]
        exact (mem_others key).2 ⟨hx, hk⟩
      exact ((mem_others key).1 hothers).1

theorem put_of_mem (h : (rows.map key).Nodup) (hrow : row ∈ rows) : put key rows row = rows := by
  induction rows with
  | nil => cases hrow
  | cons x rows ih =>
    obtain ⟨hnot, hrest⟩ := List.nodup_cons.1 h
    rw [put]
    obtain rfl | hrow := List.mem_cons.1 hrow
    · rw [if_pos rfl]
    · rw [if_neg fun hk ↦ hnot (List.mem_map.2 ⟨row, hrow, hk.symm⟩), ih hrest hrow]

theorem put_of_notMem (h : key row ∉ rows.map key) : put key rows row = rows ++ [row] := by
  induction rows with
  | nil => rfl
  | cons x rows ih =>
    rw [List.map_cons, List.mem_cons, not_or] at h
    rw [put, if_neg (Ne.symm h.1), ih h.2, List.cons_append]

theorem nodup_others (h : (rows.map key).Nodup) : ((others key k rows).map key).Nodup :=
  h.sublist (List.filter_sublist.map key)

theorem others_of_notMem (h : k ∉ rows.map key) : others key k rows = rows :=
  List.filter_eq_self.2 fun _ hx ↦ decide_eq_true fun hk ↦ h (List.mem_map.2 ⟨_, hx, hk⟩)

theorem length_others (h : (rows.map key).Nodup) (hk : k ∈ rows.map key) :
    (others key k rows).length + 1 = rows.length := by
  induction rows with
  | nil => cases hk
  | cons x rows ih =>
    obtain ⟨hnot, hrest⟩ := List.nodup_cons.1 h
    by_cases hx : key x = k
    · have hothers := others_of_notMem key (hx ▸ hnot)
      rw [others] at hothers ⊢
      rw [List.filter_cons_of_neg (by simp [hx]), hothers, List.length_cons]
    · have hmem : k ∈ rows.map key := (List.mem_cons.1 hk).resolve_left (Ne.symm hx)
      have hlength := ih hrest hmem
      rw [others] at hlength ⊢
      rw [List.filter_cons_of_pos (by simp [hx]), List.length_cons, List.length_cons, hlength]

theorem mem_keys_others {k' : κ} : k' ∈ (others key k rows).map key ↔ k' ∈ rows.map key ∧ k' ≠ k := by
  simp only [List.mem_map, mem_others]
  constructor
  · rintro ⟨x, ⟨hx, hk⟩, rfl⟩
    exact ⟨⟨x, hx, rfl⟩, hk⟩
  · rintro ⟨⟨x, hx, rfl⟩, hk⟩
    exact ⟨x, ⟨hx, hk⟩, rfl⟩

theorem find_eq_some (h : (rows.map key).Nodup) : find key k rows = some x ↔ x ∈ rows ∧ key x = k := by
  induction rows with
  | nil => simp [find]
  | cons y rows ih =>
    obtain ⟨hnot, hrest⟩ := List.nodup_cons.1 h
    rw [find, List.find?_cons, List.mem_cons]
    by_cases hk : key y = k
    · simp only [hk, decide_true]
      constructor
      · rintro ⟨⟩
        exact ⟨.inl rfl, hk⟩
      · rintro ⟨rfl | hx, hxk⟩
        · rfl
        · exact absurd (List.mem_map.2 ⟨x, hx, hxk.trans hk.symm⟩) hnot
    · simp only [hk, decide_false]
      refine (ih hrest).trans ⟨fun ⟨hx, hxk⟩ ↦ ⟨.inr hx, hxk⟩, fun ⟨hx, hxk⟩ ↦ ⟨hx.resolve_left ?_, hxk⟩⟩
      rintro rfl
      exact hk hxk

theorem find_eq_none : find key k rows = none ↔ k ∉ rows.map key := by
  simp [find]

end Keyed
