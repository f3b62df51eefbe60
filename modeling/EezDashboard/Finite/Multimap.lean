import Mathlib.Data.List.Nodup
import Mathlib.Data.List.Induction
import Mathlib.Tactic.Common

/-!
# Sets under keys

A map from keys to sets that remembers the order of insertion, of its keys and of the members of each set, as
a list.  `ofPairs` fills it member by member.
-/

set_option autoImplicit false

namespace Multimap

variable {κ α : Type} [DecidableEq κ] [DecidableEq α]

/-- `set.add(a)` -/
def insert (set : List α) (a : α) : List α := if a ∈ set then set else set ++ [a]

/-- `if (!map.has(k)) map.set(k, new Set()); map.get(k).add(a)` -/
def add : List (κ × List α) → κ → α → List (κ × List α)
  | [], k, a => [(k, [a])]
  | (k', set) :: rest, k, a => if k' = k then (k', insert set a) :: rest else (k', set) :: add rest k a

/-- All members, one after another. -/
def ofPairs (pairs : List (κ × α)) : List (κ × List α) := pairs.foldl (fun map p ↦ add map p.1 p.2) []

variable {map : List (κ × List α)} {set : List α} {k k' : κ} {a a' : α} {pairs : List (κ × α)}

omit [DecidableEq κ] in
theorem mem_insert : a' ∈ insert set a ↔ a' ∈ set ∨ a' = a := by
  rw [insert]
  split
  next h => exact ⟨.inl, fun h' ↦ h'.elim id fun e ↦ e ▸ h⟩
  next => rw [List.mem_append, List.mem_singleton]

omit [DecidableEq κ] in
theorem nodup_insert (h : set.Nodup) : (insert set a).Nodup := by
  rw [insert]
  split
  next => exact h
  next hnot => exact List.nodup_append.2 ⟨h, List.nodup_singleton a, fun x hx y hy e ↦
    hnot (List.mem_singleton.1 hy ▸ e ▸ hx)⟩

/-- A map has one entry for each key, and each of its sets has members, once each. -/
structure Lawful (map : List (κ × List α)) : Prop where
  keys : (map.map Prod.fst).Nodup
  sets : ∀ e ∈ map, e.2.Nodup ∧ e.2 ≠ []

theorem mem_keys_add : k' ∈ (add map k a).map Prod.fst ↔ k' ∈ map.map Prod.fst ∨ k' = k := by
  induction map with
  | nil => simp [add]
  | cons e map ih =>
    obtain ⟨k₀, set⟩ := e
    rw [add]
    split
    next h =>
      subst h
      simp only [List.map_cons, List.mem_cons]
      tauto
    next => simp only [List.map_cons, List.mem_cons, ih, or_assoc]

theorem Lawful.add (h : Lawful map) (k : κ) (a : α) : Lawful (add map k a) := by
  induction map with
  | nil => exact ⟨List.nodup_singleton k, by simp [Multimap.add]⟩
  | cons e map ih =>
    obtain ⟨k₀, set⟩ := e
    obtain ⟨hkey, hkeys⟩ := List.nodup_cons.1 h.keys
    obtain ⟨hset, hsets⟩ := List.forall_mem_cons.1 h.sets
    have hrest := ih ⟨hkeys, hsets⟩
    rw [Multimap.add]
    split
    next =>
      refine ⟨h.keys, List.forall_mem_cons.2 ⟨⟨nodup_insert hset.1, ?_⟩, hsets⟩⟩
      exact List.ne_nil_of_mem (mem_insert.2 (.inr rfl))
    next hne =>
      refine ⟨List.nodup_cons.2 ⟨fun hmem ↦ ?_, hrest.keys⟩, List.forall_mem_cons.2 ⟨hset, hrest.sets⟩⟩
      exact (mem_keys_add.1 hmem).elim hkey hne

/-- The key has the member. -/
def Has (map : List (κ × List α)) (k : κ) (a : α) : Prop := ∃ set, (k, set) ∈ map ∧ a ∈ set

omit [DecidableEq κ] [DecidableEq α] in
theorem has_cons : Has ((k, set) :: map) k' a' ↔ k' = k ∧ a' ∈ set ∨ Has map k' a' := by
  constructor
  · rintro ⟨set', hmem, ha⟩
    obtain heq | hmem := List.mem_cons.1 hmem
    · obtain ⟨rfl, rfl⟩ := Prod.mk.inj heq
      exact .inl ⟨rfl, ha⟩
    · exact .inr ⟨set', hmem, ha⟩
  · rintro (⟨rfl, ha⟩ | ⟨set', hmem, ha⟩)
    · exact ⟨set, List.mem_cons_self, ha⟩
    · exact ⟨set', List.mem_cons_of_mem _ hmem, ha⟩

theorem has_add : Has (add map k a) k' a' ↔ Has map k' a' ∨ k' = k ∧ a' = a := by
  induction map with
  | nil =>
    rw [add, has_cons, List.mem_singleton]
    exact or_comm
  | cons e map ih =>
    obtain ⟨k₀, set⟩ := e
    rw [add]
    split
    next h =>
      subst h
      rw [has_cons, has_cons, mem_insert]
      tauto
    next => rw [has_cons, has_cons, ih, or_assoc]

theorem ofPairs_append (pairs pairs' : List (κ × α)) :
    ofPairs (pairs ++ pairs') = pairs'.foldl (fun map p ↦ add map p.1 p.2) (ofPairs pairs) :=
  List.foldl_append

theorem lawful_ofPairs (pairs : List (κ × α)) : Lawful (ofPairs pairs) := by
  induction pairs using List.reverseRecOn with
  | nil => exact ⟨List.nodup_nil, nofun⟩
  | append_singleton pairs p ih =>
    rw [ofPairs_append]
    exact ih.add p.1 p.2

/-- **A key has the members it was given.** -/
theorem has_ofPairs : Has (ofPairs pairs) k a ↔ (k, a) ∈ pairs := by
  induction pairs using List.reverseRecOn with
  | nil => exact iff_of_false (fun ⟨_, hmem, _⟩ ↦ List.not_mem_nil hmem) List.not_mem_nil
  | append_singleton pairs p ih =>
    rw [ofPairs_append, List.foldl_cons, List.foldl_nil, has_add, ih, List.mem_append, List.mem_singleton,
      ← Prod.mk.injEq]

theorem mem_keys_ofPairs : k ∈ (ofPairs pairs).map Prod.fst ↔ ∃ a, (k, a) ∈ pairs := by
  constructor
  · intro h
    obtain ⟨⟨_, set⟩, hmem, rfl⟩ := List.mem_map.1 h
    obtain ⟨a, ha⟩ := List.exists_mem_of_ne_nil _ ((lawful_ofPairs pairs).sets _ hmem).2
    exact ⟨a, has_ofPairs.1 ⟨set, hmem, ha⟩⟩
  · rintro ⟨a, ha⟩
    obtain ⟨set, hmem, -⟩ := has_ofPairs.2 ha
    exact List.mem_map_of_mem hmem

omit [DecidableEq κ] [DecidableEq α] in
/-- One key has one set. -/
theorem Lawful.set_unique {set' : List α} (h : Lawful map) (hset : (k, set) ∈ map) (hset' : (k, set') ∈ map) :
    set = set' :=
  (Prod.mk.inj (List.inj_on_of_nodup_map h.keys hset hset' rfl)).2

omit [DecidableEq κ] [DecidableEq α] in
/-- When no member has two keys, the sets together have no repetitions. -/
theorem Lawful.nodup_flatMap (h : Lawful map) (hone : ∀ k k' a, Has map k a → Has map k' a → k = k') :
    (map.flatMap Prod.snd).Nodup := by
  rw [List.nodup_flatMap]
  refine ⟨fun e he ↦ (h.sets e he).1, (List.pairwise_map.1 h.keys).imp_of_mem ?_⟩
  intro e e' he he' hne a ha ha'
  exact hne (hone _ _ a ⟨e.2, he, ha⟩ ⟨e'.2, he', ha'⟩)

omit [DecidableEq κ] [DecidableEq α] in
theorem mem_flatMap_snd : a ∈ map.flatMap Prod.snd ↔ ∃ k, Has map k a := by
  rw [List.mem_flatMap]
  exact ⟨fun ⟨e, he, ha⟩ ↦ ⟨e.1, e.2, he, ha⟩, fun ⟨k, set, he, ha⟩ ↦ ⟨(k, set), he, ha⟩⟩

end Multimap
