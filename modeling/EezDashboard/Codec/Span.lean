import Mathlib.Data.List.Basic
import Mathlib.Data.List.TakeDrop
import Mathlib.Tactic.Common

/-!
# Reading a list by position

An index-based reader keeps the whole input and moves a position through it.  What such a reader
has consumed between two positions is `Codec.Span l p q v`: the list `l` holds exactly `v` from
position `p` up to position `q`, and `q` is still inside `l`.

Stating the three facts together is what keeps the readers' proofs short.  Spans compose
(`Span.append`) and come apart again at any point of a concatenation (`span_append_iff`), and two
spans that start at the same position and have the same length are the same span, so a reader's
correctness is one chain of spans and no arithmetic about `drop` and `take`.
-/

set_option autoImplicit false

namespace Codec

universe u

variable {α : Type u} {l v w : List α} {p q r : ℕ}

/-- What `l[p:q]` denotes in a language with half-open slices. -/
def slice (l : List α) (p q : ℕ) : List α := (l.drop p).take (q - p)

/-- The list `l` holds exactly `v` between the positions `p` and `q`. -/
structure Span (l : List α) (p q : ℕ) (v : List α) : Prop where
  /-- The two positions are as far apart as `v` is long. -/
  len : p + v.length = q
  /-- The second position is inside the list. -/
  le : q ≤ l.length
  /-- What follows the first position is `v`, and then what follows the second. -/
  drop : l.drop p = v ++ l.drop q

theorem Span.start_le (h : Span l p q v) : p ≤ q := h.len ▸ Nat.le_add_right ..

theorem Span.start_le_length (h : Span l p q v) : p ≤ l.length := Nat.le_trans h.start_le h.le

theorem Span.length_eq (h : Span l p q v) : v.length = q - p := by
  have := h.len
  omega

theorem Span.nil (h : p ≤ l.length) : Span l p p [] := ⟨by simp, h, by simp⟩

@[simp] theorem span_nil_iff : Span l p q [] ↔ p = q ∧ p ≤ l.length := by
  refine ⟨fun h ↦ ⟨by simpa using h.len, h.start_le_length⟩, ?_⟩
  rintro ⟨rfl, h⟩
  exact Span.nil h

/-- The slice between two positions inside the list is a span. -/
theorem span_slice (hpq : p ≤ q) (hq : q ≤ l.length) : Span l p q (slice l p q) where
  len := by rw [slice, List.length_take, List.length_drop]; omega
  le := hq
  drop := by
    conv_lhs => rw [← List.take_append_drop (q - p) (l.drop p)]
    rw [slice, List.drop_drop, Nat.add_sub_cancel' hpq]

/-- A span is the slice between its positions. -/
theorem Span.eq_slice (h : Span l p q v) : v = slice l p q := by
  rw [slice, h.drop, ← h.length_eq, List.take_left]

theorem span_iff_slice : Span l p q v ↔ p ≤ q ∧ q ≤ l.length ∧ v = slice l p q :=
  ⟨fun h ↦ ⟨h.start_le, h.le, h.eq_slice⟩, fun ⟨h, h', e⟩ ↦ e ▸ span_slice h h'⟩

theorem Span.unique (h : Span l p q v) (h' : Span l p q w) : v = w := by
  rw [h.eq_slice, h'.eq_slice]

theorem Span.append (h : Span l p q v) (h' : Span l q r w) : Span l p r (v ++ w) where
  len := by rw [List.length_append, ← Nat.add_assoc, h.len, h'.len]
  le := h'.le
  drop := by rw [h.drop, h'.drop, List.append_assoc]

/-- **Spans come apart** at the joint of a concatenation. -/
theorem span_append_iff : Span l p r (v ++ w) ↔ ∃ q, Span l p q v ∧ Span l q r w := by
  refine ⟨fun h ↦ ⟨p + v.length, ?_⟩, fun ⟨q, h, h'⟩ ↦ h.append h'⟩
  have hlen := h.len
  have hle := h.le
  rw [List.length_append] at hlen
  have hd : l.drop (p + v.length) = w ++ l.drop r := by
    rw [← List.drop_drop, h.drop, List.append_assoc, List.drop_left]
  exact ⟨⟨rfl, by omega, by rw [hd, h.drop, List.append_assoc]⟩, ⟨by omega, hle, hd⟩⟩

theorem span_singleton_iff {a : α} : Span l p q [a] ↔ l[p]? = some a ∧ q = p + 1 := by
  constructor
  · intro h
    refine ⟨?_, by simpa using h.len.symm⟩
    have h0 : (l.drop p)[0]? = some a := by rw [h.drop]; rfl
    simpa using h0
  · rintro ⟨h, rfl⟩
    obtain ⟨hp, rfl⟩ := List.getElem?_eq_some_iff.mp h
    exact ⟨rfl, hp, List.drop_eq_getElem_cons hp⟩

theorem span_cons_iff {a : α} : Span l p r (a :: w) ↔ l[p]? = some a ∧ Span l (p + 1) r w := by
  rw [← List.singleton_append, span_append_iff]
  constructor
  · rintro ⟨q, h, h'⟩
    obtain ⟨ha, rfl⟩ := span_singleton_iff.mp h
    exact ⟨ha, h'⟩
  · rintro ⟨ha, h'⟩
    exact ⟨p + 1, span_singleton_iff.mpr ⟨ha, rfl⟩, h'⟩

/-- The last element of a span is the one before its end. -/
theorem Span.getLast?_eq (h : Span l p q v) (hne : v ≠ []) : v.getLast? = l[q - 1]? := by
  obtain ⟨w, a, rfl⟩ := (List.eq_nil_or_concat' v).resolve_left hne
  obtain ⟨m, -, hlast⟩ := span_append_iff.mp h
  obtain ⟨ha, rfl⟩ := span_singleton_iff.mp hlast
  simp [ha]

/-- The whole list is its only span from end to end. -/
@[simp] theorem span_whole_iff : Span l 0 l.length v ↔ v = l := by
  rw [span_iff_slice]
  simp [slice]

theorem span_self (l : List α) : Span l 0 l.length l := span_whole_iff.mpr rfl

/-- A span up to the end is all that is left. -/
theorem span_end_iff : Span l p l.length v ↔ p ≤ l.length ∧ v = l.drop p := by
  constructor
  · intro h
    exact ⟨h.start_le, by rw [h.drop, List.drop_length, List.append_nil]⟩
  · rintro ⟨hp, rfl⟩
    exact ⟨by rw [List.length_drop]; omega, Nat.le_refl _, by simp⟩

/-- A span of a suffix is a span of the list, further along. -/
theorem span_drop_iff {n : ℕ} (hn : n ≤ l.length) :
    Span (l.drop n) p q v ↔ Span l (n + p) (n + q) v := by
  constructor
  · rintro ⟨hlen, hle, hd⟩
    rw [List.length_drop] at hle
    rw [List.drop_drop, List.drop_drop] at hd
    exact ⟨by omega, by omega, hd⟩
  · rintro ⟨hlen, hle, hd⟩
    refine ⟨by omega, by rw [List.length_drop]; omega, ?_⟩
    rw [List.drop_drop, List.drop_drop]
    exact hd

/-- All that follows the first element. -/
theorem span_tail_iff {a : α} : Span (a :: l) 1 (l.length + 1) v ↔ v = l := by
  have h := span_drop_iff (l := a :: l) (n := 1) (p := 0) (q := l.length) (v := v) (by simp)
  rw [Nat.add_comm, ← h, List.drop_one, List.tail_cons, span_whole_iff]

end Codec
