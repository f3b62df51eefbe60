import Mathlib.Data.Nat.Notation
import Mathlib.Tactic.Common

/-!
# Programs that ask

A program that talks to somebody else: it asks, goes on with the answer, and in the end returns or
fails.  `Dialogue` is the tree of what it may ask.  `run` answers each question, and an answer may
depend on how many were asked before, so whoever is asked may change in between; a question that gets
no answer fails the program.

`wp` is the rule such programs are verified by.  `Possible n q r` says which answers `r` may come to the
`n`-th question `q`, and the postcondition speaks of the outcome and of the transcript.  With every
answer possible the rule says what holds whoever is asked; with one answer possible it computes.
-/

set_option autoImplicit false

/-- A program with questions `Q`, answers `A` and errors `ε`. -/
inductive Dialogue (Q A ε α : Type)
  | ret (a : α)
  | fail (e : ε)
  | ask (q : Q) (k : A → Dialogue Q A ε α)

namespace Dialogue

variable {Q A ε α β : Type}

/-- Go on with what a program returns. -/
def bind : Dialogue Q A ε α → (α → Dialogue Q A ε β) → Dialogue Q A ε β
  | ret a, f => f a
  | fail e, _ => fail e
  | ask q k, f => ask q fun a ↦ bind (k a) f

instance : Monad (Dialogue Q A ε) where
  pure := ret
  bind := bind

@[simp] theorem pure_eq (a : α) : (pure a : Dialogue Q A ε α) = ret a := rfl
@[simp] theorem ret_bind (a : α) (f : α → Dialogue Q A ε β) : (ret a >>= f) = f a := rfl
@[simp] theorem fail_bind (e : ε) (f : α → Dialogue Q A ε β) : (fail e >>= f) = fail e := rfl
@[simp] theorem ask_bind (q : Q) (k : A → Dialogue Q A ε α) (f : α → Dialogue Q A ε β) :
    (ask q k >>= f) = ask q fun a ↦ k a >>= f := rfl

/-- Ask, and return the answer. -/
def request (q : Q) : Dialogue Q A ε A := ask q ret

/-- `check(c, e)` -/
def check (c : Prop) [Decidable c] (e : ε) : Dialogue Q A ε Unit := if c then ret () else fail e

/-- The questions that were answered, with their answers. -/
abbrev Transcript (Q A : Type) := List (Q × A)

/-- Run a program; `answer` is told how many questions were answered before. -/
def run (answer : ℕ → Q → Except ε A) :
    Dialogue Q A ε α → Transcript Q A → Except ε α × Transcript Q A
  | ret a, t => (.ok a, t)
  | fail e, t => (.error e, t)
  | ask q k, t =>
    match answer t.length q with
    | .ok a => run answer (k a) (t ++ [(q, a)])
    | .error e => (.error e, t)

/-- **Weakest precondition.** -/
def wp (Possible : ℕ → Q → Except ε A → Prop) :
    Dialogue Q A ε α → (Except ε α → Transcript Q A → Prop) → Transcript Q A → Prop
  | ret a, post, t => post (.ok a) t
  | fail e, post, t => post (.error e) t
  | ask q k, post, t =>
    (∀ a, Possible t.length q (.ok a) → wp Possible (k a) post (t ++ [(q, a)])) ∧
      ∀ e, Possible t.length q (.error e) → post (.error e) t

/-- What is owed after the first part of a composition: the second part, if the first one returned. -/
def andThen (Possible : ℕ → Q → Except ε A → Prop) (f : α → Dialogue Q A ε β)
    (post : Except ε β → Transcript Q A → Prop) : Except ε α → Transcript Q A → Prop
  | .ok a, t => wp Possible (f a) post t
  | .error e, t => post (.error e) t

variable {Possible : ℕ → Q → Except ε A → Prop}

theorem wp_bind (x : Dialogue Q A ε α) (f : α → Dialogue Q A ε β)
    (post : Except ε β → Transcript Q A → Prop) (t : Transcript Q A) :
    wp Possible (x >>= f) post t ↔ wp Possible x (andThen Possible f post) t := by
  induction x generalizing t with
  | ret a => rfl
  | fail e => rfl
  | ask q k ih => exact and_congr (forall_congr' fun a ↦ imp_congr Iff.rfl (ih a _)) Iff.rfl

theorem wp_mono {x : Dialogue Q A ε α} {post post' : Except ε α → Transcript Q A → Prop}
    {t : Transcript Q A} (h : ∀ r t', post r t' → post' r t') (hx : wp Possible x post t) :
    wp Possible x post' t := by
  induction x generalizing t with
  | ret a => exact h _ _ hx
  | fail e => exact h _ _ hx
  | ask q k ih => exact ⟨fun a ha ↦ ih a (hx.1 a ha), fun e he ↦ h _ _ (hx.2 e he)⟩

@[simp] theorem wp_ret (a : α) (post : Except ε α → Transcript Q A → Prop) (t : Transcript Q A) :
    wp Possible (ret a) post t ↔ post (.ok a) t := Iff.rfl

@[simp] theorem wp_fail (e : ε) (post : Except ε α → Transcript Q A → Prop) (t : Transcript Q A) :
    wp Possible (fail e) post t ↔ post (.error e) t := Iff.rfl

theorem wp_request (q : Q) (post : Except ε A → Transcript Q A → Prop) (t : Transcript Q A) :
    wp Possible (request q) post t ↔
      (∀ a, Possible t.length q (.ok a) → post (.ok a) (t ++ [(q, a)])) ∧
        ∀ e, Possible t.length q (.error e) → post (.error e) t := Iff.rfl

@[simp] theorem wp_check (c : Prop) [Decidable c] (e : ε) (post : Except ε Unit → Transcript Q A → Prop)
    (t : Transcript Q A) :
    wp Possible (check c e) post t ↔ (c → post (.ok ()) t) ∧ (¬c → post (.error e) t) := by
  unfold check
  split
  next h => simp [h]
  next h => simp [h]

@[simp] theorem andThen_ok (f : α → Dialogue Q A ε β) (post : Except ε β → Transcript Q A → Prop)
    (a : α) (t : Transcript Q A) : andThen Possible f post (.ok a) t ↔ wp Possible (f a) post t := Iff.rfl

@[simp] theorem andThen_error (f : α → Dialogue Q A ε β) (post : Except ε β → Transcript Q A → Prop)
    (e : ε) (t : Transcript Q A) : andThen Possible f post (.error e) t ↔ post (.error e) t := Iff.rfl

/-- **Soundness of the rule.** -/
theorem run_wp {answer : ℕ → Q → Except ε A} (h : ∀ n q, Possible n q (answer n q))
    (x : Dialogue Q A ε α) (post : Except ε α → Transcript Q A → Prop) (t : Transcript Q A)
    (hx : wp Possible x post t) : post (run answer x t).1 (run answer x t).2 := by
  induction x generalizing t with
  | ret a => exact hx
  | fail e => exact hx
  | ask q k ih =>
    have hq := h t.length q
    rw [run]
    split
    next a ha => exact ih a _ (hx.1 a (ha ▸ hq))
    next e he => exact hx.2 e (he ▸ hq)

/-- **The transcript is what was answered**: it goes on from where it was, and each new entry is the
answer that was given at its time. -/
theorem run_transcript (answer : ℕ → Q → Except ε A) (x : Dialogue Q A ε α) (t : Transcript Q A) :
    t <+: (run answer x t).2 ∧ ∀ (i : ℕ) (q : Q) (a : A), t.length ≤ i →
      (run answer x t).2[i]? = some (q, a) → answer i q = .ok a := by
  induction x generalizing t with
  | ret a => exact ⟨List.prefix_rfl, fun i q a hi h ↦ by simp [run, hi] at h⟩
  | fail e => exact ⟨List.prefix_rfl, fun i q a hi h ↦ by simp [run, hi] at h⟩
  | ask q k ih =>
    rw [run]
    split
    next a ha =>
      obtain ⟨hearlier, hlater⟩ := ih a (t ++ [(q, a)])
      refine ⟨(List.prefix_append _ _).trans hearlier, fun i q' a' hi h ↦ ?_⟩
      rcases Nat.eq_or_lt_of_le hi with rfl | hlt
      · obtain ⟨rest, hrest⟩ := hearlier
        rw [← hrest, List.append_assoc, List.getElem?_append_right (Nat.le_refl _), Nat.sub_self] at h
        cases h
        exact ha
      · refine hlater i q' a' ?_ h
        rw [List.length_append, List.length_singleton]
        exact hlt
    next e he => exact ⟨List.prefix_rfl, fun i q a hi h ↦ by simp [hi] at h⟩

end Dialogue
