import Mathlib

/-!
# Contract code as a tree of steps

The code of one contract, between the moment it is entered and the moment it returns, reads its
storage, writes it, reverts, or calls some other account.  `Prog` is that tree of steps.  What the
other accounts do is not part of the tree: `Prog.run` takes it as a function on the storage and on
whatever else the environment keeps, so one piece of code can be run among adversaries that call
back into it and among accounts whose behaviour is known.

`Prog.wp` is the rule such code is verified by.  An assumption `Rely` says how the environment may
change the storage while it holds control, a condition `Ready` says what the code owes the
environment before it hands control over, and `run_wp` is the soundness of the rule.
-/

set_option autoImplicit false

namespace Contract

/-- A word of calldata or returndata. -/
abbrev Word := BitVec 256

/-- The ways in which a frame can fail. -/
inductive Fault (ε : Type)
  /-- a custom error of the contract -/
  | custom (e : ε)
  /-- a checked operation left its range -/
  | arithmetic
  /-- returndata that the expected type does not decode from -/
  | malformed
  /-- a failed call, passed on to the caller -/
  | bubbled
  /-- a write in a static frame -/
  | static
  deriving DecidableEq, Repr

/-- Contract code over storage `σ`, external calls `Q` and custom errors `ε`.  A call continues with
the words the callee returns; when the callee fails there is nothing to continue with. -/
inductive Prog (σ Q ε α : Type)
  | ret (a : α)
  | fail (e : Fault ε)
  | load (k : σ → Prog σ Q ε α)
  | store (f : σ → σ) (k : Prog σ Q ε α)
  | call (q : Q) (k : List Word → Prog σ Q ε α)

namespace Prog

variable {σ Q ε α β W : Type}

/-- Run one piece of code after another. -/
def bind : Prog σ Q ε α → (α → Prog σ Q ε β) → Prog σ Q ε β
  | ret a, g => g a
  | fail e, _ => fail e
  | load k, g => load fun s ↦ bind (k s) g
  | store f k, g => store f (bind k g)
  | call q k, g => call q fun v ↦ bind (k v) g

instance : Monad (Prog σ Q ε) where
  pure := ret
  bind := bind

@[simp] theorem pure_eq (a : α) : (pure a : Prog σ Q ε α) = ret a := rfl
@[simp] theorem ret_bind (a : α) (g : α → Prog σ Q ε β) : (ret a >>= g) = g a := rfl
@[simp] theorem fail_bind (e : Fault ε) (g : α → Prog σ Q ε β) : (fail e >>= g) = fail e := rfl
@[simp] theorem load_bind (k : σ → Prog σ Q ε α) (g : α → Prog σ Q ε β) :
    (load k >>= g) = load fun s ↦ k s >>= g := rfl
@[simp] theorem store_bind (f : σ → σ) (k : Prog σ Q ε α) (g : α → Prog σ Q ε β) :
    (store f k >>= g) = store f (k >>= g) := rfl
@[simp] theorem call_bind (q : Q) (k : List Word → Prog σ Q ε α) (g : α → Prog σ Q ε β) :
    (call q k >>= g) = call q fun v ↦ k v >>= g := rfl

/-! ## The statements contracts are written with -/

/-- The storage. -/
def get : Prog σ Q ε σ := load ret

/-- Change the storage. -/
def modify (f : σ → σ) : Prog σ Q ε Unit := store f (ret ())

/-- `if (c) revert e();` -/
def revertIf (c : Prop) [Decidable c] (e : ε) : Prog σ Q ε Unit :=
  if c then fail (.custom e) else ret ()

/-- `if (c) x` -/
def when (c : Prop) [Decidable c] (x : Prog σ Q ε Unit) : Prog σ Q ε Unit :=
  if c then x else ret ()

/-- A call whose result is decoded, and refused when it does not decode. -/
def ask (q : Q) (decode : List Word → Option β) : Prog σ Q ε β :=
  call q fun v ↦ match decode v with
    | some b => ret b
    | none => fail .malformed

/-- A checked sum. -/
def checkedAdd (a b : ℕ) : Prog σ Q ε ℕ :=
  if a + b < 2 ^ 256 then ret (a + b) else fail .arithmetic

/-! ## Running a program -/

/-- Run a program.  `handle` is the environment: given a call, the storage and the environment's own
state, it returns the answer of the callee, `none` when the callee failed, with the storage and the
state it leaves. -/
def run (static : Bool) (handle : Q → σ → W → Option (List Word) × σ × W) :
    Prog σ Q ε α → σ → W → Except (Fault ε) α × σ × W
  | ret a, s, w => (.ok a, s, w)
  | fail e, s, w => (.error e, s, w)
  | load k, s, w => run static handle (k s) s w
  | store f k, s, w => if static then (.error .static, s, w) else run static handle k (f s) w
  | call q k, s, w =>
    match handle q s w with
    | (some v, s', w') => run static handle (k v) s' w'
    | (none, s', w') => (.error .bubbled, s', w')

section Run

variable {static : Bool} {handle : Q → σ → W → Option (List Word) × σ × W}

/-- A composition runs its second part from where the first one ended. -/
theorem run_bind (x : Prog σ Q ε α) (g : α → Prog σ Q ε β) (s : σ) (w : W) :
    run static handle (x >>= g) s w =
      match run static handle x s w with
      | (.ok a, s', w') => run static handle (g a) s' w'
      | (.error e, s', w') => (.error e, s', w') := by
  induction x generalizing s w with
  | ret a => rfl
  | fail e => rfl
  | load k ih => exact ih s s w
  | store f k ih =>
    rw [store_bind, run, run]
    split
    · rfl
    · exact ih (f s) w
  | call q k ih =>
    rw [call_bind, run, run]
    split
    · exact ih _ _ _
    · rfl

/-- A composition succeeds when both of its parts do. -/
theorem run_bind_eq_ok {x : Prog σ Q ε α} {g : α → Prog σ Q ε β} {s s' : σ} {w w' : W} {b : β} :
    run static handle (x >>= g) s w = (.ok b, s', w') ↔
      ∃ a s₁ w₁, run static handle x s w = (.ok a, s₁, w₁) ∧
        run static handle (g a) s₁ w₁ = (.ok b, s', w') := by
  rw [run_bind]
  constructor
  · intro h
    split at h
    next a s₁ w₁ hx => exact ⟨a, s₁, w₁, hx, h⟩
    next e s₁ w₁ hx => simp at h
  · rintro ⟨a, s₁, w₁, hx, hg⟩
    rw [hx]
    exact hg

@[simp] theorem run_ret_eq_ok {a b : α} {s s' : σ} {w w' : W} :
    run static handle (ret a : Prog σ Q ε α) s w = (.ok b, s', w') ↔ b = a ∧ s' = s ∧ w' = w := by
  simp only [run, Prod.mk.injEq, Except.ok.injEq]
  constructor <;> rintro ⟨rfl, rfl, rfl⟩ <;> exact ⟨rfl, rfl, rfl⟩

@[simp] theorem run_fail_eq_ok {e : Fault ε} {b : α} {s s' : σ} {w w' : W} :
    run static handle (fail e : Prog σ Q ε α) s w = (.ok b, s', w') ↔ False := by
  simp [run]

@[simp] theorem run_get_eq_ok {b s s' : σ} {w w' : W} :
    run static handle (get : Prog σ Q ε σ) s w = (.ok b, s', w') ↔ b = s ∧ s' = s ∧ w' = w := by
  rw [get, run, run_ret_eq_ok]

@[simp] theorem run_modify_eq_ok {f : σ → σ} {u : Unit} {s s' : σ} {w w' : W} :
    run static handle (modify f : Prog σ Q ε Unit) s w = (.ok u, s', w') ↔
      static = false ∧ s' = f s ∧ w' = w := by
  cases static <;> simp [modify, run, eq_comm]

@[simp] theorem run_revertIf_eq_ok {c : Prop} [Decidable c] {e : ε} {u : Unit} {s s' : σ}
    {w w' : W} :
    run static handle (revertIf c e : Prog σ Q ε Unit) s w = (.ok u, s', w') ↔
      ¬c ∧ s' = s ∧ w' = w := by
  unfold revertIf
  split <;> simp_all

theorem run_when_eq_ok {c : Prop} [Decidable c] {x : Prog σ Q ε Unit} {u : Unit} {s s' : σ}
    {w w' : W} :
    run static handle (when c x) s w = (.ok u, s', w') ↔
      (c ∧ run static handle x s w = (.ok u, s', w')) ∨ (¬c ∧ s' = s ∧ w' = w) := by
  unfold when
  split
  next h => simp [h]
  next h => simp [h]

@[simp] theorem run_checkedAdd_eq_ok {a b c : ℕ} {s s' : σ} {w w' : W} :
    run static handle (checkedAdd a b : Prog σ Q ε ℕ) s w = (.ok c, s', w') ↔
      a + b < 2 ^ 256 ∧ c = a + b ∧ s' = s ∧ w' = w := by
  unfold checkedAdd
  split
  next h => simp only [run_ret_eq_ok, h, true_and]
  next h => simp only [run_fail_eq_ok, h, false_and]

/-! The statements that make no call leave nothing to guess between them and what follows. -/

@[simp] theorem run_get_bind (g : σ → Prog σ Q ε β) (s : σ) (w : W) :
    run static handle (get >>= g) s w = run static handle (g s) s w := rfl

theorem run_modify_bind (f : σ → σ) (g : Unit → Prog σ Q ε β) (s : σ) (w : W) :
    run false handle (modify f >>= g) s w = run false handle (g ()) (f s) w := rfl

@[simp] theorem run_modify_bind_eq_ok {f : σ → σ} {g : Unit → Prog σ Q ε β} {b : β} {s s' : σ}
    {w w' : W} :
    run static handle (modify f >>= g) s w = (.ok b, s', w') ↔
      static = false ∧ run static handle (g ()) (f s) w = (.ok b, s', w') := by
  rw [modify, store_bind, ret_bind, run]
  cases static <;> simp

@[simp] theorem run_revertIf_bind_eq_ok {c : Prop} [Decidable c] {e : ε}
    {g : Unit → Prog σ Q ε β} {b : β} {s s' : σ} {w w' : W} :
    run static handle (revertIf c e >>= g) s w = (.ok b, s', w') ↔
      ¬c ∧ run static handle (g ()) s w = (.ok b, s', w') := by
  unfold revertIf
  split
  next h => simp [h]
  next h => simp [h]

@[simp] theorem run_checkedAdd_bind_eq_ok {a₁ a₂ : ℕ} {g : ℕ → Prog σ Q ε β} {b : β} {s s' : σ}
    {w w' : W} :
    run static handle (checkedAdd a₁ a₂ >>= g) s w = (.ok b, s', w') ↔
      a₁ + a₂ < 2 ^ 256 ∧ run static handle (g (a₁ + a₂)) s w = (.ok b, s', w') := by
  unfold checkedAdd
  split
  next h => simp only [ret_bind, h, true_and]
  next h => simp only [fail_bind, run_fail_eq_ok, h, false_and]

theorem run_ask_eq_ok {q : Q} {decode : List Word → Option β} {b : β} {s s' : σ} {w w' : W} :
    run static handle (ask q decode : Prog σ Q ε β) s w = (.ok b, s', w') ↔
      ∃ v, handle q s w = (some v, s', w') ∧ decode v = some b := by
  rw [ask, run]
  constructor
  · intro h
    split at h
    next v s₁ w₁ hq =>
      split at h
      next b' hb =>
        obtain ⟨rfl, rfl, rfl⟩ := run_ret_eq_ok.1 h
        exact ⟨v, hq, hb⟩
      next hb => simp at h
    next s₁ w₁ hq => simp at h
  · rintro ⟨v, hq, hb⟩
    simp [hq, hb]

end Run

/-! ## The rule for code that hands over control -/

/-- **Weakest precondition.**  When the program hands over control by call `q` the storage satisfies
`Ready q`; whatever storage the callee leaves within `Rely q`, and whatever it answers, the rest of
the program goes on from there.  Only a program that returns owes its postcondition. -/
def wp (static : Bool) (Ready : Q → σ → Prop) (Rely : Q → σ → σ → Prop) :
    Prog σ Q ε α → (α → σ → Prop) → σ → Prop
  | ret a, post, s => post a s
  | fail _, _, _ => True
  | load k, post, s => wp static Ready Rely (k s) post s
  | store f k, post, s => static = false → wp static Ready Rely k post (f s)
  | call q k, post, s => Ready q s ∧ ∀ v s', Rely q s s' → wp static Ready Rely (k v) post s'

section Wp

variable {static : Bool} {Ready : Q → σ → Prop} {Rely : Q → σ → σ → Prop}

theorem wp_bind (x : Prog σ Q ε α) (g : α → Prog σ Q ε β) (post : β → σ → Prop) (s : σ) :
    wp static Ready Rely (x >>= g) post s ↔
      wp static Ready Rely x (fun a s' ↦ wp static Ready Rely (g a) post s') s := by
  induction x generalizing s with
  | ret a => rfl
  | fail e => rfl
  | load k ih => exact ih s s
  | store f k ih => exact imp_congr Iff.rfl (ih (f s))
  | call q k ih => exact and_congr Iff.rfl (forall_congr' fun v ↦ forall_congr' fun s' ↦
      imp_congr Iff.rfl (ih v s'))

theorem wp_mono {x : Prog σ Q ε α} {post post' : α → σ → Prop} {s : σ}
    (h : ∀ a s', post a s' → post' a s') (hx : wp static Ready Rely x post s) :
    wp static Ready Rely x post' s := by
  induction x generalizing s with
  | ret a => exact h a s hx
  | fail e => trivial
  | load k ih => exact ih s hx
  | store f k ih => exact fun hs ↦ ih (hx hs)
  | call q k ih => exact ⟨hx.1, fun v s' hr ↦ ih v (hx.2 v s' hr)⟩

@[simp] theorem wp_ret (a : α) (post : α → σ → Prop) (s : σ) :
    wp static Ready Rely (ret a : Prog σ Q ε α) post s ↔ post a s := Iff.rfl

@[simp] theorem wp_fail (e : Fault ε) (post : α → σ → Prop) (s : σ) :
    wp static Ready Rely (fail e : Prog σ Q ε α) post s ↔ True := Iff.rfl

@[simp] theorem wp_get (post : σ → σ → Prop) (s : σ) :
    wp static Ready Rely (get : Prog σ Q ε σ) post s ↔ post s s := Iff.rfl

@[simp] theorem wp_modify (f : σ → σ) (post : Unit → σ → Prop) (s : σ) :
    wp static Ready Rely (modify f : Prog σ Q ε Unit) post s ↔ (static = false → post () (f s)) :=
  Iff.rfl

@[simp] theorem wp_revertIf (c : Prop) [Decidable c] (e : ε) (post : Unit → σ → Prop) (s : σ) :
    wp static Ready Rely (revertIf c e : Prog σ Q ε Unit) post s ↔ (¬c → post () s) := by
  unfold revertIf
  split <;> simp_all

@[simp] theorem wp_checkedAdd (a b : ℕ) (post : ℕ → σ → Prop) (s : σ) :
    wp static Ready Rely (checkedAdd a b : Prog σ Q ε ℕ) post s ↔
      (a + b < 2 ^ 256 → post (a + b) s) := by
  unfold checkedAdd
  split
  next h => simp only [wp_ret, h, forall_const]
  next h => simp only [wp_fail, h, false_imp_iff]

/-- A call whose answer decodes goes on from there. -/
theorem wp_ask_decoded {q : Q} {decode : List Word → Option β} {post : β → σ → Prop} {s : σ}
    (hs : Ready q s) (h : ∀ v b s', decode v = some b → Rely q s s' → post b s') :
    wp static Ready Rely (ask q decode : Prog σ Q ε β) post s := by
  refine ⟨hs, fun v s' hr ↦ ?_⟩
  cases hv : decode v with
  | none => simp only [hv, wp_fail]
  | some b =>
    simp only [hv]
    exact h v b s' hv hr

theorem wp_ask {q : Q} {decode : List Word → Option β} {post : β → σ → Prop} {s : σ}
    (hs : Ready q s) (h : ∀ b s', Rely q s s' → post b s') :
    wp static Ready Rely (ask q decode : Prog σ Q ε β) post s :=
  wp_ask_decoded hs fun _ b s' _ hr ↦ h b s' hr

end Wp

/-! ## Code that does not write -/

/-- A program without a write of its own, whose calls all satisfy `P`. -/
inductive Quiet (P : Q → Prop) : Prog σ Q ε α → Prop
  | ret (a : α) : Quiet P (ret a)
  | fail (e : Fault ε) : Quiet P (fail e)
  | load {k : σ → Prog σ Q ε α} (h : ∀ s, Quiet P (k s)) : Quiet P (load k)
  | call {q : Q} {k : List Word → Prog σ Q ε α} (hq : P q) (h : ∀ v, Quiet P (k v)) :
      Quiet P (call q k)

namespace Quiet

variable {P : Q → Prop}

theorem bind {x : Prog σ Q ε α} {g : α → Prog σ Q ε β} (hx : Quiet P x)
    (hg : ∀ a, Quiet P (g a)) : Quiet P (x >>= g) := by
  induction hx with
  | ret a => exact hg a
  | fail e => exact .fail e
  | load _ ih => exact .load ih
  | call hq _ ih => exact .call hq ih

theorem revertIf (c : Prop) [Decidable c] (e : ε) :
    Quiet P (revertIf c e : Prog σ Q ε Unit) := by
  unfold Prog.revertIf
  split
  · exact .fail _
  · exact .ret _

theorem ask {q : Q} (hq : P q) (decode : List Word → Option β) :
    Quiet P (ask q decode : Prog σ Q ε β) := by
  refine .call hq fun v ↦ ?_
  split
  · exact .ret _
  · exact .fail _

theorem ite {c : Prop} [Decidable c] {x y : Prog σ Q ε α} (hx : Quiet P x) (hy : Quiet P y) :
    Quiet P (if c then x else y) := by
  split
  · exact hx
  · exact hy

theorem when {c : Prop} [Decidable c] {x : Prog σ Q ε Unit} (hx : Quiet P x) :
    Quiet P (when c x) :=
  hx.ite (.ret ())

/-- Where the environment leaves the storage alone, so does a quiet program: any answer may come
back, and the storage is the one it started from. -/
theorem wp {static : Bool} {Ready : Q → σ → Prop} {Rely : Q → σ → σ → Prop}
    {x : Prog σ Q ε α} (hx : Quiet P x) {s : σ} (hs : ∀ q, P q → Ready q s)
    (hr : ∀ q s', P q → Rely q s s' → s' = s) {post : α → σ → Prop} (h : ∀ a, post a s) :
    Prog.wp static Ready Rely x post s := by
  induction hx with
  | ret a => exact h a
  | fail e => trivial
  | load _ ih => exact ih s
  | call hq _ ih =>
    refine ⟨hs _ hq, fun v s' hrel ↦ ?_⟩
    rw [hr _ s' hq hrel]
    exact ih v

/-- What no call of a quiet program changes, running the program does not change. -/
theorem run {x : Prog σ Q ε α} (hx : Quiet P x) (static : Bool)
    (handle : Q → σ → W → Option (List Word) × σ × W) {γ : Type} (seen : σ → W → γ)
    (hh : ∀ q s w, P q → seen (handle q s w).2.1 (handle q s w).2.2 = seen s w) (s : σ) (w : W) :
    seen (Prog.run static handle x s w).2.1 (Prog.run static handle x s w).2.2 = seen s w := by
  induction hx generalizing s w with
  | ret a => rfl
  | fail e => rfl
  | load _ ih => exact ih s s w
  | @call q k hq _ ih =>
    have hseen := hh q s w hq
    rw [Prog.run]
    split
    next v s' w' h =>
      rw [h] at hseen
      exact (ih v s' w').trans hseen
    next s' w' h =>
      rw [h] at hseen
      exact hseen

end Quiet

/-! ## Soundness -/

/-- **Soundness of the rule.**  An environment that keeps `Rely` whenever it is entered in a `Ready`
storage, and keeps an invariant `I` of its own state, runs the program to its postcondition. -/
theorem run_wp {static : Bool} {handle : Q → σ → W → Option (List Word) × σ × W}
    {Ready : Q → σ → Prop} {Rely : Q → σ → σ → Prop} {I : W → Prop}
    (hh : ∀ q s w, Ready q s → I w →
      Rely q s (handle q s w).2.1 ∧ I (handle q s w).2.2)
    (x : Prog σ Q ε α) (post : α → σ → Prop) (s : σ) (w : W)
    (hx : wp static Ready Rely x post s) (hw : I w) :
    I (run static handle x s w).2.2 ∧
      ∀ a, (run static handle x s w).1 = .ok a → post a (run static handle x s w).2.1 := by
  induction x generalizing s w with
  | ret a =>
    refine ⟨hw, fun b hb ↦ ?_⟩
    cases hb
    exact hx
  | fail e => exact ⟨hw, fun b hb ↦ by cases hb⟩
  | load k ih => exact ih s s w hx hw
  | store f k ih =>
    cases hst : static with
    | true => exact ⟨hw, fun b hb ↦ by cases hb⟩
    | false =>
      subst hst
      exact ih (f s) w (hx rfl) hw
  | call q k ih =>
    obtain ⟨hrely, hinv⟩ := hh q s w hx.1 hw
    rw [run]
    split
    next v s' w' hq =>
      rw [hq] at hrely hinv
      exact ih v s' w' (hx.2 v s' hrely) hinv
    next s' w' hq =>
      rw [hq] at hinv
      exact ⟨hinv, fun b hb ↦ by cases hb⟩

end Prog

end Contract
