import EezDashboard.Remote.Dialogue

/-!
# What holds when a program returns

`Dialogue.Ensures` is the rule of `Dialogue.wp` for postconditions that say nothing of a failure: it is
enough to follow the branches that go on.  `ensures_run` reads such a postcondition off a run.
-/

set_option autoImplicit false

namespace Dialogue

variable {Q A ε α β : Type} {Possible : ℕ → Q → Except ε A → Prop}

/-- What can be computed without asking. -/
def ofExcept : Except ε α → Dialogue Q A ε α
  | .ok a => ret a
  | .error e => fail e

/-- **Partial correctness**: whatever is answered, the postcondition holds if the program returns. -/
def Ensures (Possible : ℕ → Q → Except ε A → Prop) (x : Dialogue Q A ε α)
    (post : α → Transcript Q A → Prop) (t : Transcript Q A) : Prop :=
  wp Possible x (fun r t' ↦ ∀ a, r = .ok a → post a t') t

variable {post post' : α → Transcript Q A → Prop} {t : Transcript Q A} {x : Dialogue Q A ε α}

@[simp] theorem ensures_ret (a : α) : Ensures Possible (ret a) post t ↔ post a t :=
  ⟨fun h ↦ h a rfl, fun h _ ha ↦ Except.ok.inj ha ▸ h⟩

@[simp] theorem ensures_pure (a : α) : Ensures Possible (pure a) post t ↔ post a t := ensures_ret a

@[simp] theorem ensures_fail (e : ε) : Ensures Possible (fail e) post t :=
  fun _ ha ↦ by cases ha

theorem ensures_bind (x : Dialogue Q A ε α) (f : α → Dialogue Q A ε β) (post : β → Transcript Q A → Prop) :
    Ensures Possible (x >>= f) post t ↔ Ensures Possible x (fun a t' ↦ Ensures Possible (f a) post t') t := by
  rw [Ensures, wp_bind]
  have hpost (r : Except ε α) (t' : Transcript Q A) :
      andThen Possible f (fun r t' ↦ ∀ b, r = .ok b → post b t') r t' ↔
        ∀ a, r = .ok a → Ensures Possible (f a) post t' := by
    cases r with
    | ok a => exact ⟨fun h a' ha ↦ Except.ok.inj ha ▸ h, fun h ↦ h a rfl⟩
    | error e =>
      constructor
      · intro _ a ha
        cases ha
      · intro _ b hb
        cases hb
  exact ⟨wp_mono fun r t' ↦ (hpost r t').1, wp_mono fun r t' ↦ (hpost r t').2⟩

theorem ensures_mono (h : ∀ a t', post a t' → post' a t') (hx : Ensures Possible x post t) :
    Ensures Possible x post' t :=
  wp_mono (fun _ _ hr a ha ↦ h _ _ (hr a ha)) hx

theorem ensures_anything (h : ∀ a t', post a t') : Ensures Possible x post t := by
  induction x generalizing t with
  | ret a => exact (ensures_ret a).2 (h a t)
  | fail e => exact ensures_fail e
  | ask q k ih => exact ⟨fun a _ ↦ ih a, fun _ _ _ hb ↦ by cases hb⟩

/-- A program that asks is followed by what was found of its first part. -/
theorem Ensures.bind {f : α → Dialogue Q A ε β} {post' : β → Transcript Q A → Prop} (hx : Ensures Possible x post t)
    (h : ∀ a t', post a t' → Ensures Possible (f a) post' t') : Ensures Possible (x >>= f) post' t :=
  (ensures_bind x f post').2 (ensures_mono h hx)

theorem ensures_request (q : Q) (post : A → Transcript Q A → Prop) :
    Ensures Possible (request q) post t ↔ ∀ a, Possible t.length q (.ok a) → post a (t ++ [(q, a)]) := by
  rw [Ensures, wp_request]
  refine ⟨fun h a ha ↦ h.1 a ha a rfl, fun h ↦ ⟨fun a ha _ hb ↦ Except.ok.inj hb ▸ h a ha, ?_⟩⟩
  rintro e - _ ⟨⟩

@[simp] theorem ensures_check (c : Prop) [Decidable c] (e : ε) (post : Unit → Transcript Q A → Prop) :
    Ensures Possible (check c e) post t ↔ (c → post () t) := by
  rw [Ensures, wp_check]
  refine ⟨fun h hc ↦ h.1 hc () rfl, fun h ↦ ⟨fun hc _ _ ↦ h hc, ?_⟩⟩
  rintro - _ ⟨⟩

@[simp] theorem ensures_ofExcept (r : Except ε α) :
    Ensures Possible (ofExcept r) post t ↔ ∀ a, r = .ok a → post a t := by
  cases r with
  | ok a => exact ⟨fun h a' ha ↦ h a' ha, id⟩
  | error e =>
    constructor
    · rintro - _ ⟨⟩
    · exact fun _ ↦ ensures_fail e

/-- **Soundness of the rule.** -/
theorem ensures_run {answer : ℕ → Q → Except ε A} (h : ∀ n q, Possible n q (answer n q))
    (hx : Ensures Possible x post t) {a : α} {t' : Transcript Q A} (hrun : run answer x t = (.ok a, t')) :
    post a t' := by
  have hpost := run_wp h x _ t hx
  rw [hrun] at hpost
  exact hpost a rfl

end Dialogue
