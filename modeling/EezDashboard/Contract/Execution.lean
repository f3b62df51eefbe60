import EezDashboard.Contract.Program

/-!
# A contract among arbitrary callers

`Contract.Program` runs one frame.  Here a contract is run as the chain runs it: any account may
enter it, in any order, and every account it calls may do the same before it answers.  An `Act` is a
script of such behaviour, a tree: the calls made into the contract and, below each of them, what the
callees of the contract do before they answer.  Nothing is assumed of a script, so what holds for
every script holds whatever the other accounts do.

A frame that fails leaves the storage it found, and so does a frame of another account that reverts.
The records of the frames are kept all the same, so that one can speak of attempts that were undone.

`Discipline` collects what the code of a contract has to satisfy on its own, one frame at a time;
`Discipline.exec` and `Discipline.history` carry it to every execution.
-/

set_option autoImplicit false

namespace Contract

/-! ## Frames and scripts -/

/-- The circumstances a contract is entered in: the block's time, whether writes are forbidden, and
whether another frame of the same contract is still executing. -/
structure Frame where
  time : ℕ
  static : Bool
  nested : Bool
  deriving DecidableEq, Repr

/-- A transaction's outermost frame. -/
def Frame.top (time : ℕ) : Frame := ⟨time, false, false⟩

/-- The frame below one in which writes are forbidden if `s` is set. -/
def Frame.restrict (f : Frame) (s : Bool) : Frame := { f with static := f.static || s }

/-- A frame entered while the contract waits for a callee; a view call forbids writes below it. -/
def Frame.inner (f : Frame) (view : Bool) : Frame := { f.restrict view with nested := true }

@[simp] theorem Frame.restrict_nested (f : Frame) (s : Bool) : (f.restrict s).nested = f.nested :=
  rfl
@[simp] theorem Frame.restrict_static (f : Frame) (s : Bool) :
    (f.restrict s).static = (f.static || s) := rfl
@[simp] theorem Frame.restrict_time (f : Frame) (s : Bool) : (f.restrict s).time = f.time := rfl
@[simp] theorem Frame.inner_nested (f : Frame) (s : Bool) : (f.inner s).nested = true := rfl
@[simp] theorem Frame.inner_static (f : Frame) (s : Bool) :
    (f.inner s).static = (f.static || s) := rfl
@[simp] theorem Frame.inner_time (f : Frame) (s : Bool) : (f.inner s).time = f.time := rfl

/-- What other accounts do: enter the contract, with the behaviour of the accounts it will call, or
open a frame of their own, static or not, that commits or reverts. -/
inductive Act (E : Type)
  | call (entry : E) (replies : List (List (Act E) × Option (List Word)))
  | frame (static commits : Bool) (acts : List (Act E))

/-- The behaviour of one callee: what it does first, and what it answers, if it does not fail. -/
abbrev Reply (E : Type) := List (Act E) × Option (List Word)

/-- A frame of the contract that was entered: with what, in which circumstances, the storage before
and after, and whether it returned. -/
structure Record (E σ : Type) where
  entry : E
  frame : Frame
  before : σ
  after : σ
  returned : Bool

/-- A contract: its code for each entry, and which of its calls are view calls. -/
structure Code (σ Q ε E : Type) where
  body : Frame → E → Prog σ Q ε Unit
  view : Q → Bool

/-! ## Execution -/

section Execution

variable {σ Q ε E : Type}

/-- Acts one after another, the records in order. -/
def sequence (one : Act E → σ → σ × List (Record E σ)) : List (Act E) → σ → σ × List (Record E σ)
  | [], s => (s, [])
  | a :: as, s =>
    let r := one a s
    let r' := sequence one as r.1
    (r'.1, r.2 ++ r'.2)

/-- The environment of one frame: each call consumes the next reply.  A frame without replies left
is out of gas, so its call fails. -/
def environment (outside : Frame → List (Act E) → σ → σ × List (Record E σ)) (view : Q → Bool)
    (f : Frame) : Q → σ → List (Reply E) × List (Record E σ) →
      Option (List Word) × σ × List (Reply E) × List (Record E σ)
  | _, s, ([], t) => (none, s, [], t)
  | q, s, ((acts, answer) :: replies, t) =>
    let r := outside (f.inner (view q)) acts s
    (answer, r.1, replies, t ++ r.2)

/-- Run one act with call depth at most `depth`; what lies deeper does not happen. -/
def exec (C : Code σ Q ε E) : ℕ → Frame → Act E → σ → σ × List (Record E σ)
  | 0, _, _, s => (s, [])
  | depth + 1, f, .call e replies, s =>
    match (C.body f e).run f.static
        (environment (fun f' ↦ sequence (exec C depth f')) C.view f) s (replies, []) with
    | (.ok _, s', _, t) => (s', ⟨e, f, s, s', true⟩ :: t)
    | (.error _, _, _, t) => (s, ⟨e, f, s, s, false⟩ :: t)
  | depth + 1, f, .frame static commits acts, s =>
    let r := sequence (exec C depth (f.restrict static)) acts s
    (if commits then r.1 else s, r.2)

/-- A call whose code returns. -/
theorem exec_call_ok {C : Code σ Q ε E} {depth : ℕ} {f : Frame} {e : E} {replies rest : List (Reply E)} {s s' : σ}
    {u : Unit} {t : List (Record E σ)}
    (h : (C.body f e).run f.static (environment (fun f' ↦ sequence (exec C depth f')) C.view f) s (replies, []) =
      (.ok u, s', rest, t)) :
    exec C (depth + 1) f (.call e replies) s = (s', ⟨e, f, s, s', true⟩ :: t) := by
  rw [exec, h]

/-- A call whose code fails. -/
theorem exec_call_error {C : Code σ Q ε E} {depth : ℕ} {f : Frame} {e : E} {replies rest : List (Reply E)}
    {s s' : σ} {fault : Fault ε} {t : List (Record E σ)}
    (h : (C.body f e).run f.static (environment (fun f' ↦ sequence (exec C depth f')) C.view f) s (replies, []) =
      (.error fault, s', rest, t)) :
    exec C (depth + 1) f (.call e replies) s = (s, ⟨e, f, s, s, false⟩ :: t) := by
  rw [exec, h]

/-- A history: transactions, each at the time of its block. -/
def history (C : Code σ Q ε E) (depth : ℕ) : List (ℕ × Act E) → σ → σ × List (Record E σ)
  | [], s => (s, [])
  | (time, a) :: txs, s =>
    let r := exec C depth (.top time) a s
    let r' := history C depth txs r.1
    (r'.1, r.2 ++ r'.2)

/-! ## From one frame to every execution -/

/-- What a contract keeps, stated of one frame of its code: in a storage that satisfies `Holds` a
frame moves the storage within `Keeps`, provided its callees do, and leaves a `Good` record. -/
structure Discipline (C : Code σ Q ε E) (Holds : Frame → σ → Prop) (Keeps : Frame → σ → σ → Prop)
    (Good : Record E σ → Prop) : Prop where
  refl : ∀ f s, Keeps f s s
  trans : ∀ f s₁ s₂ s₃, Keeps f s₁ s₂ → Keeps f s₂ s₃ → Keeps f s₁ s₃
  stable : ∀ f s s', Holds f s → Keeps f s s' → Holds f s'
  restrict_holds : ∀ f b s, Holds f s → Holds (f.restrict b) s
  restrict_keeps : ∀ f b s s', Holds f s → Keeps (f.restrict b) s s' → Keeps f s s'
  returned : ∀ f e s, Holds f s →
    (C.body f e).wp f.static (fun q ↦ Holds (f.inner (C.view q)))
      (fun q ↦ Keeps (f.inner (C.view q)))
      (fun _ s' ↦ Keeps f s s' ∧ Good ⟨e, f, s, s', true⟩) s
  failed : ∀ f e s, Holds f s → Good ⟨e, f, s, s, false⟩

namespace Discipline

variable {C : Code σ Q ε E} {Holds : Frame → σ → Prop} {Keeps : Frame → σ → σ → Prop}
  {Good : Record E σ → Prop}

/-- A sequence of acts keeps what each of them does. -/
theorem sequence (D : Discipline C Holds Keeps Good) {f : Frame}
    {one : Act E → σ → σ × List (Record E σ)}
    (h : ∀ a s, Holds f s → Keeps f s (one a s).1 ∧ ∀ r ∈ (one a s).2, Good r)
    (acts : List (Act E)) (s : σ) (hs : Holds f s) :
    Keeps f s (Contract.sequence one acts s).1 ∧
      ∀ r ∈ (Contract.sequence one acts s).2, Good r := by
  induction acts generalizing s with
  | nil => exact ⟨D.refl f s, by simp [Contract.sequence]⟩
  | cons a as ih =>
    obtain ⟨hkeep, hgood⟩ := h a s hs
    obtain ⟨hkeep', hgood'⟩ := ih (one a s).1 (D.stable f s _ hs hkeep)
    refine ⟨D.trans f s _ _ hkeep hkeep', fun r hr ↦ ?_⟩
    rw [Contract.sequence, List.mem_append] at hr
    exact hr.elim (hgood r) (hgood' r)

/-- **Every execution keeps the discipline**, by induction on the call depth: the environment of a
frame is made of executions of smaller depth. -/
theorem exec (D : Discipline C Holds Keeps Good) (depth : ℕ) (f : Frame) (a : Act E) (s : σ)
    (hs : Holds f s) :
    Keeps f s (exec C depth f a s).1 ∧ ∀ r ∈ (Contract.exec C depth f a s).2, Good r := by
  induction depth generalizing f a s with
  | zero => exact ⟨D.refl f s, by simp [Contract.exec]⟩
  | succ depth ih =>
    cases a with
    | call e replies =>
      have henv : ∀ (q : Q) (s₁ : σ) (w : List (Reply E) × List (Record E σ)),
          Holds (f.inner (C.view q)) s₁ → (∀ r ∈ w.2, Good r) →
          Keeps (f.inner (C.view q)) s₁
              (environment (fun f' ↦ Contract.sequence (Contract.exec C depth f')) C.view f
                q s₁ w).2.1 ∧
            ∀ r ∈ (environment (fun f' ↦ Contract.sequence (Contract.exec C depth f')) C.view f
                q s₁ w).2.2.2, Good r := by
        rintro q s₁ ⟨_ | ⟨⟨acts, answer⟩, replies⟩, t⟩ hs₁ ht
        · exact ⟨D.refl _ _, ht⟩
        · obtain ⟨hkeep, hgood⟩ := D.sequence (ih (f.inner (C.view q))) acts s₁ hs₁
          refine ⟨hkeep, fun r hr ↦ ?_⟩
          rw [environment, List.mem_append] at hr
          exact hr.elim (ht r) (hgood r)
      obtain ⟨hgood, hpost⟩ := Prog.run_wp henv (C.body f e) _ s (replies, [])
        (D.returned f e s hs) (by simp)
      rw [Contract.exec]
      split
      next u s' w t hrun =>
        rw [hrun] at hgood hpost
        obtain ⟨hkeep, hrec⟩ := hpost u rfl
        exact ⟨hkeep, List.forall_mem_cons.2 ⟨hrec, hgood⟩⟩
      next s' w t hrun =>
        rw [hrun] at hgood
        exact ⟨D.refl f s, List.forall_mem_cons.2 ⟨D.failed f e s hs, hgood⟩⟩
    | frame static commits acts =>
      obtain ⟨hkeep, hgood⟩ := D.sequence (ih (f.restrict static)) acts s
        (D.restrict_holds f static s hs)
      refine ⟨?_, hgood⟩
      cases commits with
      | true => exact D.restrict_keeps f static s _ hs hkeep
      | false => exact D.refl f s

/-- **Every history keeps the discipline**, when what holds between transactions does not depend on
the time of the block. -/
theorem history (D : Discipline C Holds Keeps Good)
    (htime : ∀ t t' s, Holds (.top t) s → Holds (.top t') s) (depth : ℕ) (txs : List (ℕ × Act E))
    (s : σ) (hs : ∀ t, Holds (.top t) s) :
    (∀ t, Holds (.top t) (history C depth txs s).1) ∧
      ∀ r ∈ (Contract.history C depth txs s).2, Good r := by
  induction txs generalizing s with
  | nil => exact ⟨hs, by simp [Contract.history]⟩
  | cons tx txs ih =>
    obtain ⟨time, a⟩ := tx
    obtain ⟨hkeep, hgood⟩ := D.exec depth (.top time) a s (hs time)
    have hnext : ∀ t, Holds (.top t) (Contract.exec C depth (.top time) a s).1 :=
      fun t ↦ htime time t _ (D.stable _ _ _ (hs time) hkeep)
    obtain ⟨hfinal, hgood'⟩ := ih _ hnext
    refine ⟨hfinal, fun r hr ↦ ?_⟩
    rw [Contract.history, List.mem_append] at hr
    exact hr.elim (hgood r) (hgood' r)

end Discipline

end Execution

end Contract
