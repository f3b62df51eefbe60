import Mathlib.Data.List.Chain
import EezDashboard.Monitor.Delivery

/-!
# Filling the block windows

`hydrate_blocks` follows the parent hashes from the newest head of a chain, one block after the other, and then
publishes the rows.  Meanwhile heads arrive and clients come and go.  Whatever happens, the rows are linked; but a
window that was left when the last client went is published short, and its head counts as completed.
-/

set_option autoImplicit false

namespace Monitor

/-- What `hydrate_blocks` looks at in a block that `live_block` returns. -/
structure Row where
  number : Option ℤ
  hash : Option String
  parentHash : Option String
  deriving DecidableEq, Repr

/-- The variables of the loop over one window. -/
structure Reading where
  target : Block
  rows : List Row
  wanted : Option String
  /-- how many rounds are left of `range(limit)` -/
  left : ℕ
  deriving DecidableEq, Repr

/-- Where the thread stands: it waits for a head, is at the start of a round, waits for a block, or has left the
loop. -/
inductive Phase
  | waiting
  | checking (r : Reading)
  | fetching (r : Reading)
  | finished (r : Reading)
  deriving DecidableEq, Repr

/-- The thread that runs `hydrate_blocks` for one chain. -/
structure Hydrator where
  completed : Option String
  cached : List Row
  phase : Phase
  deriving DecidableEq, Repr

/-- `limit` -/
def limitOf (setting : ℤ) : ℕ := (max 1 (min 128 setting)).toNat

namespace Hydrator

def init : Hydrator := ⟨none, [], .waiting⟩

/-- `cached.get(wanted)`; of two rows with one hash the later counts. -/
def cachedRow (h : Hydrator) (wanted : Option String) : Option Row :=
  h.cached.reverse.find? fun row ↦ row.hash = wanted

/-- The target, once a head is there that is not completed. -/
def await {Row Snapshot : Type} (h : Hydrator) (feed : Feed Row Snapshot) (name : Name) (limit : ℕ) : Phase :=
  match feed.heads name with
  | some head =>
    if ¬feed.stopped ∧ feed.active ∧ some head.block.hash ≠ h.completed then
      .checking ⟨head.block, [], some head.block.hash, limit⟩
    else .waiting
  | none => .waiting

/-- The start of a round. -/
def check {Row Snapshot : Type} (feed : Feed Row Snapshot) (r : Reading) : Phase :=
  if r.left = 0 then .finished r
  else if feed.stopped ∨ ¬feed.active then .finished r
  else .fetching { r with left := r.left - 1 }

/-- The rest of a round; an exception ends the loop, and the window is tried again. -/
def append (r : Reading) (block : Option Row) : Phase :=
  match block with
  | none => .waiting
  | some block =>
    if block.hash ≠ r.wanted ∨ block.number ≠ some ((r.target.number : ℤ) - r.rows.length) then .waiting
    else if block.number = some 0 then .finished { r with rows := r.rows ++ [block] }
    else .checking { r with rows := r.rows ++ [block], wanted := block.parentHash }

end Hydrator

/-- The feed, and one thread for each chain. -/
structure Hydration (Snapshot : Type) where
  system : System Row Snapshot
  hydrators : Name → Hydrator

inductive HydrationOp (Snapshot : Type)
  /-- a thread goes on; `answer` is what `live_block` returns, if it is asked and does not raise -/
  | work (name : Name) (answer : Option Row)
  | feed (op : Op Row Snapshot)

namespace Hydration

variable {Snapshot : Type} (settings : Name → ℤ)

def init : Hydration Snapshot := ⟨System.init, fun _ ↦ Hydrator.init⟩

def setPhase (s : Hydration Snapshot) (name : Name) (phase : Phase) : Hydration Snapshot :=
  { s with hydrators := Function.update s.hydrators name { s.hydrators name with phase := phase } }

/-- The rows are published and their head is completed. -/
def publish (s : Hydration Snapshot) (name : Name) (r : Reading) : Hydration Snapshot where
  system := s.system.step (.publishBlocks name r.rows)
  hydrators := Function.update s.hydrators name ⟨some r.target.hash, r.rows, .waiting⟩

/-- What a thread of `hydrate_blocks` does next. -/
def work (s : Hydration Snapshot) (name : Name) (answer : Option Row) : Hydration Snapshot :=
  let h := s.hydrators name
  match h.phase with
  | .waiting => s.setPhase name (h.await s.system.feed name (limitOf (settings name)))
  | .checking r => s.setPhase name (Hydrator.check s.system.feed r)
  | .fetching r => s.setPhase name (Hydrator.append r ((h.cachedRow r.wanted).or answer))
  | .finished r => if r.rows = [] then s.setPhase name .waiting else s.publish name r

def step (s : Hydration Snapshot) : HydrationOp Snapshot → Hydration Snapshot
  | .work name answer => s.work settings name answer
  | .feed op => { s with system := s.system.step op }

def run (ops : List (HydrationOp Snapshot)) : Hydration Snapshot := ops.foldl (step settings) init

end Hydration

/-! ## Windows -/

/-- One row is the parent of another. -/
def Row.Parent (child parent : Row) : Prop :=
  parent.hash = child.parentHash ∧ ∃ number, child.number = some number ∧ parent.number = some (number - 1)

/-- The rows are the ancestors of the target, as many as there are up to the limit. -/
structure Window (limit : ℕ) (target : Block) (rows : List Row) : Prop where
  first : ∃ row rest, rows = row :: rest ∧ row.hash = some target.hash ∧ row.number = some (target.number : ℤ)
  linked : rows.IsChain Row.Parent
  length : rows.length = min limit (target.number + 1)

/-- The feed stops, or the last client goes, when a thread has read a part of its window. -/
def Interrupted {Snapshot : Type} (s : Hydration Snapshot) (name : Name) : Prop :=
  ∃ r, (s.hydrators name).phase = .checking r ∧ r.rows ≠ [] ∧ r.left ≠ 0 ∧
    (s.system.feed.stopped = true ∨ s.system.feed.active = false)

/-- What the rows and the variables of the loop are at the start of a round. -/
structure Reads (limit : ℕ) (r : Reading) : Prop where
  count : r.rows.length + r.left = limit
  /-- no row was the first block of the chain -/
  below : r.rows.length ≤ r.target.number
  linked : r.rows.IsChain Row.Parent
  first : ∀ row ∈ r.rows.head?, row.hash = some r.target.hash ∧ row.number = some (r.target.number : ℤ)
  last : ∀ row ∈ r.rows.getLast?, row.number = some (r.target.number + 1 - r.rows.length : ℤ)
  wanted : r.wanted = match r.rows.getLast? with
    | none => some r.target.hash
    | some row => row.parentHash

theorem Reads.start {limit : ℕ} (target : Block) : Reads limit ⟨target, [], some target.hash, limit⟩ where
  count := Nat.zero_add limit
  below := Nat.zero_le _
  linked := List.isChain_nil
  first _ h := nomatch h
  last _ h := nomatch h
  wanted := rfl

/-- A full window. -/
theorem Reads.window {limit : ℕ} {r : Reading} (h : Reads limit r) (hleft : r.left = 0) (hrows : r.rows ≠ []) :
    Window limit r.target r.rows where
  first := by
    obtain ⟨row, rest, hcons⟩ := List.exists_cons_of_ne_nil hrows
    have hfirst := h.first row (by rw [hcons]; rfl)
    exact ⟨row, rest, hcons, hfirst⟩
  linked := h.linked
  length := by
    have hcount := h.count
    have hbelow := h.below
    omega

/-- A window that was left too early. -/
theorem Reads.not_window {limit : ℕ} {r : Reading} (h : Reads limit r) (hleft : r.left ≠ 0) :
    ¬Window limit r.target r.rows := by
  intro hwindow
  have hcount := h.count
  have hbelow := h.below
  have hlength := hwindow.length
  omega

section Append

variable {limit : ℕ} {r : Reading} {block : Row}

theorem Reads.linked_append (h : Reads limit r) (hhash : block.hash = r.wanted)
    (hnumber : block.number = some (r.target.number - r.rows.length : ℤ)) :
    (r.rows ++ [block]).IsChain Row.Parent := by
  refine List.isChain_append.2 ⟨h.linked, List.isChain_singleton _, ?_⟩
  intro child hchild parent hparent
  obtain rfl : block = parent := Option.some.inj hparent
  have hwanted := h.wanted
  rw [Option.mem_def.1 hchild] at hwanted
  refine ⟨hhash.trans hwanted, _, h.last child hchild, ?_⟩
  rw [hnumber]
  congr 1
  omega

theorem Reads.first_append (h : Reads limit r) (hhash : block.hash = r.wanted)
    (hnumber : block.number = some (r.target.number - r.rows.length : ℤ)) :
    ∀ row ∈ (r.rows ++ [block]).head?, row.hash = some r.target.hash ∧ row.number = some (r.target.number : ℤ) := by
  have hwanted := h.wanted
  cases hrows : r.rows with
  | nil =>
    rw [hrows] at hwanted hnumber
    intro row hrow
    obtain rfl : block = row := Option.some.inj hrow
    refine ⟨hhash.trans hwanted, hnumber.trans ?_⟩
    rw [List.length_nil, Int.natCast_zero, Int.sub_zero]
  | cons first rest =>
    intro row hrow
    exact h.first row (by rw [hrows]; exact hrow)

/-- One more block, which is not the first of the chain. -/
theorem Reads.append {left : ℕ} (h : Reads limit { r with left := left + 1 }) (hhash : block.hash = r.wanted)
    (hnumber : block.number = some (r.target.number - r.rows.length : ℤ)) (hzero : block.number ≠ some 0) :
    Reads limit { r with rows := r.rows ++ [block], wanted := block.parentHash, left := left } where
  count := by
    have hcount := h.count
    rw [List.length_append, List.length_singleton]
    dsimp only at hcount ⊢
    omega
  below := by
    have hbelow := h.below
    rw [hnumber, Ne, Option.some.injEq] at hzero
    rw [List.length_append, List.length_singleton]
    dsimp only at hbelow ⊢
    omega
  linked := h.linked_append hhash hnumber
  first := h.first_append hhash hnumber
  last := by
    intro row hrow
    rw [List.getLast?_append, List.getLast?_singleton, Option.some_or] at hrow
    obtain rfl : block = row := Option.some.inj hrow
    rw [hnumber, List.length_append, List.length_singleton]
    dsimp only
    congr 1
    omega
  wanted := by rw [List.getLast?_append, List.getLast?_singleton, Option.some_or]

/-- The first block of the chain ends the window. -/
theorem Reads.window_zero {left : ℕ} (h : Reads limit { r with left := left + 1 }) (hhash : block.hash = r.wanted)
    (hnumber : block.number = some (r.target.number - r.rows.length : ℤ)) (hzero : block.number = some 0) :
    Window limit r.target (r.rows ++ [block]) where
  first := by
    obtain ⟨row, rest, hcons⟩ := List.exists_cons_of_ne_nil (List.append_ne_nil_of_right_ne_nil r.rows
      (List.cons_ne_nil block []))
    have hfirst := h.first_append hhash hnumber row (by dsimp only; rw [hcons]; rfl)
    exact ⟨row, rest, hcons, hfirst⟩
  linked := h.linked_append hhash hnumber
  length := by
    have hcount := h.count
    rw [hnumber, Option.some.injEq] at hzero
    rw [List.length_append, List.length_singleton]
    dsimp only at hcount
    omega

end Append

/-! ## Every run -/

/-- Where a thread may stand; `calm` says that it was never interrupted. -/
def Phase.Sound (limit : ℕ) (calm : Prop) : Phase → Prop
  | .waiting => True
  | .checking r => Reads limit r
  | .fetching r => Reads limit { r with left := r.left + 1 }
  | .finished r => calm → r.rows ≠ [] → Window limit r.target r.rows

section Runs

variable {Snapshot : Type} {settings : Name → ℤ} {s : Hydration Snapshot} {name : Name} {limit : ℕ}
  {calm calm' : Prop}

theorem Phase.Sound.mono {phase : Phase} (h : phase.Sound limit calm) (hcalm : calm' → calm) :
    phase.Sound limit calm' := by
  cases phase with
  | finished r => exact fun hc ↦ h (hcalm hc)
  | _ => exact h

theorem await_sound (h : Hydrator) (feed : Feed Row Snapshot) (limit : ℕ) :
    (h.await feed name limit).Sound limit calm := by
  rw [Hydrator.await]
  split
  · split
    · exact Reads.start _
    · trivial
  · trivial

theorem append_sound {r : Reading} (h : Reads limit { r with left := r.left + 1 })
    (block : Option Row) : (Hydrator.append r block).Sound limit calm := by
  unfold Hydrator.append
  split
  · trivial
  · split
    · trivial
    · rename_i block hmatch
      rw [not_or, Ne, not_not, Ne, not_not] at hmatch
      split
      · rename_i hzero
        exact fun _ _ ↦ h.window_zero hmatch.1 hmatch.2 hzero
      · rename_i hzero
        exact h.append hmatch.1 hmatch.2 hzero

theorem check_sound {r : Reading} (h : Reads limit r) (feed : Feed Row Snapshot)
    (hcalm : calm → r.rows ≠ [] → r.left ≠ 0 → ¬(feed.stopped = true ∨ feed.active = false)) :
    (Hydrator.check feed r).Sound limit calm := by
  rw [Hydrator.check]
  split
  · rename_i hleft
    exact fun _ hrows ↦ h.window hleft hrows
  · rename_i hleft
    split
    · rename_i hgone
      rw [Bool.not_eq_true] at hgone
      exact fun hc hrows ↦ absurd hgone (hcalm hc hrows hleft)
    · have hsucc : r.left - 1 + 1 = r.left := Nat.succ_pred hleft
      rw [Phase.Sound]
      dsimp only
      rw [hsucc]
      exact h

@[simp] theorem Hydration.setPhase_phase (phase : Phase) : ((s.setPhase name phase).hydrators name).phase = phase := by
  change (Function.update s.hydrators name _ name).phase = phase
  rw [Function.update_self]

@[simp] theorem Hydration.publish_self (r : Reading) :
    (s.publish name r).hydrators name = ⟨some r.target.hash, r.rows, .waiting⟩ :=
  Function.update_self ..

/-- The phase of a thread after it went on. -/
theorem work_phase (h : ((s.hydrators name).phase).Sound (limitOf (settings name)) calm)
    (hcalm : calm → ¬Interrupted s name) (answer : Option Row) :
    (((s.work settings name answer).hydrators name).phase).Sound (limitOf (settings name)) calm := by
  rw [Hydration.work]
  split
  · rw [Hydration.setPhase_phase]
    exact await_sound _ _ _
  · rename_i r hphase
    rw [hphase] at h
    rw [Hydration.setPhase_phase]
    exact check_sound h _ fun hc hrows hleft hgone ↦ hcalm hc ⟨r, hphase, hrows, hleft, hgone⟩
  · rename_i r hphase
    rw [hphase] at h
    rw [Hydration.setPhase_phase]
    exact append_sound h _
  · split
    · rw [Hydration.setPhase_phase]
      trivial
    · rw [Hydration.publish_self]
      trivial

/-- The other thread stands where it stood. -/
theorem work_other {other : Name} (hother : other ≠ name) (answer : Option Row) :
    (s.work settings name answer).hydrators other = s.hydrators other := by
  rw [Hydration.work]
  split
  · exact Function.update_of_ne hother _ _
  · exact Function.update_of_ne hother _ _
  · exact Function.update_of_ne hother _ _
  · split
    · exact Function.update_of_ne hother _ _
    · exact Function.update_of_ne hother _ _

/-- No thread is interrupted in a run. -/
def Calm (settings : Name → ℤ) (ops : List (HydrationOp Snapshot)) : Prop :=
  ∀ earlier name answer, earlier ++ [.work name answer] <+: ops → ¬Interrupted (Hydration.run settings earlier) name

theorem Calm.mono {ops ops' : List (HydrationOp Snapshot)} (h : Calm settings ops') (hops : ops <+: ops') :
    Calm settings ops :=
  fun earlier name answer hearlier ↦ h earlier name answer (hearlier.trans hops)

theorem Hydration.run_append (ops : List (HydrationOp Snapshot)) (op : HydrationOp Snapshot) :
    run settings (ops ++ [op]) = (run settings ops).step settings op := by
  rw [run, List.foldl_append]
  rfl

theorem Hydration.run_phase (ops : List (HydrationOp Snapshot)) (name : Name) :
    (((run settings ops).hydrators name).phase).Sound (limitOf (settings name)) (Calm settings ops) := by
  induction ops using List.reverseRecOn with
  | nil => trivial
  | append_singleton ops op ih =>
    have ih := ih.mono fun hcalm : Calm settings (ops ++ [op]) ↦ hcalm.mono (List.prefix_append ops [op])
    rw [run_append]
    cases op with
    | feed op => exact ih
    | work worker answer =>
      by_cases hworker : name = worker
      · subst hworker
        exact work_phase ih (fun hcalm ↦ hcalm ops name answer List.prefix_rfl) answer
      · rw [step, work_other hworker]
        exact ih

/-- A thread has rows to publish for its target. -/
def Publishes (s : Hydration Snapshot) (name : Name) (r : Reading) : Prop :=
  (s.hydrators name).phase = .finished r ∧ r.rows ≠ []

/-- It publishes them, and marks the target as completed. -/
theorem Publishes.work {r : Reading} (h : Publishes s name r) (answer : Option Row) :
    (s.work settings name answer).system.feed = s.system.feed.publishBlocks name r.rows ∧
      ((s.work settings name answer).hydrators name).completed = some r.target.hash := by
  rw [Hydration.work, h.1]
  dsimp only
  rw [if_neg h.2]
  exact ⟨rfl, by rw [Hydration.publish_self]⟩

/-- A thread that is interrupted has a part of its window to publish. -/
theorem Interrupted.work (h : Interrupted s name)
    (hsound : ((s.hydrators name).phase).Sound (limitOf (settings name)) calm) (answer : Option Row) :
    ∃ r, Publishes (s.work settings name answer) name r ∧ ¬Window (limitOf (settings name)) r.target r.rows := by
  obtain ⟨r, hphase, hrows, hleft, hgone⟩ := h
  rw [hphase] at hsound
  refine ⟨r, ⟨?_, hrows⟩, hsound.not_window hleft⟩
  rw [Hydration.work, hphase]
  dsimp only
  rw [Hydration.setPhase_phase, Hydrator.check, if_neg hleft, if_pos (by simpa using hgone)]

end Runs

/-- In every run, the windows to be published are all full exactly if no thread is interrupted; and each of them
is published, and its head completed, when its thread goes on. -/
theorem run_windows_iff {Snapshot : Type} (settings : Name → ℤ) (ops : List (HydrationOp Snapshot)) :
    ((∀ earlier name r, earlier <+: ops → Publishes (Hydration.run settings earlier) name r →
        Window (limitOf (settings name)) r.target r.rows) ↔ Calm settings ops) ∧
    ∀ earlier name r answer, earlier <+: ops → Publishes (Hydration.run settings earlier) name r →
      (Hydration.run settings (earlier ++ [.work name answer])).system.feed.blocks name = some r.rows ∧
        ((Hydration.run settings (earlier ++ [.work name answer])).hydrators name).completed =
          some r.target.hash := by
  refine ⟨⟨fun h earlier name answer hearlier hinterrupted ↦ ?_, fun h earlier name r hearlier hr ↦ ?_⟩, ?_⟩
  · obtain ⟨r, hr, hshort⟩ := hinterrupted.work (Hydration.run_phase earlier name) answer
    change Publishes ((Hydration.run settings earlier).step settings (.work name answer)) name r at hr
    rw [← Hydration.run_append] at hr
    exact hshort (h _ name r hearlier hr)
  · have hsound : Phase.Sound (limitOf (settings name)) (Calm settings earlier) _ := Hydration.run_phase earlier name
    rw [hr.1] at hsound
    exact hsound (h.mono hearlier) hr.2
  · intro earlier name r answer _ hr
    obtain ⟨hfeed, hcompleted⟩ := hr.work answer
    rw [Hydration.run_append, Hydration.step, hfeed]
    exact ⟨Function.update_self .., hcompleted⟩

/-- The only client goes when the newest of three blocks has been read. -/
def sampleHydration : List (HydrationOp ℕ) :=
  [.feed (.attach 0 60), .feed (.publishHead .l2 ⟨some 2, some "0xcc", some "0xbb", some 9, some 0, some 1⟩ 0),
    .work .l2 none, .work .l2 none, .work .l2 (some ⟨some 2, some "0xcc", some "0xbb"⟩), .feed (.detach 0),
    .work .l2 none]

/-- It is published as the whole window. -/
theorem not_window_detached : ¬∀ earlier name r, earlier <+: sampleHydration →
    Publishes (Hydration.run (fun _ ↦ 100) earlier) name r → Window (limitOf 100) r.target r.rows := by
  intro h
  have hwindow := h sampleHydration .l2
    ⟨⟨2, "0xcc", some "0xbb", 9, 0, 1⟩, [⟨some 2, some "0xcc", some "0xbb"⟩], some "0xbb", 99⟩ List.prefix_rfl
    ⟨rfl, List.cons_ne_nil _ _⟩
  have hlength := hwindow.length
  revert hlength
  decide

end Monitor
