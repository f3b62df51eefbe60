import Mathlib.Data.List.Range
import EezDashboard.Treasury.Bootstrap

/-!
# Batches, in order and once

What a `TreasuryBootstrap` has done is a list of batches.  Between calls it is `Lawful`: the batches
carry the sequence numbers `0, 1, …` in order, only the last one may have closed the executor, every
step of every batch is `Step.Done`, and the events tell the same batches.

The reason is the flag `executing`.  It is up whenever a batch hands over control, and a call that
finds it up reverts, so a callee returns to the storage it left: `Sealed`.  The rules for the code
below are stated for every environment that is sealed in this sense, and there are two of them: the
accounts around the constructor, which have no code to enter, and those around the deployed executor.
-/

set_option autoImplicit false

namespace Bootstrap

open Contract Prog

/-! ## Batches, as they end -/

/-- What an action of a batch that ended was seen to do. -/
def Step.Done (keccak256 : List UInt8 → Word) (step : Step) : Prop :=
  match step.outcome with
  | .created account size =>
    step.action.create = true ∧ account = step.action.target ∧ size ≠ 0
  | .returned result =>
    step.action.create = false ∧
      (step.action.returnHash ≠ 0 → keccak256 result = step.action.returnHash)

/-- The events of a run of steps, the first one at index `i`. -/
def stepEvents (keccak256 : List UInt8 → Word) : ℕ → List Step → List Event
  | _, [] => []
  | i, ⟨action, .created account _⟩ :: steps =>
    .created i account (keccak256 action.data) :: stepEvents keccak256 (i + 1) steps
  | i, ⟨_, .returned _⟩ :: steps => stepEvents keccak256 (i + 1) steps

/-- The events of a batch. -/
def Batch.events (keccak256 : List UInt8 → Word) (b : Batch) : List Event :=
  stepEvents keccak256 0 b.steps ++
    [.executed b.sequence (keccak256 (encodeActions (b.steps.map Step.action))) b.finish]

/-- Between calls: the batches carry the sequence numbers in order, none follows one that closed the
executor, all that was seen of their actions is as the actions demand, and the events tell it. -/
structure Lawful (keccak256 : List UInt8 → Word) (s : Storage) : Prop where
  idle : s.executing = false
  steps : s.steps = []
  sequences : s.batches.map Batch.sequence = List.range s.sequence
  closed : s.closed = s.batches.any Batch.finish
  last : s.batches.Pairwise fun b _ ↦ b.finish = false
  nonempty : ∀ b ∈ s.batches, b.steps ≠ []
  done : ∀ b ∈ s.batches, ∀ step ∈ b.steps, step.Done keccak256
  log : s.log = s.batches.flatMap (Batch.events keccak256)

section Storage

variable {keccak256 : List UInt8 → Word} {s : Storage}

theorem stepEvents_cons (i : ℕ) (step : Step) (steps : List Step) :
    stepEvents keccak256 i (step :: steps) =
      stepEvents keccak256 i [step] ++ stepEvents keccak256 (i + 1) steps := by
  obtain ⟨action, _ | _⟩ := step <;> rfl

/-- The storage with more steps of the batch under way, the first of them at index `i`. -/
def Storage.see (keccak256 : List UInt8 → Word) (s : Storage) (i : ℕ) (steps : List Step) :
    Storage :=
  { s with
    log := s.log ++ stepEvents keccak256 i steps
    steps := s.steps ++ steps }

@[simp] theorem Storage.see_executing (i : ℕ) (steps : List Step) :
    (s.see keccak256 i steps).executing = s.executing := rfl

@[simp] theorem Storage.see_nil (i : ℕ) : s.see keccak256 i [] = s := by
  simp [Storage.see, stepEvents]

theorem Storage.see_see (i : ℕ) (step : Step) (steps : List Step) :
    (s.see keccak256 i [step]).see keccak256 (i + 1) steps = s.see keccak256 i (step :: steps) := by
  simp [Storage.see, stepEvents_cons i step steps]

/-- The storage after one more batch. -/
def Storage.complete (keccak256 : List UInt8 → Word) (s : Storage) (steps : List Step)
    (finish : Bool) : Storage :=
  { s with
    sequence := s.sequence + 1
    closed := finish
    executing := false
    log := s.log ++ Batch.events keccak256 ⟨s.sequence, steps, finish⟩
    steps := []
    batches := s.batches ++ [⟨s.sequence, steps, finish⟩] }

theorem lawful_initial (owner : Address) : Lawful keccak256 { Storage.initial with owner } := by
  constructor <;> simp [Storage.initial]

/-- A batch that ends on an open executor is the next one. -/
theorem Lawful.complete (h : Lawful keccak256 s) (hopen : s.closed = false) {steps : List Step}
    (hne : steps ≠ []) (hdone : ∀ step ∈ steps, step.Done keccak256) (finish : Bool) :
    Lawful keccak256 (s.complete keccak256 steps finish) := by
  have hunfinished : ∀ b ∈ s.batches, b.finish = false := by
    have hany := h.closed.symm.trans hopen
    simpa using hany
  constructor
  case idle => rfl
  case steps => rfl
  case sequences => simp [Storage.complete, h.sequences, List.range_succ]
  case closed =>
    have hany : s.batches.any Batch.finish = false := h.closed.symm.trans hopen
    simp [Storage.complete, hany]
  case last =>
    refine List.pairwise_append.2 ⟨h.last, List.pairwise_singleton _ _, fun b hb _ _ ↦ ?_⟩
    exact hunfinished b hb
  case nonempty =>
    intro b hb
    rcases List.mem_append.1 hb with hb | hb
    · exact h.nonempty b hb
    · obtain rfl := List.mem_singleton.1 hb
      exact hne
  case done =>
    intro b hb
    rcases List.mem_append.1 hb with hb | hb
    · exact h.done b hb
    · obtain rfl := List.mem_singleton.1 hb
      exact hdone
  case log => simp [Storage.complete, h.log]

end Storage

/-! ## One batch -/

/-- An environment that cannot change the storage while a batch executes. -/
structure Sealed (Ready : External → Storage → Prop) (Rely : External → Storage → Storage → Prop) :
    Prop where
  ready : ∀ q s, s.executing = true → Ready q s
  rely : ∀ q s s', s.executing = true → Rely q s s' → s' = s

section Wp

variable {keccak256 : List UInt8 → Word} {static : Bool} {Ready : External → Storage → Prop}
  {Rely : External → Storage → Storage → Prop} {s : Storage}

theorem wp_ask_sealed {β : Type} {q : External} {decode : List Word → Option β}
    (h : Sealed Ready Rely) (hbusy : s.executing = true) {post : β → Storage → Prop}
    (hpost : ∀ b, post b s) : (ask q decode : BootstrapM β).wp static Ready Rely post s := by
  refine wp_ask (h.ready q s hbusy) fun b s' hs' ↦ ?_
  rw [h.rely q s s' hbusy hs']
  exact hpost b

/-- An action the loop gets past is done. -/
theorem wp_perform (h : Sealed Ready Rely) (hbusy : s.executing = true) {i : ℕ} {action : Action}
    {post : Unit → Storage → Prop}
    (hpost : ∀ step : Step, step.action = action → step.Done keccak256 →
      post () (s.see keccak256 i [step])) :
    (perform keccak256 i action).wp static Ready Rely post s := by
  rw [perform, wp_bind, wp_revertIf]
  intro _
  split
  next hcreate =>
    rw [wp_bind, wp_revertIf]
    intro _
    rw [wp_bind]
    refine wp_ask_sealed h hbusy fun created ↦ ?_
    rw [wp_bind, wp_revertIf, not_not]
    rintro rfl
    rw [wp_bind]
    refine wp_ask_sealed h hbusy fun size ↦ ?_
    rw [wp_bind, wp_revertIf, wp_modify]
    intro hsize _
    exact hpost ⟨action, .created action.target size⟩ rfl ⟨hcreate, rfl, hsize⟩
  next hcall =>
    rw [wp_bind]
    refine wp_ask_sealed h hbusy fun size ↦ ?_
    rw [wp_bind, wp_revertIf]
    intro _
    rw [wp_bind]
    refine wp_ask_sealed h hbusy fun answer ↦ ?_
    obtain ⟨success, result⟩ := answer
    rw [wp_bind, wp_revertIf]
    intro _
    rw [wp_bind, wp_revertIf, wp_modify, not_and, not_not]
    intro hhash _
    have hstep := hpost ⟨action, .returned result⟩ rfl ⟨Bool.eq_false_iff.2 hcall, hhash⟩
    simpa [Storage.see, stepEvents] using hstep

/-- The loop gets to its end when every action is done, in order. -/
theorem wp_performAll (h : Sealed Ready Rely) {i : ℕ} {actions : List Action}
    (hbusy : s.executing = true) {post : Unit → Storage → Prop}
    (hpost : ∀ steps : List Step, steps.map Step.action = actions →
      (∀ step ∈ steps, step.Done keccak256) → post () (s.see keccak256 i steps)) :
    (performAll keccak256 i actions).wp static Ready Rely post s := by
  induction actions generalizing i s with
  | nil =>
    have hend := hpost [] rfl (by simp)
    rwa [Storage.see_nil] at hend
  | cons action actions ih =>
    rw [performAll, wp_bind]
    refine wp_perform h hbusy fun step hstep hdone ↦ ih (by simpa using hbusy) ?_
    intro steps hsteps hall
    rw [Storage.see_see]
    refine hpost (step :: steps) (by rw [List.map_cons, hstep, hsteps]) ?_
    exact List.forall_mem_cons.2 ⟨hdone, hall⟩

/-- `_execute` returns only on an open and idle executor, and then with one more batch. -/
theorem wp_executeBatch (h : Sealed Ready Rely) {actions : List Action} {finish : Bool}
    {post : Unit → Storage → Prop} (hsteps : s.executing = false → s.steps = [])
    (hpost : s.closed = false → s.executing = false → ∀ steps : List Step, steps ≠ [] →
      steps.map Step.action = actions → (∀ step ∈ steps, step.Done keccak256) →
      post () (s.complete keccak256 steps finish)) :
    (executeBatch keccak256 actions finish).wp static Ready Rely post s := by
  simp only [executeBatch, wp_bind, wp_get, wp_revertIf, wp_modify, wp_checkedAdd, not_or,
    Bool.not_eq_true]
  rintro ⟨hopen, hidle⟩ hlen _ _ _
  refine wp_performAll h rfl fun steps hmap hdone _ _ _ ↦ ?_
  have hne : steps ≠ [] := by
    rintro rfl
    exact hlen (by rw [← hmap]; rfl)
  have hend := hpost hopen hidle steps hne hmap hdone
  simpa [Storage.complete, Storage.see, Batch.events, hsteps hidle, hmap] using hend

end Wp

/-! ## Every execution -/

/-- Between two batches, with what was there at the deployment still there. -/
structure Since (keccak256 : List UInt8 → Word) (s₀ s : Storage) : Prop where
  lawful : Lawful keccak256 s
  owner : s.owner = s₀.owner
  batches : s₀.batches <+: s.batches

/-- A frame finds the executor between two batches, unless it is entered while one executes. -/
structure Ready (keccak256 : List UInt8 → Word) (s₀ : Storage) (f : Frame) (s : Storage) : Prop where
  outer : f.nested = false → Since keccak256 s₀ s
  inner : f.nested = true → s.executing = true

/-- While a batch executes nothing changes, and between batches none is taken back. -/
structure Keeps (keccak256 : List UInt8 → Word) (s₀ s s' : Storage) : Prop where
  busy : s.executing = true → s' = s
  since : Since keccak256 s₀ s → Since keccak256 s₀ s'

/-- A call that returned: it is the owner's, it is not nested, it finds the executor open, it carries
the number of the batches before it, and it adds one batch, which performs its actions. -/
structure Accepted (keccak256 : List UInt8 → Word) (s₀ : Storage) (r : Record Entry Storage) :
    Prop where
  owner : r.entry.sender = s₀.owner
  outer : r.frame.nested = false
  before : Lawful keccak256 r.before
  after : Lawful keccak256 r.after
  isOpen : r.before.closed = false
  sequence : r.entry.expectedSequence = r.before.batches.length
  batches : ∃ steps : List Step, steps.map Step.action = r.entry.actions ∧
    r.after.batches = r.before.batches ++ [⟨r.before.batches.length, steps, r.entry.finish⟩]
  closed : r.after.closed = r.entry.finish

/-- What a call did: it was accepted, or it left the storage as it found it. -/
structure Recorded (keccak256 : List UInt8 → Word) (s₀ : Storage) (r : Record Entry Storage) :
    Prop where
  returned : r.returned = true → Accepted keccak256 s₀ r
  failed : r.returned = false → r.after = r.before

section Frames

variable {keccak256 : List UInt8 → Word} {s₀ s : Storage} {f : Frame}

/-- There are as many batches as the sequence number says. -/
theorem Lawful.length (h : Lawful keccak256 s) : s.batches.length = s.sequence := by
  rw [← List.length_map (f := Batch.sequence), h.sequences, List.length_range]

theorem Since.complete (h : Since keccak256 s₀ s) (hopen : s.closed = false) {steps : List Step}
    (hne : steps ≠ []) (hdone : ∀ step ∈ steps, step.Done keccak256) (finish : Bool) :
    Since keccak256 s₀ (s.complete keccak256 steps finish) :=
  ⟨h.lawful.complete hopen hne hdone finish, h.owner, h.batches.trans (List.prefix_append _ _)⟩

theorem Keeps.ready {s' : Storage} (h : Ready keccak256 s₀ f s) (hk : Keeps keccak256 s₀ s s') :
    Ready keccak256 s₀ f s' := by
  refine ⟨fun hf ↦ hk.since (h.outer hf), fun hf ↦ ?_⟩
  rw [hk.busy (h.inner hf)]
  exact h.inner hf

/-- The accounts a deployed executor calls cannot change its storage before they answer. -/
theorem sealed_inner : Sealed (fun q ↦ Ready keccak256 s₀ (f.inner q.view))
    fun _ ↦ Keeps keccak256 s₀ where
  ready _ _ hbusy := ⟨fun hf ↦ by simp at hf, fun _ ↦ hbusy⟩
  rely _ _ _ hbusy hk := hk.busy hbusy

/-- `execute` returns only for the owner, with the next number, on an open and idle executor. -/
theorem wp_execute {sender : Address} {expectedSequence : ℕ} {actions : List Action} {finish : Bool}
    {post : Unit → Storage → Prop} (h : Ready keccak256 s₀ f s)
    (hpost : f.nested = false → sender = s.owner → expectedSequence = s.sequence →
      s.closed = false → ∀ steps : List Step, steps ≠ [] → steps.map Step.action = actions →
      (∀ step ∈ steps, step.Done keccak256) → post () (s.complete keccak256 steps finish)) :
    (execute keccak256 sender expectedSequence actions finish).wp f.static
      (fun q ↦ Ready keccak256 s₀ (f.inner q.view)) (fun _ ↦ Keeps keccak256 s₀) post s := by
  have houter : s.executing = false → f.nested = false := by
    intro hidle
    cases hn : f.nested with
    | false => rfl
    | true =>
      have hbusy := h.inner hn
      rw [hidle] at hbusy
      cases hbusy
  simp only [execute, wp_bind, wp_get, wp_revertIf, not_not]
  intro hsender hsequence
  refine wp_executeBatch sealed_inner (fun hidle ↦ (h.outer (houter hidle)).lawful.steps) ?_
  exact fun hopen hidle ↦ hpost (houter hidle) hsender hsequence hopen

/-- **One frame of the executor**, with the conditions its callees rely on. -/
theorem bootstrap_discipline (keccak256 : List UInt8 → Word) (s₀ : Storage) :
    Discipline (bootstrap keccak256) (Ready keccak256 s₀) (fun _ ↦ Keeps keccak256 s₀)
      (Recorded keccak256 s₀) where
  refl _ _ := ⟨fun _ ↦ rfl, id⟩
  trans _ s₁ s₂ s₃ h₁ h₂ := by
    refine ⟨fun hbusy ↦ ?_, fun hs ↦ h₂.since (h₁.since hs)⟩
    obtain rfl := h₁.busy hbusy
    exact h₂.busy hbusy
  stable _ _ _ h hk := hk.ready h
  restrict_holds _ _ _ h := ⟨h.outer, h.inner⟩
  restrict_keeps _ _ _ _ _ hk := hk
  returned f e s h := by
    refine wp_execute h fun hn hsender hsequence hopen steps hne hmap hdone ↦ ?_
    have hs := h.outer hn
    have hs' := hs.complete hopen hne hdone e.finish
    refine ⟨⟨fun hbusy ↦ ?_, fun _ ↦ hs'⟩, fun _ ↦ ?_, fun hf ↦ by simp at hf⟩
    · rw [hs.lawful.idle] at hbusy
      cases hbusy
    · constructor
      case owner => exact hsender.trans hs.owner
      case outer => exact hn
      case before => exact hs.lawful
      case after => exact hs'.lawful
      case isOpen => exact hopen
      case sequence => exact hsequence.trans hs.lawful.length.symm
      case batches => exact ⟨steps, hmap, by rw [hs.lawful.length]; rfl⟩
      case closed => rfl
  failed _ _ _ _ := ⟨fun hf ↦ by simp at hf, fun _ ↦ rfl⟩

end Frames

/-! ## From the deployment on -/

/-- The storage the constructor leaves: the deployer owns the executor, and there is one batch. -/
structure Deployed (keccak256 : List UInt8 → Word) (sender : Address) (actions : List Action)
    (s : Storage) : Prop where
  lawful : Lawful keccak256 s
  owner : s.owner = sender
  batches : ∃ steps : List Step, steps.map Step.action = actions ∧ s.batches = [⟨0, steps, false⟩]

theorem deploy_deployed {keccak256 : List UInt8 → Word} {sender : Address} {actions : List Action}
    {replies : List (Reply Entry)} {s : Storage}
    (h : deploy keccak256 sender actions replies = some s) :
    Deployed keccak256 sender actions s := by
  have hsealed : Sealed (fun _ _ ↦ True) fun _ s s' ↦ s' = s := ⟨fun _ _ _ ↦ trivial, fun _ _ _ _ ↦ id⟩
  have hwp : (construct keccak256 sender actions).wp false (fun _ _ ↦ True) (fun _ s s' ↦ s' = s)
      (fun _ s' ↦ Deployed keccak256 sender actions s') .initial := by
    rw [construct, wp_bind, wp_modify]
    intro _
    refine wp_executeBatch hsealed (fun _ ↦ rfl) fun hopen _ steps hne hmap hdone ↦ ?_
    exact ⟨(lawful_initial sender).complete hopen hne hdone false, rfl, steps, hmap, rfl⟩
  have henv : ∀ (q : External) (s : Storage) (w : List (Reply Entry) × List (Record Entry Storage)),
      True → True → (environment (fun _ _ s ↦ (s, [])) External.view (.top 0) q s w).2.1 = s ∧
        True := by
    rintro q s ⟨_ | ⟨⟨acts, answer⟩, replies⟩, t⟩ _ _ <;> exact ⟨rfl, trivial⟩
  obtain ⟨-, hpost⟩ := run_wp henv _ _ _ (replies, []) hwp trivial
  rw [deploy] at h
  split at h
  next u s' w t hrun =>
    rw [hrun] at hpost
    cases h
    exact hpost u rfl
  next => cases h

/-- **Batches, in order and once.**  Whatever accounts call `execute`, in whatever order, whatever the
accounts that the actions create and call do before they answer, calls back into the executor
included, and whichever of the frames around them revert: the batches that stand carry the numbers
`0, 1, …` in order, the constructor's first; none follows one that closed the executor; every creation
produced code at the declared account and every call whose result was hashed returned data with that
hash.  A call that returned is the owner's, was not made while a batch executed, and found the
executor open; any other call left the storage as it was. -/
theorem execute_batches (keccak256 : List UInt8 → Word) (sender : Address) (actions : List Action)
    (replies : List (Reply Entry)) {s₀ : Storage}
    (h : deploy keccak256 sender actions replies = some s₀) (depth : ℕ) (txs : List (ℕ × Act Entry)) :
    Deployed keccak256 sender actions s₀ ∧
    Since keccak256 s₀ (history (bootstrap keccak256) depth txs s₀).1 ∧
    ∀ r ∈ (history (bootstrap keccak256) depth txs s₀).2, Recorded keccak256 s₀ r := by
  have hdeployed := deploy_deployed h
  obtain ⟨hfinal, hrecords⟩ := (bootstrap_discipline keccak256 s₀).history
    (fun _ _ _ h ↦ ⟨fun _ ↦ h.outer rfl, fun hf ↦ by cases hf⟩) depth txs s₀
    (fun _ ↦ ⟨fun _ ↦ ⟨hdeployed.lawful, rfl, List.prefix_rfl⟩, fun hf ↦ by cases hf⟩)
  exact ⟨hdeployed, (hfinal 0).outer rfl, hrecords⟩

/-- An owner's call with a callee that calls back as the owner, and one more call after it closed. -/
theorem execute_batches_sample :
    let keccak256 : List UInt8 → Word := fun data ↦ if data = [2] then 7 else 0
    let call : Action := ⟨false, 5, [3], 7⟩
    let again : Act Entry := .call ⟨1, 2, [call], false⟩ []
    let txs : List (ℕ × Act Entry) :=
      [(10, .call ⟨1, 1, [call], true⟩ [([], some [1]), ([again], some [1, 2])]), (11, again)]
    let s₀ : Storage := ⟨1, 1, false, false, [.created 0 5 0, .executed 0 0 false], [],
      [⟨0, [⟨⟨true, 5, [96], 0⟩, .created 5 9⟩], false⟩]⟩
    deploy keccak256 1 [⟨true, 5, [96], 0⟩] [([], some [5]), ([], some [9])] = some s₀ ∧
      (history (bootstrap keccak256) 3 txs s₀).2.map Record.returned = [true, false, false] ∧
      Since keccak256 s₀ (history (bootstrap keccak256) 3 txs s₀).1 := by
  intro keccak256 call again txs s₀
  have hdeploy : deploy keccak256 1 [⟨true, 5, [96], 0⟩] [([], some [5]), ([], some [9])] = some s₀ := by
    decide +kernel
  refine ⟨hdeploy, by decide +kernel, ?_⟩
  exact (execute_batches keccak256 1 _ _ hdeploy 3 txs).2.1

end Bootstrap
