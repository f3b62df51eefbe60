import EezDashboard.Monitor.Page

/-!
# The head a page shows

`mergeHeads` decides by sequences: a head stands over a snapshot, unless the snapshot is not stale, has the
chain and was collected from a version on that is no less than the head's sequence.  With a frame the feed
sends the version at which its thread began to collect, and the collection began later; so the latest block a
page shows is the newest head it was sent, or comes from a collection that is younger.  With an answer over
HTTP the page supposes that every head it knows is older, and the cache may have collected it before.
-/

set_option autoImplicit false

namespace Monitor

/-- The hash of the latest block of a chain. -/
def Snapshot.latestHash (snapshot : Snapshot) (name : Name) : Option String :=
  (snapshot.chains name).latest.map BlockRow.hash

/-! ## Drawing -/

section Rows

variable {known : List BlockRow} {block row : BlockRow} {hash : String}

theorem hash_of_lookup (h : lookup known hash = some row) : row.hash = hash := by
  have hfound := List.find?_some h
  exact of_decide_eq_true hfound

theorem exists_lookup_hydrate (known : List BlockRow) (block : BlockRow) :
    ∃ row, lookup (hydrate known block) block.hash = some row := by
  set merged := ((lookup known block.hash).map block.merge).getD block with hmerged
  have hhash : merged.hash = block.hash := by
    rw [hmerged]
    cases lookup known block.hash <;> rfl
  have hmem : merged ∈ hydrate known block := Window.mem_set.2 (.inl rfl)
  rw [← Option.isSome_iff_exists, lookup, List.find?_isSome]
  exact ⟨merged, hmem, decide_eq_true hhash⟩

theorem blockWindow_pos (snapshot : Snapshot) (name : Name) : 0 < blockWindow snapshot name := by
  have hpos : ∀ n ∈ ((snapshot.recentBlockWindows name).filter (· ≠ 0)).or
      (snapshot.recentBlockWindow.filter (· ≠ 0)), 0 < n := by
    intro n hn
    rcases Option.or_eq_some_iff.1 hn with h | ⟨-, h⟩
    · exact Nat.pos_of_ne_zero (of_decide_eq_true (Option.filter_eq_some_iff.1 h).2)
    · exact Nat.pos_of_ne_zero (of_decide_eq_true (Option.filter_eq_some_iff.1 h).2)
  unfold blockWindow
  cases hwindow : ((snapshot.recentBlockWindows name).filter (· ≠ 0)).or
      (snapshot.recentBlockWindow.filter (· ≠ 0)) with
  | none => rw [Option.getD_none]; split <;> decide
  | some n => exact hpos n hwindow

end Rows

namespace Dashboard

variable {state : Dashboard} {snapshot : Snapshot} {name : Name} {update : Head}

theorem hydrateChain_latest {window : ℕ} (hwindow : 0 < window) (chain : ChainView) :
    (state.hydrateChain window name chain).latest.map BlockRow.hash = chain.latest.map BlockRow.hash := by
  unfold hydrateChain
  split
  next hnone => rfl
  next latest hlatest =>
    split
    next => rfl
    next =>
      obtain ⟨window, rfl⟩ := Nat.exists_eq_add_of_lt hwindow
      rw [Nat.zero_add, List.foldl_append, List.foldl_cons, List.foldl_nil]
      obtain ⟨row, hrow⟩ := exists_lookup_hydrate
        ((state.headHistory name ++ chain.blocks).foldl hydrate []) latest
      dsimp only
      rw [hrow, ancestry, List.head?_cons, Option.map_some, hlatest, Option.map_some, hash_of_lookup hrow]

/-- What is drawn has the heads of what it is drawn from. -/
theorem hydrateBlockRows_latestHash (snapshot : Snapshot) :
    (state.hydrateBlockRows snapshot).latestHash name = snapshot.latestHash name :=
  hydrateChain_latest (blockWindow_pos snapshot name) _

/-! ## Heads over a snapshot -/

theorem mergeChain_latest {window : ℕ} (chain : ChainView) :
    (state.mergeChain window name update chain).1.latest.map BlockRow.hash = some update.block.hash := by
  have hhead : ∀ known, ((lookup known update.block.row.hash).or (some update.block.row)).map
      BlockRow.hash = some update.block.hash := by
    intro known
    cases hrow : lookup known update.block.row.hash with
    | none => rfl
    | some row => rw [Option.some_or, Option.map_some, hash_of_lookup hrow]; rfl
  have hmerged : ∀ (known : List BlockRow) (blocks : List BlockRow),
      (if chain.latest.map BlockRow.hash ≠ some update.block.row.hash then
        { chain with
          latest := (lookup known update.block.row.hash).or (some update.block.row)
          blocks := blocks }
      else chain).latest.map BlockRow.hash = some update.block.hash := by
    intro known blocks
    split
    next => exact hhead known
    next hsame => exact not_not.1 hsame
  unfold mergeChain
  dsimp only
  split
  next =>
    split
    next => exact hmerged _ _
    next => exact hmerged _ _
  next => exact hmerged _ _

variable {startedSequence : ℤ}

/-- A head changes what is shown of its own chain only. -/
theorem mergeHead_of_ne {other : Name} (hne : other ≠ name) (update : Option Head)
    (snapshot result : Snapshot) :
    ((state.mergeHead startedSequence name update snapshot result).chains other).latest =
        (result.chains other).latest ∧
      ((state.mergeHead startedSequence name update snapshot result).chains other).healthy =
        (result.chains other).healthy := by
  unfold mergeHead
  split
  next => exact ⟨rfl, rfl⟩
  next update =>
    split
    next => exact ⟨rfl, rfl⟩
    next =>
      dsimp only
      split
      next hreorg =>
        obtain ⟨-, rfl⟩ := hreorg
        obtain rfl : other = .l2 := by cases other <;> first | rfl | exact absurd rfl hne
        rw [Function.update_self, Function.update_of_ne hne]
        exact ⟨rfl, rfl⟩
      next =>
        rw [Function.update_of_ne hne]
        exact ⟨rfl, rfl⟩

theorem mergeHead_self (update : Head) (snapshot result : Snapshot) :
    (state.mergeHead startedSequence name (some update) snapshot result).latestHash name =
      if isReconciled snapshot.stale startedSequence (result.chains name) update then
        result.latestHash name
      else some update.block.hash := by
  rw [mergeHead]
  split
  next => rfl
  next =>
    have hchain : (state.mergeChain (blockWindow snapshot name) name update
        (result.chains name)).1.latest.map BlockRow.hash = some update.block.hash := mergeChain_latest _
    dsimp only [Snapshot.latestHash]
    split
    next hreorg =>
      obtain ⟨-, rfl⟩ := hreorg
      rw [Function.update_of_ne (by decide), Function.update_self]
      exact hchain
    next =>
      rw [Function.update_self]
      exact hchain

theorem isReconciled_congr {stale : Bool} {chain chain' : ChainView} (hlatest : chain.latest = chain'.latest)
    (hhealthy : chain.healthy = chain'.healthy) :
    isReconciled stale startedSequence chain update = isReconciled stale startedSequence chain' update := by
  rw [isReconciled, isReconciled, ChainView.latestHash, ChainView.latestHash, hlatest, hhealthy]

/-- **What is shown of a chain**: its head, unless the snapshot stands over it. -/
theorem mergeHeads_latestHash (heads : Name → Option Head) (snapshot : Snapshot) (name : Name) :
    (state.mergeHeads snapshot startedSequence heads).latestHash name =
      match heads name with
      | none => snapshot.latestHash name
      | some update =>
        if isReconciled snapshot.stale startedSequence (snapshot.chains name) update then
          snapshot.latestHash name
        else some update.block.hash := by
  unfold mergeHeads
  cases name with
  | l1 =>
    rw [Snapshot.latestHash, (mergeHead_of_ne (by decide) _ _ _).1]
    cases heads .l1 with
    | none => rfl
    | some update => exact mergeHead_self update snapshot snapshot
  | l2 =>
    obtain ⟨hlatest, hhealthy⟩ := @mergeHead_of_ne state .l1 startedSequence .l2 (by decide) (heads .l1)
      snapshot snapshot
    cases heads .l2 with
    | none => rw [mergeHead, Snapshot.latestHash, hlatest]; rfl
    | some update =>
      rw [mergeHead_self, isReconciled_congr hlatest hhealthy, Snapshot.latestHash, hlatest]
      rfl

/-! ## Remembering heads -/

/-- What remembering heads does to a page: some of them, newer than those it knew, replace these, and the
others leave no trace. -/
structure Remembers (heads : Name → Option Head) (state state' : Dashboard) (changed : Name → Option Head) :
    Prop where
  head : ∀ name, state'.heads name = (changed name).or (state.heads name)
  given : ∀ name update, changed name = some update → heads name = some update
  newer : ∀ name update, changed name = some update → ∀ known, state.heads name = some known →
    known.sequence < update.sequence
  mark : ∀ name, state'.pendingChains name = state.pendingChains name ∨ ∃ update pending,
    changed name = some update ∧ state'.pendingChains name = some pending ∧
      pending.sequence = update.sequence
  snapshot : state'.snapshot = state.snapshot
  socket : state'.socket = state.socket
  loading : state'.loading = state.loading

section Remember

variable {state' : Dashboard} {heads changed : Name → Option Head} {ok : Bool}

theorem remembers_refl : Remembers heads state state fun _ ↦ none :=
  ⟨fun _ ↦ rfl, nofun, nofun, fun _ ↦ .inl rfl, rfl, rfl, rfl⟩

@[simp] theorem rememberHead_heads : (state.rememberHead name update).heads =
    Function.update state.heads name (some update) := rfl

@[simp] theorem rememberHead_pendingChains : (state.rememberHead name update).pendingChains =
    Function.update state.pendingChains name
      ((state.markOf name update).or (state.pendingChains name)) := rfl

theorem sequence_of_markOf {pending : Pending} (h : state.markOf name update = some pending) :
    pending.sequence = update.sequence := by
  unfold markOf at h
  split at h
  next => cases h
  next =>
    split at h
    next => cases h
    next =>
      split at h
      next => cases h
      next => cases h; rfl

theorem Remembers.rememberHead (h : Remembers heads state state' changed) (hfirst : changed name = none)
    (hgiven : heads name = some update) (hnew : state'.isNew name update = true) :
    Remembers heads state (state'.rememberHead name update) (Function.update changed name (some update)) := by
  have hknown : state'.heads name = state.heads name := by rw [h.head, hfirst, Option.none_or]
  constructor
  case head =>
    intro other
    rcases eq_or_ne other name with rfl | hother
    · rw [rememberHead_heads, Function.update_self, Function.update_self, Option.some_or]
    · rw [rememberHead_heads, Function.update_of_ne hother, Function.update_of_ne hother, h.head]
  case given =>
    intro other u hu
    rcases eq_or_ne other name with rfl | hother
    · rw [Function.update_self] at hu
      exact hgiven.trans hu
    · rw [Function.update_of_ne hother] at hu
      exact h.given other u hu
  case newer =>
    intro other u hu
    rcases eq_or_ne other name with rfl | hother
    · rw [Function.update_self, Option.some_inj] at hu
      subst hu
      intro known hstate
      rw [isNew, hknown, hstate] at hnew
      exact of_decide_eq_true hnew
    · rw [Function.update_of_ne hother] at hu
      exact h.newer other u hu
  case mark =>
    intro other
    rcases eq_or_ne other name with rfl | hother
    · rw [rememberHead_pendingChains, Function.update_self, Function.update_self]
      cases hmark : state'.markOf other update with
      | none =>
        refine (h.mark other).imp_right fun ⟨u, pending, hu, _⟩ ↦ ?_
        rw [hfirst] at hu
        cases hu
      | some pending => exact .inr ⟨update, pending, rfl, rfl, sequence_of_markOf hmark⟩
    · rw [rememberHead_pendingChains, Function.update_of_ne hother, Function.update_of_ne hother]
      exact h.mark other
  case snapshot => exact h.snapshot
  case socket => exact h.socket
  case loading => exact h.loading

/-- One round: the head of the chain is remembered, or one that is as new is known. -/
theorem Remembers.rememberNext (h : Remembers heads state state' changed) (hfirst : changed name = none)
    {next : Dashboard} {changed' : Name → Option Head} {ok' : Bool}
    (hround : Dashboard.rememberNext heads name (state', changed, ok) = (next, changed', ok')) :
    Remembers heads state next changed' ∧ (∀ other, other ≠ name → changed' other = changed other) ∧
      (ok' = true → ok = true ∧ ∀ update, heads name = some update → changed' name = none →
        ∃ known, state.heads name = some known ∧ update.sequence ≤ known.sequence) := by
  cases ok with
  | false =>
    cases hround
    exact ⟨h, fun _ _ ↦ rfl, nofun⟩
  | true =>
    rw [Dashboard.rememberNext] at hround
    split at hround
    next hnone =>
      cases hround
      exact ⟨h, fun _ _ ↦ rfl, fun _ ↦ ⟨rfl, fun _ hu ↦ by rw [hnone] at hu; cases hu⟩⟩
    next update hupdate =>
      split at hround
      next =>
        cases hround
        exact ⟨h, fun _ _ ↦ rfl, nofun⟩
      next =>
        split at hround
        next hnew =>
          cases hround
          refine ⟨h.rememberHead hfirst hupdate hnew, fun other hother ↦ Function.update_of_ne hother _ _,
            fun _ ↦ ⟨rfl, fun _ _ hchanged ↦ ?_⟩⟩
          rw [Function.update_self] at hchanged
          cases hchanged
        next hold =>
          cases hround
          refine ⟨h, fun _ _ ↦ rfl, fun _ ↦ ⟨rfl, fun u hu _ ↦ ?_⟩⟩
          rw [hupdate, Option.some_inj] at hu
          subst hu
          rw [isNew, h.head, hfirst, Option.none_or] at hold
          cases hknown : state.heads name with
          | none => rw [hknown] at hold; exact absurd rfl hold
          | some known =>
            rw [hknown, Option.all_some, decide_eq_true_eq, Nat.not_lt] at hold
            exact ⟨known, rfl, hold⟩

theorem rememberHeads_remembers (hround : state.rememberHeads heads = (state', changed, ok)) :
    Remembers heads state state' changed ∧ (ok = true → ∀ name update, heads name = some update →
      changed name = none → ∃ known, state.heads name = some known ∧ update.sequence ≤ known.sequence) := by
  unfold rememberHeads at hround
  rcases hfirst : rememberNext heads .l1 (state, fun _ ↦ none, true) with ⟨first, changed₁, ok₁⟩
  obtain ⟨h₁, hother₁, hok₁⟩ := remembers_refl.rememberNext rfl hfirst
  rw [hfirst] at hround
  obtain ⟨h₂, hother₂, hok₂⟩ := h₁.rememberNext (hother₁ .l2 (by decide)) hround
  refine ⟨h₂, fun hok name update hupdate hchanged ↦ ?_⟩
  obtain ⟨hok', hl2⟩ := hok₂ hok
  cases name with
  | l1 =>
    rw [hother₂ .l1 (by decide)] at hchanged
    exact (hok₁ hok').2 update hupdate hchanged
  | l2 => exact hl2 update hupdate hchanged

end Remember

/-! ## What a page observes -/

/-- The newest head of a chain among the frames of a connection. -/
def IsNewest (name : Name) (frames : List (Frame BlockRow (Option Snapshot))) : Option Head → Prop
  | none => ∀ frame ∈ frames, frame.heads name = none
  | some update => (∃ frame ∈ frames, frame.heads name = some update) ∧
      ∀ frame ∈ frames, ∀ head, frame.heads name = some head → head.sequence ≤ update.sequence

/-- Of each chain whose head is known, that head is shown, or what may stand over it. -/
def Shows (Over : Name → Option String → ℕ → Prop) (state : Dashboard) : Prop :=
  ∀ name update, state.heads name = some update → ∃ snapshot, state.snapshot = some snapshot ∧
    (snapshot.latestHash name = some update.block.hash ∨
      Over name (snapshot.latestHash name) update.sequence)

/-- A mark is of a head that is known, or of an older one. -/
def Marks (state : Dashboard) : Prop :=
  ∀ name pending, state.pendingChains name = some pending →
    ∃ update, state.heads name = some update ∧ pending.sequence ≤ update.sequence

section Observe

variable {state' : Dashboard} {heads changed : Name → Option Head} {ok : Bool}
  {Over : Name → Option String → ℕ → Prop}

/-- A head that is known is replaced by a newer one only. -/
theorem Remembers.le (h : Remembers heads state state' changed) (hknown : state.heads name = some update) :
    ∃ update', state'.heads name = some update' ∧ update.sequence ≤ update'.sequence := by
  rw [h.head]
  cases hchanged : changed name with
  | none => exact ⟨update, hknown, Nat.le_refl _⟩
  | some update' => exact ⟨update', rfl, (h.newer name update' hchanged update hknown).le⟩

theorem Remembers.marks (h : Remembers heads state state' changed) (hmarks : Marks state) : Marks state' := by
  intro name pending hpending
  rcases h.mark name with hsame | ⟨update, pending', hchanged, hmark, hsequence⟩
  · obtain ⟨update, hknown, hle⟩ := hmarks name pending (hsame ▸ hpending)
    obtain ⟨update', hknown', hle'⟩ := h.le hknown
    exact ⟨update', hknown', hle.trans hle'⟩
  · cases hmark.symm.trans hpending
    exact ⟨update, by rw [h.head, hchanged]; rfl, hsequence.le⟩

/-- A mark stays, or becomes one of a newer head. -/
theorem Remembers.mark_le (h : Remembers heads state state' changed) (hmarks : Marks state)
    {pending : Pending} (hpending : state.pendingChains name = some pending) :
    ∃ pending', state'.pendingChains name = some pending' ∧ pending.sequence ≤ pending'.sequence := by
  rcases h.mark name with hsame | ⟨update, pending', hchanged, hmark, hsequence⟩
  · exact ⟨pending, hsame.trans hpending, Nat.le_refl _⟩
  · obtain ⟨known, hknown, hle⟩ := hmarks name pending hpending
    have hlt := h.newer name update hchanged known hknown
    exact ⟨pending', hmark, by omega⟩

/-- The heads of a frame are remembered: the known ones are the newest again. -/
theorem Remembers.newest {frame : Frame BlockRow (Option Snapshot)}
    {frames : List (Frame BlockRow (Option Snapshot))} (h : Remembers frame.heads state state' changed)
    (hall : ∀ name update, frame.heads name = some update → changed name = none →
      ∃ known, state.heads name = some known ∧ update.sequence ≤ known.sequence)
    (hnewest : IsNewest name frames (state.heads name)) :
    IsNewest name (frames ++ [frame]) (state'.heads name) := by
  rw [h.head]
  cases hchanged : changed name with
  | some update =>
    refine ⟨⟨frame, by simp, h.given name update hchanged⟩, fun other hother head hhead ↦ ?_⟩
    rcases List.mem_append.1 hother with hother | hother
    · cases hknown : state.heads name with
      | none =>
        rw [hknown] at hnewest
        rw [hnewest other hother] at hhead
        cases hhead
      | some known =>
        rw [hknown] at hnewest
        exact (hnewest.2 other hother head hhead).trans (h.newer name update hchanged known hknown).le
    · rw [List.mem_singleton.1 hother, h.given name update hchanged, Option.some_inj] at hhead
      rw [hhead]
  | none =>
    rw [Option.none_or]
    cases hknown : state.heads name with
    | none =>
      rw [hknown] at hnewest
      intro other hother
      rcases List.mem_append.1 hother with hother | hother
      · exact hnewest other hother
      · rw [List.mem_singleton.1 hother]
        cases hhead : frame.heads name with
        | none => rfl
        | some head =>
          obtain ⟨known, hknown', -⟩ := hall name head hhead hchanged
          cases hknown.symm.trans hknown'
    | some known =>
      rw [hknown] at hnewest
      obtain ⟨other, hother, hhead⟩ := hnewest.1
      refine ⟨⟨other, List.mem_append_left _ hother, hhead⟩, fun other hother head hhead ↦ ?_⟩
      rcases List.mem_append.1 hother with hother | hother
      · exact hnewest.2 other hother head hhead
      · rw [List.mem_singleton.1 hother] at hhead
        obtain ⟨known', hknown', hle⟩ := hall name head hhead hchanged
        cases hknown.symm.trans hknown'
        exact hle

/-! ## Frames and answers -/

/-- A snapshot stands over a head, and clears a mark: it is not stale, has the chain, and started after it. -/
structure Stands (snapshot : Snapshot) (startedSequence : ℤ) (name : Name) (sequence : ℕ) : Prop where
  fresh : snapshot.stale = false
  healthy : (snapshot.chains name).healthy = true
  latest : (snapshot.chains name).latestHash.isSome = true
  started : (sequence : ℤ) ≤ startedSequence

/-- What becomes of the marks of a page. -/
structure Keeps (Cleared : Name → ℕ → Prop) (state state' : Dashboard) : Prop where
  marks : Marks state → Marks state'
  kept : Marks state → ∀ name pending, state.pendingChains name = some pending →
    state'.pendingChains name = none → Cleared name pending.sequence
  socket : state'.socket = state.socket

variable {Cleared : Name → ℕ → Prop} {frame : Frame BlockRow (Option Snapshot)}
  {frames : List (Frame BlockRow (Option Snapshot))}

theorem Remembers.keeps (h : Remembers heads state state' changed) : Keeps Cleared state state' where
  marks := h.marks
  kept hmarks name pending hpending hnone := by
    obtain ⟨pending', hpending', -⟩ := h.mark_le hmarks hpending
    cases hnone.symm.trans hpending'
  socket := h.socket

theorem isReconciled_eq_true : isReconciled snapshot.stale startedSequence (snapshot.chains name) update = true ↔
    Stands snapshot startedSequence name update.sequence := by
  simp only [isReconciled, Bool.and_eq_true, Bool.not_eq_eq_eq_not, Bool.not_true, decide_eq_true_eq]
  exact ⟨fun ⟨⟨⟨h₁, h₂⟩, h₃⟩, h₄⟩ ↦ ⟨h₁, h₂, h₃, h₄⟩, fun h ↦ ⟨⟨⟨h.1, h.2⟩, h.3⟩, h.4⟩⟩

theorem isCleared_eq_true {pending : Pending} : isCleared snapshot startedSequence name pending = true ↔
    Stands snapshot startedSequence name pending.sequence := by
  simp only [isCleared, Bool.and_eq_true, Bool.not_eq_eq_eq_not, Bool.not_true, decide_eq_true_eq]
  exact ⟨fun ⟨⟨⟨h₁, h₄⟩, h₂⟩, h₃⟩ ↦ ⟨h₁, h₂, h₃, h₄⟩, fun h ↦ ⟨⟨⟨h.1, h.4⟩, h.2⟩, h.3⟩⟩

theorem render_snapshot (state : Dashboard) (snapshot : Snapshot) :
    ∃ shown, (state.render snapshot).snapshot = some shown ∧
      ∀ name, shown.latestHash name = snapshot.latestHash name :=
  ⟨_, rfl, fun _ ↦ hydrateBlockRows_latestHash snapshot⟩

theorem rememberBlockDetails_eq {blocks : Name → Option (List BlockRow)}
    (h : state.rememberBlockDetails blocks = (state', ok)) :
    ∃ history, state' = { state with headHistory := history } := by
  have hround : ∀ (name : Name) (state₁ state₂ : Dashboard) (ok₁ ok₂ : Bool),
      rememberRows blocks name (state₁, ok₁) = (state₂, ok₂) →
        ∃ history, state₂ = { state₁ with headHistory := history } := by
    intro name state₁ state₂ ok₁ ok₂ h
    cases ok₁ with
    | false => cases h; exact ⟨_, rfl⟩
    | true =>
      rw [rememberRows] at h
      split at h
      next => cases h; exact ⟨_, rfl⟩
      next =>
        split at h
        next => cases h; exact ⟨_, rfl⟩
        next => cases h; exact ⟨_, rfl⟩
  unfold rememberBlockDetails at h
  rcases hfirst : rememberRows blocks .l1 (state, true) with ⟨first, ok₁⟩
  rw [hfirst] at h
  obtain ⟨history, rfl⟩ := hround _ _ _ _ _ hfirst
  obtain ⟨history', rfl⟩ := hround _ _ _ _ _ h
  exact ⟨history', rfl⟩

theorem applyHeads_keeps (h : state.applyHeads heads = (state', ok)) : Keeps Cleared state state' := by
  unfold applyHeads at h
  split at h
  next next changed hround =>
    cases h
    exact (rememberHeads_remembers hround).1.keeps
  next next changed hround =>
    have hkeeps : Keeps Cleared state next := (rememberHeads_remembers hround).1.keeps
    split at h
    next => cases h; exact hkeeps
    next => cases h; exact ⟨hkeeps.marks, hkeeps.kept, hkeeps.socket⟩

theorem applyHeads_newest (h : state.applyHeads frame.heads = (state', true))
    (hnewest : IsNewest name frames (state.heads name)) :
    IsNewest name (frames ++ [frame]) (state'.heads name) := by
  unfold applyHeads at h
  split at h
  next => cases h
  next next changed hround =>
    obtain ⟨hremembers, hall⟩ := rememberHeads_remembers hround
    have hnext := hremembers.newest (hall rfl) hnewest
    split at h
    next => cases h; exact hnext
    next => cases h; exact hnext

theorem applyHeads_shows (h : state.applyHeads heads = (state', true)) (hshows : Shows Over state) :
    Shows Over state' := by
  unfold applyHeads at h
  split at h
  next => cases h
  next next changed hround =>
    obtain ⟨hremembers, -⟩ := rememberHeads_remembers hround
    split at h
    next hnone =>
      cases h
      intro name update hupdate
      have hchanged : changed name = none := by cases name <;> simp [hnone]
      rw [hremembers.head, hchanged, Option.none_or] at hupdate
      rw [hremembers.snapshot]
      exact hshows name update hupdate
    next =>
      cases h
      intro name update hupdate
      obtain ⟨shown, hshown, hhash⟩ := render_snapshot { next with revision := next.revision + 1 }
        (Dashboard.mergeHeads { next with revision := next.revision + 1 } (next.snapshot.getD .empty) (-1) changed)
      refine ⟨shown, hshown, ?_⟩
      rw [hhash, mergeHeads_latestHash]
      have hknown : next.heads name = some update := hupdate
      rw [hremembers.head] at hknown
      cases hchanged : changed name with
      | some update' =>
        rw [hchanged, Option.some_or, Option.some_inj] at hknown
        subst hknown
        refine .inl (if_neg fun hreconciled ↦ ?_)
        have hstarted := (isReconciled_eq_true.1 hreconciled).started
        omega
      | none =>
        rw [hchanged, Option.none_or] at hknown
        obtain ⟨snapshot, hsnapshot, hlatest⟩ := hshows name update hknown
        rw [hremembers.snapshot, hsnapshot]
        exact hlatest

theorem applySnapshot_keeps (h : state.applySnapshot snapshot heads startedSequence = (state', ok)) :
    Keeps (Stands snapshot startedSequence) state state' := by
  unfold applySnapshot at h
  split at h
  next next changed hround =>
    cases h
    exact (rememberHeads_remembers hround).1.keeps
  next next changed hround =>
    have hremembers := (rememberHeads_remembers hround).1
    cases h
    constructor
    case marks =>
      intro hmarks name pending hpending
      exact hremembers.marks hmarks name pending (Option.filter_eq_some_iff.1 hpending).1
    case kept =>
      intro hmarks name pending hpending hnone
      obtain ⟨pending', hpending', hle⟩ := hremembers.mark_le hmarks hpending
      have hcleared : isCleared snapshot startedSequence name pending' = true := by
        have hnone : (next.pendingChains name).filter
          (fun pending ↦ !isCleared snapshot startedSequence name pending) = none := hnone
        rw [hpending', Option.filter_some] at hnone
        split at hnone
        next => cases hnone
        next hcleared => simpa using hcleared
      have hstands := isCleared_eq_true.1 hcleared
      have hstarted := hstands.started
      exact { hstands with started := by omega }
    case socket => exact hremembers.socket

theorem applySnapshot_newest (h : state.applySnapshot snapshot frame.heads startedSequence = (state', true))
    (hnewest : IsNewest name frames (state.heads name)) :
    IsNewest name (frames ++ [frame]) (state'.heads name) := by
  unfold applySnapshot at h
  split at h
  next => cases h
  next next changed hround =>
    obtain ⟨hremembers, hall⟩ := rememberHeads_remembers hround
    cases h
    exact hremembers.newest (hall rfl) hnewest

/-- **After a snapshot**, each chain whose head is known shows that head, or the snapshot that stands over it. -/
theorem applySnapshot_shows (h : state.applySnapshot snapshot heads startedSequence = (state', true))
    (hfailed : ∀ name, snapshot.failed name = true → (snapshot.chains name).healthy = false)
    (hover : ∀ name update, state'.heads name = some update →
      Stands snapshot startedSequence name update.sequence →
        snapshot.latestHash name = some update.block.hash ∨
          Over name (snapshot.latestHash name) update.sequence) :
    Shows Over state' := by
  unfold applySnapshot at h
  split at h
  next => cases h
  next next changed hround =>
    cases h
    set marked : Dashboard := { next with
      pendingChains := fun name ↦
        (next.pendingChains name).filter fun pending ↦ !isCleared snapshot startedSequence name pending
      revision := next.revision + 1
      headHistory := next.historyWith snapshot } with hmarked
    set drawn := (marked.snapshot.map fun previous ↦ retain previous snapshot).getD snapshot with hdrawn
    intro name update hupdate
    obtain ⟨shown, hshown, hhash⟩ := render_snapshot marked
      (marked.mergeHeads drawn startedSequence marked.heads)
    refine ⟨shown, hshown, ?_⟩
    have hknown : marked.heads name = some update := hupdate
    rw [hhash, mergeHeads_latestHash, hknown]
    dsimp only
    split
    next hreconciled =>
      have hstands := isReconciled_eq_true.1 hreconciled
      -- a chain that is healthy is not a retained one
      have hchain : drawn.stale = snapshot.stale ∧ (drawn.chains name).healthy = (snapshot.chains name).healthy ∧
          ((snapshot.chains name).healthy = true → drawn.chains name = snapshot.chains name) := by
        rw [hdrawn]
        cases marked.snapshot with
        | none => exact ⟨rfl, rfl, fun _ ↦ rfl⟩
        | some previous =>
          refine ⟨rfl, ?_, fun hhealthy ↦ ?_⟩
          · change (retainChain previous snapshot name).healthy = _
            unfold retainChain
            dsimp only
            split <;> rfl
          · change retainChain previous snapshot name = _
            unfold retainChain
            dsimp only
            rw [if_neg]
            rintro ⟨hfail, -⟩
            rw [hfailed name hfail] at hhealthy
            cases hhealthy
      have hsame := hchain.2.2 (hchain.2.1 ▸ hstands.healthy)
      have hlatest : drawn.latestHash name = snapshot.latestHash name := by
        rw [Snapshot.latestHash, hsame]
        rfl
      rw [hlatest]
      exact hover name update hupdate ⟨hchain.1 ▸ hstands.fresh, hsame ▸ hstands.healthy,
        hsame ▸ hstands.latest, hstands.started⟩
    next => exact .inl rfl

/-- Nothing but the drawing changes. -/
structure Redraws (state state' : Dashboard) : Prop where
  heads : state'.heads = state.heads
  pendingChains : state'.pendingChains = state.pendingChains
  socket : state'.socket = state.socket
  drawn : ∀ snapshot, state.snapshot = some snapshot → ∃ shown, state'.snapshot = some shown ∧
    ∀ name, shown.latestHash name = snapshot.latestHash name

theorem Redraws.of_eq (hheads : state'.heads = state.heads) (hpending : state'.pendingChains = state.pendingChains)
    (hsocket : state'.socket = state.socket) (hsnapshot : state'.snapshot = state.snapshot) :
    Redraws state state' :=
  ⟨hheads, hpending, hsocket, fun snapshot h ↦ ⟨snapshot, hsnapshot.trans h, fun _ ↦ rfl⟩⟩

theorem Redraws.shows (h : Redraws state state') (hshows : Shows Over state) : Shows Over state' := by
  intro name update hupdate
  obtain ⟨snapshot, hsnapshot, hlatest⟩ := hshows name update (h.heads ▸ hupdate)
  obtain ⟨shown, hshown, hhash⟩ := h.drawn snapshot hsnapshot
  exact ⟨shown, hshown, (hhash name).symm ▸ hlatest⟩

theorem Redraws.marks (h : Redraws state state') (hmarks : Marks state) : Marks state' := by
  rw [Marks, h.heads, h.pendingChains]
  exact hmarks

theorem Redraws.keeps (h : Redraws state state') : Keeps Cleared state state' where
  marks := h.marks
  kept _ name pending hpending hnone := by
    rw [h.pendingChains, hpending] at hnone
    cases hnone
  socket := h.socket

theorem Keeps.of_redraws {next : Dashboard} (h' : Keeps Cleared next state') (h : Redraws state next) :
    Keeps Cleared state state' where
  marks hmarks := h'.marks (h.marks hmarks)
  kept hmarks name pending hpending hnone :=
    h'.kept (h.marks hmarks) name pending (h.pendingChains ▸ hpending) hnone
  socket := h'.socket.trans h.socket

theorem startPolling_redraws (state : Dashboard) : Redraws state state.startPolling := by
  unfold startPolling
  split <;> exact .of_eq rfl rfl rfl rfl

theorem refresh_redraws (state : Dashboard) : Redraws state state.refresh := by
  unfold refresh
  split <;> exact .of_eq rfl rfl rfl rfl

/-- The snapshot a frame carries, and the version at which its collection started. -/
def Carries (frame : Frame BlockRow (Option Snapshot)) (snapshot : Snapshot) (startedSequence : ℕ) : Prop :=
  ∃ details, frame.details = some (details, startedSequence) ∧ details.snapshot = some snapshot

/-- **What a page does with a frame**: it refuses it, or applies its heads, or its snapshot with its heads. -/
inductive Handles (state : Dashboard) (frame : Frame BlockRow (Option Snapshot)) : Dashboard → Bool → Prop
  | refuse {state' : Dashboard} (redraws : Redraws state state') : Handles state frame state' false
  | heads {first next state' : Dashboard} {ok : Bool} (before : Redraws state first)
      (applied : first.applyHeads frame.heads = (next, ok)) (after : Redraws next state') :
      Handles state frame state' ok
  | snapshot {first state' : Dashboard} {ok : Bool} {snapshot : Snapshot} {startedSequence : ℕ}
      (before : Redraws state first) (carries : Carries frame snapshot startedSequence)
      (applied : first.applySnapshot snapshot frame.heads startedSequence = (state', ok)) :
      Handles state frame state' ok

theorem handle_handles (h : state.handle frame = (state', ok)) : Handles state frame state' ok := by
  rcases hdetails : state.rememberBlockDetails frame.blocks with ⟨first, ok₁⟩
  have hfirst : Redraws state first := by
    obtain ⟨history, rfl⟩ := rememberBlockDetails_eq hdetails
    exact .of_eq rfl rfl rfl rfl
  rw [handle, hdetails] at h
  cases ok₁ with
  | false => cases h; exact .refuse hfirst
  | true =>
    dsimp only at h
    split at h
    next =>
      split at h
      next next hheads => cases h; exact .heads hfirst hheads (.of_eq rfl rfl rfl rfl)
      next next hheads =>
        cases h
        refine .heads hfirst hheads ?_
        cases hsnapshot : next.snapshot with
        | none => exact .of_eq rfl rfl rfl rfl
        | some snapshot =>
          refine ⟨rfl, rfl, rfl, fun snapshot' h ↦ ?_⟩
          cases hsnapshot.symm.trans h
          exact render_snapshot next snapshot
    next details startedSequence hframe =>
      split at h
      next =>
        split at h
        next next hheads => cases h; exact .heads hfirst hheads (.of_eq rfl rfl rfl rfl)
        next next hheads =>
          cases h
          have hpolling := startPolling_redraws next
          have hrefresh := refresh_redraws next.startPolling
          refine .heads hfirst hheads ⟨hrefresh.heads.trans hpolling.heads,
            hrefresh.pendingChains.trans hpolling.pendingChains, hrefresh.socket.trans hpolling.socket,
            fun snapshot h ↦ ?_⟩
          obtain ⟨shown, hshown, hhash⟩ := hpolling.drawn snapshot h
          obtain ⟨shown', hshown', hhash'⟩ := hrefresh.drawn shown hshown
          exact ⟨shown', hshown', fun name ↦ (hhash' name).trans (hhash name)⟩
      next =>
        split at h
        next => cases h; exact .refuse hfirst
        next snapshot hsnapshot =>
          have hcarries : Carries frame snapshot startedSequence :=
            ⟨details, hframe, (Option.filter_eq_some_iff.1 hsnapshot).1⟩
          have hbefore : Redraws state { first with polling := false } :=
            ⟨hfirst.heads, hfirst.pendingChains, hfirst.socket, hfirst.drawn⟩
          exact .snapshot hbefore hcarries h

/-- A frame clears a mark with a snapshot that stands over it. -/
theorem handle_keeps (h : state.handle frame = (state', ok)) :
    Keeps (fun name sequence ↦ ∃ (snapshot : Snapshot) (startedSequence : ℕ),
      Carries frame snapshot startedSequence ∧ Stands snapshot startedSequence name sequence) state state' := by
  cases handle_handles h with
  | refuse hredraws => exact hredraws.keeps
  | heads hbefore hheads hafter =>
    have happlied : Keeps (fun _ _ ↦ False) state _ := (applyHeads_keeps hheads).of_redraws hbefore
    exact ⟨fun hmarks ↦ hafter.marks (happlied.marks hmarks), fun hmarks name pending hpending hnone ↦
      (happlied.kept hmarks name pending hpending (hafter.pendingChains ▸ hnone)).elim,
      hafter.socket.trans happlied.socket⟩
  | snapshot hbefore hcarries hsnapshot =>
    have hkeeps := (applySnapshot_keeps hsnapshot).of_redraws hbefore
    exact ⟨hkeeps.marks, fun hmarks name pending hpending hnone ↦
      ⟨_, _, hcarries, hkeeps.kept hmarks name pending hpending hnone⟩, hkeeps.socket⟩

theorem handle_newest (h : state.handle frame = (state', true))
    (hnewest : IsNewest name frames (state.heads name)) :
    IsNewest name (frames ++ [frame]) (state'.heads name) := by
  cases handle_handles h with
  | heads hbefore hheads hafter =>
    rw [hafter.heads]
    exact applyHeads_newest hheads (hbefore.heads ▸ hnewest)
  | snapshot hbefore hcarries hsnapshot => exact applySnapshot_newest hsnapshot (hbefore.heads ▸ hnewest)

/-- **After a frame**, each chain whose head is known shows that head, or what stands over it. -/
theorem handle_shows (h : state.handle frame = (state', true)) (hshows : Shows Over state)
    (hfailed : ∀ (snapshot : Snapshot) (startedSequence : ℕ), Carries frame snapshot startedSequence →
      ∀ name, snapshot.failed name = true → (snapshot.chains name).healthy = false)
    (hover : ∀ (snapshot : Snapshot) (startedSequence : ℕ), Carries frame snapshot startedSequence →
      ∀ name sequence, Stands snapshot startedSequence name sequence →
        Over name (snapshot.latestHash name) sequence) : Shows Over state' := by
  cases handle_handles h with
  | heads hbefore hheads hafter => exact hafter.shows (applyHeads_shows hheads (hbefore.shows hshows))
  | snapshot hbefore hcarries hsnapshot =>
    exact applySnapshot_shows hsnapshot (hfailed _ _ hcarries) fun name update _ hstands ↦
      .inr (hover _ _ hcarries name update.sequence hstands)

/-- Whether the answer to the request is drawn. -/
def Draws (state : Dashboard) : Prop := state.loading = some state.revision ∧ ¬state.stopped

theorem finishRefresh_cases (state : Dashboard) (answer : Option Snapshot) :
    (∃ snapshot, answer = some snapshot ∧ state.Draws ∧
      { state with loading := none }.applySnapshot snapshot (fun _ ↦ none) maxSafeInteger =
        (state.finishRefresh answer, true)) ∨
      state.finishRefresh answer = { state with loading := none } := by
  cases answer with
  | none => exact .inr rfl
  | some snapshot =>
    rw [finishRefresh]
    split
    next hdraws => exact .inl ⟨snapshot, rfl, hdraws, rfl⟩
    next => exact .inr rfl

theorem applySnapshot_heads (h : state.applySnapshot snapshot (fun _ ↦ none) startedSequence = (state', ok)) :
    state'.heads = state.heads := by
  cases h
  rfl

end Observe

end Dashboard

end Monitor
