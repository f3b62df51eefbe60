import EezDashboard.Monitor.Observation

/-!
# The collections behind what is shown

What the feed sends and what the cache answers was collected, and what the feed sends as of a version was
collected since.  Together with what a page does this says what it shows, in every interleaving in which
the cache answers no request with a collection that is older than what the page knows.
-/

set_option autoImplicit false

namespace Monitor

open Dashboard

/-- A collection that started after a head has this latest block. -/
def IsYounger (collections : List Collection) (name : Name) (hash : Option String) (sequence : ℕ) : Prop :=
  ∃ collection ∈ collections, ∃ reading, collection.chains name = some reading ∧
    hash = some reading.latest.hash ∧ sequence ≤ collection.start

/-- A snapshot that was collected, and since this version, if it is not stale. -/
structure IsSince (collections : List Collection) (startedSequence : ℕ) (cached : CachedSnapshot) : Prop where
  collected : cached.collection ∈ collections
  started : cached.stale = false → startedSequence ≤ cached.collection.start

/-- The same of the snapshot of a frame. -/
def IsSound (collections : List Collection) (frame : Frame BlockRow (Option CachedSnapshot)) : Prop :=
  ∀ details startedSequence cached, frame.details = some (details, startedSequence) →
    details.snapshot = some cached → IsSince collections startedSequence cached

section Collections

variable {collections collections' : List Collection} {name : Name} {hash : Option String} {sequence : ℕ}

theorem IsYounger.mono (h : IsYounger collections name hash sequence) (hsub : collections ⊆ collections') :
    IsYounger collections' name hash sequence := by
  obtain ⟨collection, hmem, hrest⟩ := h
  exact ⟨collection, hsub hmem, hrest⟩

theorem IsSince.mono {cached : CachedSnapshot} (h : IsSince collections sequence cached)
    (hsub : collections ⊆ collections') : IsSince collections' sequence cached :=
  ⟨hsub h.collected, h.started⟩

theorem IsSound.mono {frame : Frame BlockRow (Option CachedSnapshot)} (h : IsSound collections frame)
    (hsub : collections ⊆ collections') : IsSound collections' frame :=
  fun details startedSequence cached hdetails hcached ↦
    (h details startedSequence cached hdetails hcached).mono hsub

/-- A chain that failed is not healthy. -/
theorem CachedSnapshot.failed (cached : CachedSnapshot) (name : Name) (h : cached.snapshot.failed name = true) :
    (cached.snapshot.chains name).healthy = false := by
  have hnone : cached.collection.chains name = none := Option.isNone_iff_eq_none.1 h
  change (ChainView.ofReading (cached.collection.chains name)).healthy = false
  rw [hnone]
  rfl

/-- A snapshot that stands over a sequence shows what its collection read. -/
theorem Dashboard.Stands.reading {cached : CachedSnapshot} {startedSequence : ℤ}
    (h : Stands cached.snapshot startedSequence name sequence) : cached.stale = false ∧
      ∃ reading, cached.collection.chains name = some reading ∧ reading.latest.hash ≠ "" ∧
        cached.snapshot.latestHash name = some reading.latest.hash := by
  refine ⟨h.fresh, ?_⟩
  have hhealthy : (ChainView.ofReading (cached.collection.chains name)).healthy = true := h.healthy
  have hlatest : (ChainView.ofReading (cached.collection.chains name)).latestHash.isSome = true := h.latest
  have hshown : cached.snapshot.latestHash name =
    (ChainView.ofReading (cached.collection.chains name)).latest.map BlockRow.hash := rfl
  cases hreading : cached.collection.chains name with
  | none => rw [hreading] at hhealthy; cases hhealthy
  | some reading =>
    rw [hreading] at hlatest hshown
    refine ⟨reading, rfl, fun hempty ↦ ?_, hshown⟩
    simp [ChainView.ofReading, ChainView.latestHash, hempty] at hlatest

end Collections

namespace World

variable {w : World}

/-- What holds of the server: whatever it keeps was collected. -/
structure Collected (w : World) : Prop where
  value : ∀ cached, w.cache.value = some cached → cached.collection ∈ w.collections
  answer : ∀ cached, w.answer = some (some cached) → cached.collection ∈ w.collections
  started : ∀ sequence, w.worker = .started sequence → sequence ≤ w.feed.version
  holder : ∀ start, w.cache.holder = some (.worker, start) →
    ∃ sequence, w.worker = .started sequence ∧ sequence ≤ start
  publishing : ∀ sequence cached, w.worker = .publishing sequence (some cached) →
    IsSince w.collections sequence cached
  frame : ∀ details cached, w.feed.frame = some details → details.snapshot = some cached →
    IsSince w.collections w.feed.collectionStartedSequence cached
  sent : ∀ link, w.link = some link → ∀ frame ∈ link.sent, IsSound w.collections frame

/-! ## The server -/

theorem collected_init : Collected init := ⟨nofun, nofun, nofun, nofun, nofun, nofun, nofun⟩

/-- What does not touch the snapshots of the feed. -/
theorem Collected.feed (h : Collected w) {feed : Feed BlockRow (Option CachedSnapshot)}
    (hversion : w.feed.version ≤ feed.version) (hframe : feed.frame = w.feed.frame)
    (hstarted : feed.collectionStartedSequence = w.feed.collectionStartedSequence) :
    Collected { w with feed := feed } :=
  { h with
    started := fun sequence hworker ↦ (h.started sequence hworker).trans hversion
    frame := by
      rw [hframe, hstarted]
      exact h.frame }

/-- What is done by the page, which may end its request or make a new one. -/
theorem Collected.page (h : Collected w) {page : Dashboard} {answer : Option (Option CachedSnapshot)}
    (hanswer : answer = none ∨ answer = w.answer) : Collected { w with page := page, answer := answer } :=
  { h with
    answer := by
      rcases hanswer with rfl | rfl
      · nofun
      · exact h.answer }

theorem Collected.deliver (h : Collected w) {caller : Caller} {result : Option CachedSnapshot}
    (hholder : w.cache.holder = none) (hmem : ∀ cached, result = some cached → cached.collection ∈ w.collections)
    (hworker : caller = .worker → ∀ sequence, w.worker = .started sequence →
      ∀ cached, result = some cached → IsSince w.collections sequence cached) :
    Collected (w.deliver caller result) := by
  unfold World.deliver
  split
  next sequence hstarted =>
    refine { h with started := nofun, holder := fun start hstart ↦ ?_, publishing := ?_ }
    · cases hholder.symm.trans hstart
    · intro sequence' cached hpublishing
      cases hpublishing
      exact hworker rfl sequence hstarted cached rfl
  next =>
    refine { h with answer := fun cached hanswer ↦ ?_ }
    cases hanswer
    exact hmem cached rfl
  next => exact h

theorem Collected.enter (h : Collected w) (caller : Caller) (expired : Bool) :
    Collected (w.enter caller expired) := by
  unfold World.enter
  split
  next => exact h
  next hfree =>
    rw [not_or, Bool.not_eq_true, Option.isSome_eq_false_iff, Option.isNone_iff_eq_none,
      Bool.not_eq_false] at hfree
    obtain ⟨hholder, hcalling⟩ := hfree
    split
    next =>
      refine { h with holder := fun start hstart ↦ ?_ }
      cases hstart
      unfold isCalling at hcalling
      dsimp only at hcalling
      split at hcalling
      next sequence hworker => exact ⟨sequence, hworker, h.started sequence hworker⟩
      next => cases hcalling
    next hcached =>
      exact h.deliver hholder h.value fun hworker ↦ absurd (.inl hworker) hcached

theorem Collected.collected (h : Collected w) (result : Option Collection) :
    Collected (w.collected result) := by
  unfold World.collected
  split
  next => exact h
  next caller start hholder =>
    -- what the thread of the feed waits for was collected since it read the version
    have hsequence : caller = .worker → ∀ sequence, w.worker = .started sequence → sequence ≤ start := by
      rintro rfl sequence hworker
      obtain ⟨sequence', hworker', hle⟩ := h.holder start hholder
      cases hworker.symm.trans hworker'
      exact hle
    split
    next collection =>
      have hsub : w.collections ⊆ { collection with start := start } :: w.collections :=
        List.subset_cons_self _ _
      have hnext : Collected { w with
          cache := ⟨some ⟨{ collection with start := start }, false⟩, none⟩
          collections := { collection with start := start } :: w.collections } := by
        refine ⟨fun cached hcached ↦ ?_, fun cached hcached ↦ hsub (h.answer cached hcached), h.started, nofun,
          fun sequence cached hpublishing ↦ (h.publishing sequence cached hpublishing).mono hsub,
          fun details cached hframe hcached ↦ (h.frame details cached hframe hcached).mono hsub,
          fun link hlink frame hframe ↦ (h.sent link hlink frame hframe).mono hsub⟩
        cases hcached
        exact List.mem_cons_self
      refine hnext.deliver rfl (fun cached hcached ↦ ?_) fun hcaller sequence hworker cached hcached ↦ ?_
      · cases hcached
        exact List.mem_cons_self
      · cases hcached
        exact ⟨List.mem_cons_self, fun _ ↦ hsequence hcaller sequence hworker⟩
    next =>
      have hvalue : ∀ cached, w.cache.value.map (fun served ↦ { served with stale := true }) = some cached →
          cached.collection ∈ w.collections ∧ cached.stale = true := by
        intro cached hcached
        obtain ⟨served, hserved, rfl⟩ := Option.map_eq_some_iff.1 hcached
        exact ⟨h.value served hserved, rfl⟩
      have hnext : Collected { w with
          cache := ⟨w.cache.value.map fun served ↦ { served with stale := true }, none⟩ } :=
        { h with value := fun cached hcached ↦ (hvalue cached hcached).1, holder := nofun }
      refine hnext.deliver rfl (fun cached hcached ↦ (hvalue cached hcached).1)
        fun _ sequence _ cached hcached ↦ ⟨(hvalue cached hcached).1, fun hstale ↦ ?_⟩
      rw [(hvalue cached hcached).2] at hstale
      cases hstale

theorem Collected.publish (h : Collected w) (now : ℤ) : Collected (w.publish now) := by
  have hidle : ∀ (result : Option CachedSnapshot) (event : String) (sequence : ℕ),
      (∃ result', w.worker = .publishing sequence result') →
      (∀ cached, result = some cached → IsSince w.collections sequence cached) →
      Collected { w with worker := .idle, feed := w.feed.publish result event (some sequence) now } := by
    intro result event sequence ⟨result', hworker⟩ hresult
    refine { h with started := nofun, publishing := nofun, holder := ?_, frame := ?_ }
    · intro start hstart
      obtain ⟨sequence', hworker', -⟩ := h.holder start hstart
      cases hworker.symm.trans hworker'
    · intro details cached hframe hcached
      cases hframe
      exact hresult cached hcached
  unfold World.publish
  split
  next sequence cached hworker =>
    refine hidle (some cached) "snapshot" sequence ⟨_, hworker⟩ fun cached' hcached ↦ ?_
    cases hcached
    exact h.publishing sequence cached hworker
  next sequence hworker => exact hidle none "unavailable" sequence ⟨_, hworker⟩ nofun
  next => exact h

/-- What the feed sends of a snapshot is what it keeps. -/
theorem details_of_wait {feed : Feed BlockRow (Option CachedSnapshot)} {cursor : ℤ}
    {frame : Frame BlockRow (Option CachedSnapshot)} (h : (feed.wait cursor).2 = some frame)
    {details : Details (Option CachedSnapshot)} {startedSequence : ℕ}
    (hdetails : frame.details = some (details, startedSequence)) :
    feed.frame = some details ∧ startedSequence = feed.collectionStartedSequence := by
  unfold Feed.wait at h
  split at h
  next => cases h
  next =>
    cases h
    dsimp only at hdetails
    split at hdetails
    next =>
      obtain ⟨details', hframe, heq⟩ := Option.map_eq_some_iff.1 hdetails
      cases heq
      exact ⟨hframe, rfl⟩
    next => cases hdetails

theorem Collected.send (h : Collected w) : Collected w.send := by
  unfold World.send
  split
  next => exact h
  next link hlink =>
    refine { h with sent := fun link' hlink' frame hframe ↦ ?_ }
    cases hlink'
    rcases List.mem_append.1 hframe with hframe | hframe
    · exact h.sent link hlink frame hframe
    · intro details startedSequence cached hdetails hcached
      obtain ⟨hfeed, rfl⟩ := details_of_wait (Option.mem_toList.1 hframe) hdetails
      exact h.frame details cached hfeed hcached

/-! ## The page -/

/-- **What a step does to the page.** -/
inductive Turns (w : World) : Act → Dashboard → Prop
  | same {act : Act} {page : Dashboard} (redraws : Redraws w.page page) : Turns w act page
  | opened {act : Act} {page : Dashboard} (before : w.page.socket = none)
      (calls : act = .connect ∧ w.page.stopped = false ∨ act = .unhide) (socket : page.socket = some ⟨false, []⟩)
      (heads : ∀ name, page.heads name = none) (marks : ∀ name, page.pendingChains name = none) :
      Turns w act page
  | closed {act : Act} {page : Dashboard} (heads : page.heads = w.page.heads)
      (marks : page.pendingChains = w.page.pendingChains) (socket : page.socket = none) : Turns w act page
  | received {link : Link} {frame : Frame BlockRow (Option CachedSnapshot)} {socket : Socket} {page : Dashboard}
      {ok : Bool} (linked : w.link = some link) (next : link.sent.head? = some frame)
      (before : w.page.socket = some socket) (isOpen : socket.closing = false)
      (handled : w.page.handle frame.read = (page, ok)) :
      Turns w .receive { page with
        socket := some (if ok then { socket with received := socket.received ++ [frame.read] }
          else { socket with closing := true }) }
  | answered {cached : CachedSnapshot} {page : Dashboard} (answer : w.answer = some (some cached))
      (draws : w.page.Draws)
      (applied : { w.page with loading := none }.applySnapshot cached.snapshot (fun _ ↦ none)
        maxSafeInteger = (page, true)) : Turns w .respond page

theorem redraws_refl (page : Dashboard) : Redraws page page := .of_eq rfl rfl rfl rfl

theorem deliver_page (w : World) (caller : Caller) (result : Option CachedSnapshot) :
    (w.deliver caller result).page = w.page ∧ (w.deliver caller result).collections = w.collections := by
  unfold World.deliver
  split <;> exact ⟨rfl, rfl⟩

theorem unlink_page (w : World) : w.unlink.page = w.page ∧ w.unlink.collections = w.collections := by
  unfold World.unlink
  split <;> exact ⟨rfl, rfl⟩

theorem enter_page (w : World) (caller : Caller) (expired : Bool) :
    (w.enter caller expired).page = w.page ∧ (w.enter caller expired).collections = w.collections := by
  unfold World.enter
  split
  next => exact ⟨rfl, rfl⟩
  next =>
    split
    next => exact ⟨rfl, rfl⟩
    next => exact deliver_page w caller w.cache.value

theorem collected_page (w : World) (result : Option Collection) :
    (w.collected result).page = w.page ∧ w.collections ⊆ (w.collected result).collections := by
  unfold World.collected
  split
  next => exact ⟨rfl, List.Subset.refl _⟩
  next =>
    split
    next =>
      dsimp only
      rw [(deliver_page _ _ _).1, (deliver_page _ _ _).2]
      exact ⟨rfl, List.subset_cons_self _ _⟩
    next =>
      dsimp only
      rw [(deliver_page _ _ _).1, (deliver_page _ _ _).2]
      exact ⟨rfl, List.Subset.refl _⟩

theorem publish_page (w : World) (now : ℤ) :
    (w.publish now).page = w.page ∧ (w.publish now).collections = w.collections := by
  unfold World.publish
  split <;> exact ⟨rfl, rfl⟩

theorem accept_page (w : World) (now refreshSeconds : ℤ) :
    (w.accept now refreshSeconds).page = w.page ∧
      (w.accept now refreshSeconds).collections = w.collections := by
  unfold World.accept
  split
  next => exact ⟨rfl, rfl⟩
  next => split <;> exact ⟨rfl, rfl⟩

theorem send_page (w : World) : w.send.page = w.page ∧ w.send.collections = w.collections := by
  unfold World.send
  split <;> exact ⟨rfl, rfl⟩

theorem connect_turns (w : World) {act : Act} (hact : act = .connect ∨ act = .unhide) :
    Turns w act w.connect.page ∧ w.connect.collections = w.collections := by
  unfold World.connect
  split
  next => exact ⟨.same (redraws_refl _), rfl⟩
  next hclosed =>
    rw [not_or, Bool.not_eq_true, Bool.not_eq_true, Option.isSome_eq_false_iff,
      Option.isNone_iff_eq_none] at hclosed
    exact ⟨.opened hclosed.2 (hact.imp_left fun hact ↦ ⟨hact, hclosed.1⟩) rfl (fun _ ↦ rfl) fun _ ↦ rfl, rfl⟩

theorem receive_turns (w : World) :
    Turns w .receive w.receive.page ∧ w.receive.collections = w.collections := by
  unfold World.receive
  split
  next cursor frame sent socket hlink hsocket =>
    split
    next => exact ⟨.same (redraws_refl _), rfl⟩
    next hopen =>
      rw [not_or, Bool.not_eq_true, Bool.not_eq_true] at hopen
      dsimp only
      split
      next page hhandle => exact ⟨.received hlink rfl hsocket hopen.1 hhandle, rfl⟩
      next page hhandle => exact ⟨.received hlink rfl hsocket hopen.1 hhandle, rfl⟩
  next => exact ⟨.same (redraws_refl _), rfl⟩

theorem close_turns (w : World) : Turns w .close w.close.page ∧ w.close.collections = w.collections := by
  unfold World.close
  split
  next => exact ⟨.same (redraws_refl _), rfl⟩
  next =>
    refine ⟨?_, (unlink_page w).2⟩
    change Turns w .close (if w.page.stopped then { w.page with socket := none }
      else ({ w.page with socket := none } : Dashboard).startPolling.refresh)
    split
    next => exact .closed rfl rfl rfl
    next =>
      have hpolling := startPolling_redraws { w.page with socket := none }
      have hrefresh := refresh_redraws ({ w.page with socket := none } : Dashboard).startPolling
      exact .closed (hrefresh.heads.trans hpolling.heads)
        (hrefresh.pendingChains.trans hpolling.pendingChains) (hrefresh.socket.trans hpolling.socket)

theorem finish_turns (w : World) (answer : Option (Option CachedSnapshot))
    (hanswer : answer = none ∨ answer = w.answer) :
    Turns w .respond (w.finish (answer.join.map CachedSnapshot.snapshot)).page := by
  change Turns w .respond (w.page.finishRefresh (answer.join.map CachedSnapshot.snapshot))
  rcases finishRefresh_cases w.page (answer.join.map CachedSnapshot.snapshot) with
    ⟨snapshot, hsnapshot, hdraws, happlied⟩ | hrest
  · obtain ⟨cached, hcached, rfl⟩ := Option.map_eq_some_iff.1 hsnapshot
    rcases hanswer with rfl | rfl
    · cases hcached
    · exact .answered (Option.join_eq_some_iff.1 hcached) hdraws happlied
  · rw [hrest]
    exact .same (.of_eq rfl rfl rfl rfl)

theorem unhide_turns (w : World) : Turns w .unhide (w.step .unhide).page ∧
    (w.step .unhide).collections = w.collections := by
  have hconnect : Turns { w with page := { w.page with stopped := false } } .unhide
      ({ w with page := { w.page with stopped := false } } : World).connect.page ∧
      ({ w with page := { w.page with stopped := false } } : World).connect.collections = w.collections :=
    connect_turns _ (.inr rfl)
  obtain ⟨hturns, hcollections⟩ := hconnect
  refine ⟨?_, hcollections⟩
  change Turns w .unhide ({ w with page := { w.page with stopped := false } } : World).connect.page
  generalize ({ w with page := { w.page with stopped := false } } : World).connect.page = page at hturns ⊢
  cases hturns with
  | same hredraws => exact .same ⟨hredraws.heads, hredraws.pendingChains, hredraws.socket, hredraws.drawn⟩
  | opened hbefore hcalls hsocket hheads hmarks => exact .opened hbefore (.inr rfl) hsocket hheads hmarks
  | closed hheads hmarks hsocket => exact .closed hheads hmarks hsocket

theorem step_turns (w : World) (act : Act) :
    Turns w act (w.step act).page ∧ w.collections ⊆ (w.step act).collections := by
  have hsame : ∀ {w' : World}, w'.page = w.page ∧ w'.collections = w.collections →
      Turns w act w'.page ∧ w.collections ⊆ w'.collections := by
    rintro w' ⟨hpage, hcollections⟩
    rw [hpage, hcollections]
    exact ⟨.same (redraws_refl _), List.Subset.refl _⟩
  have hturns : ∀ {w' : World}, Turns w act w'.page ∧ w'.collections = w.collections →
      Turns w act w'.page ∧ w.collections ⊆ w'.collections := by
    rintro w' ⟨hpage, hcollections⟩
    rw [hcollections]
    exact ⟨hpage, List.Subset.refl _⟩
  cases act with
  | source name status => exact hsame ⟨rfl, rfl⟩
  | publishHead name head receivedAt => exact hsame ⟨rfl, rfl⟩
  | publishBlocks name rows => exact hsame ⟨rfl, rfl⟩
  | attach now refreshSeconds => exact hsame ⟨rfl, rfl⟩
  | detach => exact hsame ⟨rfl, rfl⟩
  | stopFeed => exact hsame ⟨rfl, rfl⟩
  | start =>
    refine hsame ?_
    rw [step]
    split <;> exact ⟨rfl, rfl⟩
  | enter caller expired => exact hsame (enter_page w caller expired)
  | collected result =>
    obtain ⟨hpage, hsub⟩ := collected_page w result
    rw [step, hpage]
    exact ⟨.same (redraws_refl _), hsub⟩
  | publish now => exact hsame (publish_page w now)
  | connect => exact hturns (connect_turns w (.inl rfl))
  | accept now refreshSeconds => exact hsame (accept_page w now refreshSeconds)
  | send => exact hsame (send_page w)
  | receive => exact hturns (receive_turns w)
  | close => exact hturns (close_turns w)
  | tick =>
    refine hturns ?_
    rw [step]
    split
    · exact ⟨.same (refresh_redraws w.page), rfl⟩
    · exact ⟨.same (redraws_refl _), rfl⟩
  | respond =>
    refine hturns ?_
    rw [step]
    split
    next answer hanswer => exact ⟨finish_turns w (some answer) (.inr hanswer.symm), rfl⟩
    next => exact ⟨.same (redraws_refl _), rfl⟩
  | abort => exact hturns ⟨.same (.of_eq rfl rfl rfl rfl), rfl⟩
  | hide => exact hturns ⟨.closed rfl rfl rfl, (unlink_page w).2⟩
  | unhide => exact hturns (unhide_turns w)

/-! ## The server again -/

theorem Collected.unlink (h : Collected w) : Collected w.unlink := by
  unfold World.unlink
  split
  next =>
    have hdetached : Collected { w with feed := w.feed.detach } := h.feed (Nat.le_refl _) rfl rfl
    exact { hdetached with sent := by rintro _ ⟨⟩ }
  next => exact h

theorem Collected.withPage (h : Collected w) (page : Dashboard) : Collected (w.withPage page) := by
  refine h.page ?_
  split
  · exact .inr rfl
  · exact .inl rfl

theorem Collected.connect (h : Collected w) : Collected w.connect := by
  unfold World.connect
  split
  next => exact h
  next => exact h.page (.inr rfl)

theorem Collected.finish (h : Collected w) (answer : Option Snapshot) : Collected (w.finish answer) := by
  have hpage : Collected { w with page := w.page.finishRefresh answer, answer := none } := h.page (.inl rfl)
  refine { hpage with holder := fun start hstart ↦ ?_ }
  obtain ⟨⟨caller, start'⟩, hholder, heq⟩ := Option.map_eq_some_iff.1 hstart
  rw [Prod.mk.injEq] at heq
  obtain ⟨hcaller, rfl⟩ := heq
  split at hcaller
  next => cases hcaller
  next =>
    subst hcaller
    exact h.holder start' hholder

theorem Collected.accept (h : Collected w) (now refreshSeconds : ℤ) :
    Collected (w.accept now refreshSeconds) := by
  have hattach : Collected { w with feed := (w.feed.attach now refreshSeconds).1 } := by
    refine h.feed ?_ ?_ ?_ <;> unfold Feed.attach <;> split <;> rfl
  unfold World.accept
  split
  next => exact h
  next =>
    split
    next feed cursor hfeed =>
      rw [hfeed] at hattach
      refine { hattach with sent := fun link hlink ↦ ?_ }
      cases hlink
      exact nofun
    next feed hfeed =>
      rw [hfeed] at hattach
      exact hattach

theorem Collected.receive (h : Collected w) : Collected w.receive := by
  unfold World.receive
  split
  next cursor frame sent socket hlink hsocket =>
    split
    next => exact h
    next =>
      have hrest : Collected { w with link := some ⟨cursor, sent⟩ } := by
        refine { h with sent := fun link hlink' frame' hframe ↦ ?_ }
        cases hlink'
        exact h.sent _ hlink frame' (List.mem_cons_of_mem _ hframe)
      dsimp only
      split
      next => exact hrest.withPage _
      next => exact hrest.withPage _
  next => exact h

theorem Collected.step (h : Collected w) (act : Act) : Collected (w.step act) := by
  cases act with
  | source name status =>
    refine h.feed ?_ ?_ ?_ <;> unfold Feed.source <;> split <;> rfl
  | publishHead name head receivedAt =>
    refine h.feed ?_ ?_ ?_ <;> unfold Feed.publishHead
    · split
      · exact Nat.le_refl _
      · split
        · exact Nat.le_refl _
        · exact Nat.le_succ _
    · split
      · rfl
      · split <;> rfl
    · split
      · rfl
      · split <;> rfl
  | publishBlocks name rows => exact h.feed (Nat.le_succ _) rfl rfl
  | attach now refreshSeconds =>
    refine h.feed ?_ ?_ ?_ <;> unfold Feed.attach <;> split <;> rfl
  | detach => exact h.feed (Nat.le_refl _) rfl rfl
  | stopFeed => exact h.feed (Nat.le_refl _) rfl rfl
  | start =>
    rw [World.step]
    split
    next hidle =>
      refine { h with started := fun sequence hworker ↦ ?_, holder := fun start hholder ↦ ?_, publishing := nofun }
      · cases hworker
        exact Nat.le_refl _
      · obtain ⟨sequence, hworker, -⟩ := h.holder start hholder
        cases hidle.symm.trans hworker
    next => exact h
  | enter caller expired => exact h.enter caller expired
  | collected result => exact h.collected result
  | publish now => exact h.publish now
  | connect => exact h.connect
  | accept now refreshSeconds => exact h.accept now refreshSeconds
  | send => exact h.send
  | receive => exact h.receive
  | close =>
    rw [World.step, World.close]
    split
    next => exact h
    next => exact h.unlink.withPage _
  | tick =>
    rw [World.step]
    split
    next => exact h.withPage _
    next => exact h
  | respond =>
    rw [World.step]
    split
    next => exact h.finish _
    next => exact h
  | abort => exact h.finish none
  | hide => exact h.unlink.withPage _
  | unhide => exact (show Collected { w with page := { w.page with stopped := false } } from h.page (.inr rfl)).connect

/-! ## What a page observes -/

/-- What a step draws: the snapshot of the next frame, or the answer that arrives. -/
def drawnBy (w : World) : Act → Option CachedSnapshot
  | .receive => do
    let link ← w.link
    let frame ← link.sent.head?
    let (details, _) ← frame.details
    details.snapshot
  | .respond => w.answer.join
  | _ => none

/-- No answer is drawn that is older than what the page knows: what it has of a chain started after the
newest head, or shows that head, and started after the head that left a mark.  And no connection is opened while a
chain has a mark. -/
def Allowed (w : World) : Act → Prop
  | .respond => ∀ cached, w.answer = some (some cached) → w.page.Draws → cached.stale = false →
      ∀ name reading, cached.collection.chains name = some reading → reading.latest.hash ≠ "" →
        (∀ update, w.page.heads name = some update →
          update.sequence ≤ cached.collection.start ∨ reading.latest.hash = update.block.hash) ∧
        ∀ pending, w.page.pendingChains name = some pending → pending.sequence ≤ cached.collection.start
  | .connect => w.page.stopped = false → w.page.socket = none → ∀ name, w.page.pendingChains name = none
  | .unhide => w.page.socket = none → ∀ name, w.page.pendingChains name = none
  | _ => True

/-- What is reached when every step is allowed. -/
inductive Reached : World → Prop
  | init : Reached init
  | step {w : World} (before : Reached w) (act : Act) (allowed : Allowed w act) : Reached (w.step act)

/-- On a connection a page knows the newest head that it was sent of each chain, and shows it, or the
latest block of a collection that started after it. -/
structure Observes (w : World) : Prop where
  newest : ∀ socket, w.page.socket = some socket → socket.closing = false →
    ∀ name, IsNewest name socket.received (w.page.heads name)
  shows : ∀ socket, w.page.socket = some socket → socket.closing = false →
    Shows (IsYounger w.collections) w.page

/-- A step clears a mark only with a snapshot that is not stale, has the chain, and started after the head that
left the mark. -/
def Clears (w : World) (act : Act) : Prop :=
  ∀ name pending, w.page.pendingChains name = some pending → (w.step act).page.pendingChains name = none →
    ∃ cached reading, w.drawnBy act = some cached ∧ cached.stale = false ∧
      cached.collection ∈ w.collections ∧ cached.collection.chains name = some reading ∧
      pending.sequence ≤ cached.collection.start

theorem carries_read {frame : Frame BlockRow (Option CachedSnapshot)} {snapshot : Snapshot}
    {startedSequence : ℕ} (h : Carries frame.read snapshot startedSequence) :
    ∃ details cached, frame.details = some (details, startedSequence) ∧ details.snapshot = some cached ∧
      snapshot = cached.snapshot := by
  obtain ⟨details, hdetails, hsnapshot⟩ := h
  obtain ⟨⟨details', started⟩, hframe, heq⟩ := Option.map_eq_some_iff.1 hdetails
  rw [Prod.mk.injEq] at heq
  obtain ⟨rfl, rfl⟩ := heq
  obtain ⟨cached, hcached, rfl⟩ := Option.map_eq_some_iff.1 hsnapshot
  exact ⟨details', cached, hframe, hcached, rfl⟩

/-- A snapshot of a frame under way is younger than what it stands over. -/
theorem Collected.stands (h : Collected w) {link : Link} (hlink : w.link = some link)
    {frame : Frame BlockRow (Option CachedSnapshot)} (hnext : link.sent.head? = some frame)
    {snapshot : Snapshot} {startedSequence : ℕ} (hcarries : Carries frame.read snapshot startedSequence)
    {name : Name} {sequence : ℕ} (hstands : Stands snapshot startedSequence name sequence) :
    ∃ cached reading, w.drawnBy .receive = some cached ∧ cached.stale = false ∧
      cached.collection ∈ w.collections ∧ cached.collection.chains name = some reading ∧
      snapshot.latestHash name = some reading.latest.hash ∧ sequence ≤ cached.collection.start := by
  obtain ⟨details, cached, hdetails, hcached, rfl⟩ := carries_read hcarries
  have hsince := h.sent link hlink frame (List.mem_of_mem_head? hnext) details startedSequence cached
    hdetails hcached
  obtain ⟨hfresh, reading, hreading, -, hlatest⟩ := hstands.reading
  have hstarted := hstands.started
  refine ⟨cached, reading, ?_, hfresh, hsince.collected, hreading, hlatest, ?_⟩
  · simp [drawnBy, hlink, hnext, hdetails, hcached]
  · exact (Int.ofNat_le.1 hstarted).trans (hsince.started hfresh)

theorem observes_init : Observes init := ⟨nofun, nofun⟩

theorem Observes.mono (h : Observes w) {w' : World} (hredraws : Redraws w.page w'.page)
    (hsub : w.collections ⊆ w'.collections) : Observes w' := by
  constructor
  · intro socket hsocket hopen name
    rw [hredraws.heads]
    exact h.newest socket (hredraws.socket ▸ hsocket) hopen name
  · intro socket hsocket hopen
    refine hredraws.shows fun name update hupdate ↦ ?_
    obtain ⟨snapshot, hsnapshot, hlatest⟩ := h.shows socket (hredraws.socket ▸ hsocket) hopen name update hupdate
    exact ⟨snapshot, hsnapshot, hlatest.imp_right fun hyounger ↦ hyounger.mono hsub⟩

/-- **One step.** -/
theorem Observes.step (h : Observes w) (hcollected : Collected w) {act : Act} (hallowed : Allowed w act) :
    Observes (w.step act) := by
  obtain ⟨hturns, hsub⟩ := step_turns w act
  generalize w.step act = w' at hturns hsub
  generalize hpage : w'.page = page at hturns
  cases hturns with
  | same hredraws => exact h.mono (hpage ▸ hredraws) hsub
  | opened hbefore hcalls hsocket hheads hmarks =>
    constructor
    · intro socket hsocket' _ name
      rw [hpage, hsocket] at hsocket'
      cases hsocket'
      rw [hpage, hheads name]
      exact nofun
    · intro socket _ _ name update hupdate
      rw [hpage, hheads name] at hupdate
      cases hupdate
  | closed hheads hmarks hsocket =>
    constructor <;> intro socket hsocket'
    · rw [hpage, hsocket] at hsocket'
      cases hsocket'
    · rw [hpage, hsocket] at hsocket'
      cases hsocket'
  | @received link frame socket page ok hlink hnext hbefore hopen hhandled =>
    cases ok with
    | false =>
      constructor <;> intro socket' hsocket' hopen'
      · rw [hpage] at hsocket'
        cases hsocket'
        cases hopen'
      · rw [hpage] at hsocket'
        cases hsocket'
        cases hopen'
    | true =>
      constructor
      · intro socket' hsocket' _ name
        rw [hpage] at hsocket' ⊢
        cases hsocket'
        have hnewest := handle_newest hhandled (h.newest socket hbefore hopen name)
        exact hnewest
      · intro socket' _ _
        have hshows : Shows (IsYounger w'.collections) w.page := by
          intro name update hupdate
          obtain ⟨snapshot, hsnapshot, hlatest⟩ := h.shows socket hbefore hopen name update hupdate
          exact ⟨snapshot, hsnapshot, hlatest.imp_right fun hyounger ↦ hyounger.mono hsub⟩
        have hshown : Shows (IsYounger w'.collections) page := by
          refine handle_shows hhandled hshows (fun snapshot startedSequence hcarries name hfailed ↦ ?_)
            fun snapshot startedSequence hcarries name sequence hstands ↦ ?_
          · obtain ⟨details, cached, -, -, rfl⟩ := carries_read hcarries
            exact cached.failed name hfailed
          · obtain ⟨cached, reading, -, -, hmem, hreading, hlatest, hle⟩ :=
              hcollected.stands hlink hnext hcarries hstands
            exact ⟨cached.collection, hsub hmem, reading, hreading, hlatest, hle⟩
        rw [hpage]
        exact hshown
  | @answered cached page hanswer hdraws happlied =>
    have hheads := applySnapshot_heads happlied
    have hkept := applySnapshot_keeps happlied
    constructor
    · intro socket hsocket hopen name
      rw [hpage] at hsocket ⊢
      rw [hheads]
      exact h.newest socket (hkept.socket ▸ hsocket) hopen name
    · intro socket _ _
      rw [hpage]
      refine applySnapshot_shows happlied cached.failed fun name update hupdate hstands ↦ ?_
      obtain ⟨hfresh, reading, hreading, hne, hlatest⟩ := hstands.reading
      rw [hheads] at hupdate
      rcases (hallowed cached hanswer hdraws hfresh name reading hreading hne).1 update hupdate with hle | hsame
      · exact .inr ⟨cached.collection, hsub (hcollected.answer cached hanswer), reading, hreading, hlatest, hle⟩
      · exact .inl (hlatest.trans (congrArg some hsame))

theorem marks_step (hmarks : Marks w.page) (act : Act) : Marks (w.step act).page := by
  have hturns := (step_turns w act).1
  generalize (w.step act).page = page at hturns
  cases hturns with
  | same hredraws => exact hredraws.marks hmarks
  | opened hbefore hcalls hsocket hheads hnone =>
    intro name pending hpending
    rw [hnone name] at hpending
    cases hpending
  | closed hheads hpending hsocket =>
    rw [Marks, hheads, hpending]
    exact hmarks
  | received hlink hnext hbefore hopen hhandled => exact (handle_keeps hhandled).marks hmarks
  | answered hanswer hdraws happlied => exact (applySnapshot_keeps happlied).marks hmarks

theorem clears_step (hcollected : Collected w) (hmarks : Marks w.page) {act : Act} (hallowed : Allowed w act) :
    Clears w act := by
  intro name pending hpending hnone
  have hturns := (step_turns w act).1
  generalize (w.step act).page = page at hturns hnone ⊢
  cases hturns with
  | same hredraws =>
    rw [hredraws.pendingChains, hpending] at hnone
    cases hnone
  | opened hbefore hcalls hsocket hheads hempty =>
    rcases hcalls with ⟨rfl, hrunning⟩ | rfl
    · cases hpending.symm.trans (hallowed hrunning hbefore name)
    · cases hpending.symm.trans (hallowed hbefore name)
  | closed hheads hsame hsocket =>
    rw [hsame, hpending] at hnone
    cases hnone
  | received hlink hnext hbefore hopen hhandled =>
    obtain ⟨snapshot, startedSequence, hcarries, hstands⟩ :=
      (handle_keeps hhandled).kept hmarks name pending hpending hnone
    obtain ⟨cached, reading, hdrawn, hfresh, hmem, hreading, -, hle⟩ :=
      hcollected.stands hlink hnext hcarries hstands
    exact ⟨cached, reading, hdrawn, hfresh, hmem, hreading, hle⟩
  | @answered cached page hanswer hdraws happlied =>
    have hstands := (applySnapshot_keeps happlied).kept hmarks name pending hpending hnone
    obtain ⟨hfresh, reading, hreading, hne, -⟩ := hstands.reading
    refine ⟨cached, reading, ?_, hfresh, hcollected.answer cached hanswer, hreading, ?_⟩
    · rw [drawnBy, hanswer]
      rfl
    · exact (hallowed cached hanswer hdraws hfresh name reading hreading hne).2 pending hpending

theorem Reached.collected (h : Reached w) : Collected w := by
  induction h with
  | init => exact collected_init
  | step _ act _ ih => exact ih.step act

theorem Reached.marks (h : Reached w) : Marks w.page := by
  induction h with
  | init => exact nofun
  | step _ act _ ih => exact marks_step ih act

/-- Steps that are allowed anywhere. -/
theorem Reached.foldl {acts : List Act} (h : Reached w) (hacts : ∀ act ∈ acts, ∀ w, Allowed w act) :
    Reached (acts.foldl World.step w) := by
  induction acts generalizing w with
  | nil => exact h
  | cons act acts ih =>
    obtain ⟨hact, hacts⟩ := List.forall_mem_cons.1 hacts
    exact ih (h.step act (hact w)) hacts

/-- **What a page shows never goes back in observation**, in every interleaving in which no answer is drawn
that is older than what the page knows, and no connection opened while a chain has a mark. -/
theorem Reached.observes (h : Reached w) : Observes w ∧ ∀ act, Allowed w act → Clears w act := by
  refine ⟨?_, fun act hallowed ↦ clears_step h.collected h.marks hallowed⟩
  induction h with
  | init => exact observes_init
  | step before act hallowed ih => exact ih.step before.collected hallowed

section Sample

def sampleHash (c : Char) : String := String.ofList ('0' :: 'x' :: List.replicate 64 c)

def sampleHeader : Header := ⟨some 2, some (sampleHash 'b'), some (sampleHash 'a'), some 0, some 0, some 0⟩

/-- A chain whose latest block is the one before that head. -/
def sampleReading : ChainReading :=
  ⟨⟨sampleHash 'a', 1, none, some 0⟩, none, none, [⟨sampleHash 'a', 1, none, some 0⟩]⟩

def sampleCollection : Collection := ⟨0, fun _ ↦ none, none, fun _ ↦ some sampleReading, some true⟩

/-- A page that could not connect asks over HTTP, connects, and is sent a head. -/
def sampleActs : List Act :=
  [.connect, .close, .enter .page false, .collected (some sampleCollection), .respond, .connect, .accept 0 0,
    .publishHead .l1 sampleHeader 0, .send, .receive]

/-- A head beside that one leaves a mark, and the thread of the feed collects again. -/
def sampleReorg : List Act :=
  [.publishHead .l1 { sampleHeader with hash := some (sampleHash 'c'), parentHash := some (sampleHash 'd') } 0, .send,
    .receive, .start, .enter .worker false, .collected (some sampleCollection), .publish 0, .send]

theorem reached_sampleActs : Reached (run sampleActs) := by
  refine .step (.step (.step (.step (.step (.step (.step (.step (.step (.step .init .connect ?_) .close
    trivial) (.enter .page false) trivial) (.collected (some sampleCollection)) trivial) .respond ?_) .connect
    ?_) (.accept 0 0) trivial) (.publishHead .l1 sampleHeader 0) trivial) .send trivial) .receive trivial
  · exact fun _ _ _ ↦ rfl
  · exact fun cached hanswer _ _ name reading _ _ ↦ ⟨nofun, nofun⟩
  · exact fun _ _ name ↦ rfl

/-- The mark is cleared by the frame that arrives with the new collection. -/
theorem reached_sample :
    ((run (sampleActs ++ sampleReorg)).page.pendingChains .l1).isSome = true ∧
      ((run (sampleActs ++ sampleReorg)).step .receive).page.pendingChains .l1 = none ∧
      Observes (run (sampleActs ++ sampleReorg)) ∧ Clears (run (sampleActs ++ sampleReorg)) .receive := by
  have hreached : Reached (run (sampleActs ++ sampleReorg)) := by
    rw [run, List.foldl_append]
    exact reached_sampleActs.foldl (by simp [sampleReorg, Allowed])
  refine ⟨by decide +kernel, by decide +kernel, hreached.observes.1, hreached.observes.2 .receive trivial⟩

/-- The timer, which still runs, asks again, and the cache answers with what it collected before the head. -/
theorem not_observes_cached :
    ¬Observes (run (sampleActs ++ [.tick, .enter .page false, .respond])) := by
  intro h
  set w := run (sampleActs ++ [.tick, .enter .page false, .respond]) with hw
  have hhead : w.page.heads .l1 =
      some ⟨⟨2, sampleHash 'b', some (sampleHash 'a'), 0, 0, 0⟩, 1, 0⟩ := by
    rw [hw]
    decide +kernel
  have hshown : w.page.snapshot.bind (fun snapshot ↦ snapshot.latestHash .l1) = some (sampleHash 'a') := by
    rw [hw]
    decide +kernel
  have hstarts : w.collections.map Collection.start = [0] := by
    rw [hw]
    decide +kernel
  have hopen : w.page.socket.map Socket.closing = some false := by
    rw [hw]
    decide +kernel
  obtain ⟨socket, hsocket, hclosing⟩ := Option.map_eq_some_iff.1 hopen
  obtain ⟨snapshot, hsnapshot, hlatest⟩ := h.shows socket hsocket hclosing .l1 _ hhead
  rw [hsnapshot, Option.bind_some] at hshown
  rw [hshown] at hlatest
  rcases hlatest with hsame | ⟨collection, hmem, reading, -, -, hle⟩
  · revert hsame
    decide +kernel
  · have hstart := List.mem_map_of_mem (f := Collection.start) hmem
    rw [hstarts, List.mem_singleton] at hstart
    dsimp only at hle
    omega

end Sample

end World

end Monitor
