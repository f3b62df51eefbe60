import EezDashboard.Monitor.Feed

/-!
# What a client of the feed knows

Each slot of the feed holds the newest publication of its kind, and `stateVersion` is the version of the
newest snapshot.  So the frame a client is served is a summary of everything published after its cursor,
and after any number of frames the client knows as much as one that saw every publication.
-/

set_option autoImplicit false

namespace Monitor

variable {Row Snapshot : Type}

/-! ## The newest of a kind -/

section Newest

variable (log log' : List (Publication Row Snapshot))

@[simp] theorem newestHead_nil (n : Name) :
    newestHead n ([] : List (Publication Row Snapshot)) = none := rfl

@[simp] theorem newestWindow_nil (n : Name) :
    newestWindow n ([] : List (Publication Row Snapshot)) = none := rfl

@[simp] theorem newestSnapshot_nil :
    newestSnapshot ([] : List (Publication Row Snapshot)) = none := rfl

theorem newestHead_append (n : Name) :
    newestHead n (log ++ log') = (newestHead n log').or (newestHead n log) := by
  rw [newestHead, List.reverse_append, List.findSome?_append]
  rfl

theorem newestWindow_append (n : Name) :
    newestWindow n (log ++ log') = (newestWindow n log').or (newestWindow n log) := by
  rw [newestWindow, List.reverse_append, List.findSome?_append]
  rfl

theorem newestSnapshot_append :
    newestSnapshot (log ++ log') = (newestSnapshot log').or (newestSnapshot log) := by
  rw [newestSnapshot, List.reverse_append, List.findSome?_append]
  rfl

@[simp] theorem newestHead_head (n m : Name) (h : Head) :
    newestHead n [(.head m h : Publication Row Snapshot)] = if m = n then some h else none := by
  simp [newestHead]

@[simp] theorem newestHead_window (n m : Name) (rows : List Row) :
    newestHead n [(.window m rows : Publication Row Snapshot)] = none := rfl

@[simp] theorem newestHead_snapshot (n : Name) (d : Details Snapshot) (started : ℕ) :
    newestHead n [(.snapshot d started : Publication Row Snapshot)] = none := rfl

@[simp] theorem newestWindow_head (n m : Name) (h : Head) :
    newestWindow n [(.head m h : Publication Row Snapshot)] = none := rfl

@[simp] theorem newestWindow_window (n m : Name) (rows : List Row) :
    newestWindow n [(.window m rows : Publication Row Snapshot)] = if m = n then some rows else none := by
  simp [newestWindow]

@[simp] theorem newestWindow_snapshot (n : Name) (d : Details Snapshot) (started : ℕ) :
    newestWindow n [(.snapshot d started : Publication Row Snapshot)] = none := rfl

@[simp] theorem newestSnapshot_head (m : Name) (h : Head) :
    newestSnapshot [(.head m h : Publication Row Snapshot)] = none := rfl

@[simp] theorem newestSnapshot_window (m : Name) (rows : List Row) :
    newestSnapshot [(.window m rows : Publication Row Snapshot)] = none := rfl

@[simp] theorem newestSnapshot_snapshot (d : Details Snapshot) (started : ℕ) :
    newestSnapshot [(.snapshot d started : Publication Row Snapshot)] = some (d, started) := rfl

end Newest

/-! ## The slots are current -/

/-- The snapshot in the slot. -/
def Feed.stored (feed : Feed Row Snapshot) : Option (Details Snapshot × ℕ) :=
  feed.frame.map fun d ↦ (d, feed.collectionStartedSequence)

/-- The feed holds the newest of each kind, and its version counts the publications. -/
structure Current (feed : Feed Row Snapshot) (log : List (Publication Row Snapshot)) : Prop where
  version : feed.version = log.length
  heads : ∀ n, feed.heads n = newestHead n log
  blocks : ∀ n, feed.blocks n = newestWindow n log
  stateVersion : feed.stateVersion ≤ log.length
  filled : feed.stored.isSome = true → 0 < feed.stateVersion
  snapshot : ∀ c, newestSnapshot (log.drop c) = if c < feed.stateVersion then feed.stored else none

/-- Publishing anything but a snapshot leaves the snapshot slot current. -/
theorem Current.snapshot_append {feed : Feed Row Snapshot} {log : List (Publication Row Snapshot)}
    (h : Current feed log) {p : Publication Row Snapshot} (hp : newestSnapshot [p] = none) (c : ℕ) :
    newestSnapshot ((log ++ [p]).drop c) = if c < feed.stateVersion then feed.stored else none := by
  rcases Nat.lt_or_ge log.length c with hc | hc
  · have hversion := h.stateVersion
    rw [List.drop_of_length_le (by rw [List.length_append, List.length_singleton]; omega),
      if_neg (by omega), newestSnapshot_nil]
  · rw [List.drop_append_of_le_length hc, newestSnapshot_append, hp, Option.none_or, h.snapshot c]

theorem Current.init : Current (Feed.init : Feed Row Snapshot) [] where
  version := rfl
  heads _ := rfl
  blocks _ := rfl
  stateVersion := le_rfl
  filled h := nomatch h
  snapshot c := by
    rw [List.drop_nil, newestSnapshot_nil]
    exact (if_neg (Nat.not_lt_zero c)).symm

/-- A filled snapshot slot is a published snapshot. -/
theorem Current.isSome_newest {feed : Feed Row Snapshot} {log : List (Publication Row Snapshot)}
    (h : Current feed log) (hsome : feed.stored.isSome = true) : (newestSnapshot log).isSome = true := by
  have hall := h.snapshot 0
  rw [List.drop_zero, if_pos (h.filled hsome)] at hall
  rw [hall]
  exact hsome

/-- What does not publish keeps the slots current. -/
theorem Current.of_eq {feed feed' : Feed Row Snapshot} {log : List (Publication Row Snapshot)}
    (h : Current feed log) (hversion : feed'.version = feed.version) (hheads : feed'.heads = feed.heads)
    (hblocks : feed'.blocks = feed.blocks) (hstate : feed'.stateVersion = feed.stateVersion)
    (hstored : feed'.stored = feed.stored) : Current feed' log where
  version := hversion.trans h.version
  heads n := by rw [hheads, h.heads n]
  blocks n := by rw [hblocks, h.blocks n]
  stateVersion := hstate ▸ h.stateVersion
  filled hsome := by rw [hstate]; exact h.filled (hstored ▸ hsome)
  snapshot c := by rw [hstate, hstored, h.snapshot c]

theorem Current.publishHead {feed : Feed Row Snapshot} {log : List (Publication Row Snapshot)}
    (h : Current feed log) (name : Name) (head : Header) (receivedAt : ℤ) :
    Current (feed.publishHead name head receivedAt)
      (log ++ if feed.stopped then [] else ((Feed.headerBlock head).map fun block ↦
        .head name ⟨block, feed.version + 1, receivedAt⟩).toList) := by
  rw [Feed.publishHead]
  cases Feed.headerBlock head with
  | none => simpa using h
  | some block =>
    dsimp only
    split
    · rw [List.append_nil]
      exact h
    · rw [Option.map_some, Option.toList_some]
      refine ⟨?_, ?_, ?_, ?_, h.filled, ?_⟩
      · rw [List.length_append, List.length_singleton, h.version]
      · intro n
        rw [newestHead_append, newestHead_head]
        by_cases hn : name = n
        · subst hn
          simp
        · rw [if_neg hn, Option.none_or, ← h.heads n]
          exact Function.update_of_ne (Ne.symm hn) _ _
      · intro n
        rw [newestWindow_append, newestWindow_head, Option.none_or, ← h.blocks n]
      · rw [List.length_append]
        exact h.stateVersion.trans (Nat.le_add_right _ _)
      · exact h.snapshot_append (newestSnapshot_head _ _)

theorem Current.publishBlocks {feed : Feed Row Snapshot} {log : List (Publication Row Snapshot)}
    (h : Current feed log) (name : Name) (rows : List Row) :
    Current (feed.publishBlocks name rows) (log ++ [.window name rows]) where
  version := by rw [List.length_append, List.length_singleton, ← h.version]; rfl
  heads n := by
    rw [newestHead_append, newestHead_window, Option.none_or, ← h.heads n]
    rfl
  blocks n := by
    rw [newestWindow_append, newestWindow_window]
    by_cases hn : name = n
    · subst hn
      simp [Feed.publishBlocks]
    · rw [if_neg hn, Option.none_or, ← h.blocks n]
      exact Function.update_of_ne (Ne.symm hn) _ _
  stateVersion := by
    rw [List.length_append]
    exact h.stateVersion.trans (Nat.le_add_right _ _)
  filled := h.filled
  snapshot := h.snapshot_append (newestSnapshot_window _ _)

theorem Current.publish {feed : Feed Row Snapshot} {log : List (Publication Row Snapshot)}
    (h : Current feed log) (snapshot : Snapshot) (event : String) (startedSequence : Option ℕ)
    (now : ℤ) :
    Current (feed.publish snapshot event startedSequence now)
      (log ++ [.snapshot ⟨event, snapshot, feed.sources⟩ (startedSequence.getD feed.version)]) where
  version := by rw [List.length_append, List.length_singleton, ← h.version]; rfl
  heads n := by
    rw [newestHead_append, newestHead_snapshot, Option.none_or, ← h.heads n]
    rfl
  blocks n := by
    rw [newestWindow_append, newestWindow_snapshot, Option.none_or, ← h.blocks n]
    rfl
  stateVersion := by rw [List.length_append, List.length_singleton, ← h.version]; exact le_rfl
  filled _ := Nat.succ_pos _
  snapshot c := by
    change _ = if c < feed.version + 1 then _ else none
    rw [h.version]
    rcases Nat.lt_or_ge log.length c with hc | hc
    · rw [List.drop_of_length_le (by rw [List.length_append, List.length_singleton]; omega),
        if_neg (by omega), newestSnapshot_nil]
    · rw [List.drop_append_of_le_length hc, newestSnapshot_append, newestSnapshot_snapshot,
        Option.some_or, if_pos (by omega)]
      simp [Feed.stored, Feed.publish, h.version]

/-! ## One frame after the other -/

/-- The cursor of a client after what it has received. -/
def cursorAfter (start : ℤ) : List (Delivery Row Snapshot) → ℤ
  | [] => start
  | d :: _ => d.frame.sequence

/-- The snapshot in the latest frame that carries one. -/
def knownSnapshot (received : List (Delivery Row Snapshot)) : Option (Details Snapshot × ℕ) :=
  received.findSome? fun d ↦ d.frame.details

/-- Each frame is a summary of what was published after the one before it. -/
def Served (start : ℤ) : List (Delivery Row Snapshot) → Prop
  | [] => True
  | d :: earlier => Served start earlier ∧ cursorAfter start earlier < d.frame.sequence ∧
      d.frame.sequence = d.published.length ∧
      (∀ n, d.frame.heads n = newestHead n d.published) ∧
      (∀ n, d.frame.blocks n = newestWindow n d.published) ∧
      d.frame.details = newestSnapshot (d.published.drop (cursorAfter start earlier).toNat) ∧
      ∀ e ∈ earlier, e.published <+: d.published

/-- What a client has received, and may rely on, when `log` has been published. -/
structure Informed (log : List (Publication Row Snapshot)) (conn : Conn Row Snapshot) : Prop where
  /-- the sequence numbers rise, the latest frame is first -/
  increasing : (conn.received.map fun d ↦ d.frame.sequence).Pairwise (· > ·)
  /-- a frame's sequence number says how much had been published, and that has not changed since -/
  published : ∀ d ∈ conn.received, d.frame.sequence = d.published.length ∧ d.published <+: log
  /-- a frame carries the newest head and window of both chains -/
  newest : ∀ d ∈ conn.received, ∀ n, d.frame.heads n = newestHead n d.published ∧
    d.frame.blocks n = newestWindow n d.published
  /-- and the newest snapshot, with the sequence it was started at, if one was published after the cursor -/
  details : ∀ later d earlier, conn.received = later ++ d :: earlier →
    d.frame.details = newestSnapshot (d.published.drop (cursorAfter conn.start earlier).toNat)
  /-- a client that starts at -1 is owed a snapshot published before it came -/
  start : conn.start = conn.attached ∨
    conn.start = -1 ∧ (newestSnapshot (log.take conn.attached)).isSome = true
  /-- after all frames the client knows the newest snapshot published since it came -/
  knows : ∀ d earlier, conn.received = d :: earlier →
    knownSnapshot conn.received = newestSnapshot (d.published.drop conn.start.toNat)

theorem Served.tail {start : ℤ} {later earlier : List (Delivery Row Snapshot)}
    (h : Served start (later ++ earlier)) : Served start earlier := by
  induction later with
  | nil => exact h
  | cons d later ih => exact ih h.1

theorem Served.start_le {start : ℤ} {received : List (Delivery Row Snapshot)}
    (h : Served start received) : start ≤ cursorAfter start received := by
  induction received with
  | nil => exact Int.le_refl start
  | cons d earlier ih =>
    have hlt := h.2.1
    have hle := ih h.1
    rw [cursorAfter]
    omega

theorem Served.increasing {start : ℤ} {received : List (Delivery Row Snapshot)}
    (h : Served start received) :
    (received.map fun d ↦ d.frame.sequence).Pairwise (· > ·) ∧
      ∀ d ∈ received, (d.frame.sequence : ℤ) ≤ cursorAfter start received := by
  induction received with
  | nil => simp
  | cons d earlier ih =>
    obtain ⟨hp, hle⟩ := ih h.1
    have hlt := h.2.1
    have below : ∀ e ∈ earlier, e.frame.sequence < d.frame.sequence := by
      intro e he
      have := hle e he
      omega
    constructor
    · rw [List.map_cons, List.pairwise_cons]
      refine ⟨?_, hp⟩
      intro n hn
      obtain ⟨e, he, rfl⟩ := List.mem_map.1 hn
      exact below e he
    · rw [List.forall_mem_cons]
      refine ⟨Int.le_refl _, fun e he ↦ ?_⟩
      exact Int.ofNat_le.2 (below e he).le

/-- The snapshot a client knows is the newest of everything after its start: the latest frame adds what was
published since the one before. -/
theorem Served.knows {start : ℤ} {d : Delivery Row Snapshot} {earlier : List (Delivery Row Snapshot)}
    (h : Served start (d :: earlier)) :
    knownSnapshot (d :: earlier) = newestSnapshot (d.published.drop start.toNat) := by
  induction earlier generalizing d with
  | nil =>
    have hdetails := h.2.2.2.2.2.1
    rw [cursorAfter] at hdetails
    rw [knownSnapshot, List.findSome?_cons, hdetails]
    cases newestSnapshot (d.published.drop start.toNat) <;> rfl
  | cons e earlier ih =>
    obtain ⟨hserved, hlt, -, -, -, hdetails, hprefix⟩ := h
    obtain ⟨rest, hrest⟩ := hprefix e List.mem_cons_self
    have hseq := hserved.2.2.1
    have hstart : start.toNat ≤ e.published.length := by
      have := hserved.1.start_le
      have := hserved.2.1
      omega
    rw [cursorAfter, Int.toNat_natCast, hseq, ← hrest, List.drop_left] at hdetails
    have hknown : knownSnapshot (d :: e :: earlier) =
        (newestSnapshot rest).or (knownSnapshot (e :: earlier)) := by
      rw [knownSnapshot, List.findSome?_cons, hdetails]
      cases newestSnapshot rest <;> rfl
    rw [hknown, ih hserved, ← hrest, List.drop_append_of_le_length hstart, newestSnapshot_append]

/-- What is kept of a connection along a run. -/
structure Tracked (log : List (Publication Row Snapshot)) (conn : Conn Row Snapshot) : Prop where
  cursor : conn.cursor = cursorAfter conn.start conn.received
  served : Served conn.start conn.received
  published : ∀ d ∈ conn.received, d.published <+: log
  attached : conn.attached ≤ log.length
  start : conn.start = conn.attached ∨
    conn.start = -1 ∧ (newestSnapshot (log.take conn.attached)).isSome = true

theorem Tracked.informed {log : List (Publication Row Snapshot)} {conn : Conn Row Snapshot}
    (h : Tracked log conn) : Informed log conn := by
  have split : ∀ d ∈ conn.received, ∃ later earlier, conn.received = later ++ d :: earlier ∧
      Served conn.start (d :: earlier) := by
    intro d hd
    obtain ⟨later, earlier, heq⟩ := List.append_of_mem hd
    exact ⟨later, earlier, heq, Served.tail (heq ▸ h.served)⟩
  refine ⟨h.served.increasing.1, ?_, ?_, ?_, h.start, ?_⟩
  · intro d hd
    obtain ⟨later, earlier, -, hserved⟩ := split d hd
    exact ⟨hserved.2.2.1, h.published d hd⟩
  · intro d hd n
    obtain ⟨later, earlier, -, hserved⟩ := split d hd
    exact ⟨hserved.2.2.2.1 n, hserved.2.2.2.2.1 n⟩
  · intro later d earlier heq
    have hserved : Served conn.start (d :: earlier) := Served.tail (heq ▸ h.served)
    exact hserved.2.2.2.2.2.1
  · intro d earlier heq
    have hserved : Served conn.start (d :: earlier) := heq ▸ h.served
    rw [heq, hserved.knows]

/-- A connection does not notice that more is published. -/
theorem Tracked.append {log : List (Publication Row Snapshot)} {conn : Conn Row Snapshot}
    (h : Tracked log conn) (new : List (Publication Row Snapshot)) : Tracked (log ++ new) conn where
  cursor := h.cursor
  served := h.served
  published d hd := (h.published d hd).trans (List.prefix_append log new)
  attached := h.attached.trans (by rw [List.length_append]; exact Nat.le_add_right _ _)
  start := by rw [List.take_append_of_le_length h.attached]; exact h.start

/-- What `wait` puts into a frame is the newest snapshot after the cursor. -/
theorem Current.details {feed : Feed Row Snapshot} {log : List (Publication Row Snapshot)}
    (h : Current feed log) {cursor : ℤ}
    (hcursor : 0 ≤ cursor ∨ cursor = -1 ∧ (newestSnapshot log).isSome = true) :
    (if (feed.stateVersion : ℤ) > cursor then feed.stored else none) =
      newestSnapshot (log.drop cursor.toNat) := by
  rw [h.snapshot]
  rcases hcursor with hcursor | ⟨rfl, hsome⟩
  · by_cases hlt : cursor.toNat < feed.stateVersion
    · rw [if_pos hlt, if_pos (by omega)]
    · rw [if_neg hlt, if_neg (by omega)]
  · have hall := h.snapshot 0
    rw [List.drop_zero] at hall
    rw [if_pos (by omega)]
    by_cases hpos : 0 < feed.stateVersion
    · exact (if_pos hpos).symm
    · rw [if_neg hpos] at hall
      rw [hall] at hsome
      cases hsome

theorem Tracked.cursor_le {feed : Feed Row Snapshot} {log : List (Publication Row Snapshot)}
    {conn : Conn Row Snapshot} (hfeed : Current feed log) (h : Tracked log conn) :
    conn.cursor ≤ feed.version := by
  rw [h.cursor]
  cases hrec : conn.received with
  | nil =>
    have hattached := h.attached
    rw [cursorAfter, hfeed.version]
    rcases h.start with hstart | ⟨hstart, -⟩ <;> omega
  | cons d earlier =>
    have hserved := h.served
    rw [hrec] at hserved
    rw [cursorAfter, hserved.2.2.1, hfeed.version]
    exact Int.ofNat_le.2 (h.published d (hrec ▸ List.mem_cons_self)).length_le

/-- Only a client that has not received anything has the cursor -1. -/
theorem Tracked.cursor_cases {log : List (Publication Row Snapshot)} {conn : Conn Row Snapshot}
    (h : Tracked log conn) :
    0 ≤ conn.cursor ∨ conn.cursor = -1 ∧ (newestSnapshot log).isSome = true := by
  rw [h.cursor]
  cases conn.received with
  | cons d earlier => exact .inl (Int.natCast_nonneg _)
  | nil =>
    rcases h.start with hstart | ⟨hstart, hsome⟩
    · left
      rw [cursorAfter, hstart]
      exact Int.natCast_nonneg _
    · right
      refine ⟨hstart, ?_⟩
      rw [← List.take_append_drop conn.attached log, newestSnapshot_append, Option.isSome_or, hsome,
        Bool.or_true]

/-- Waiting serves a summary of what was published after the cursor. -/
theorem Tracked.wait {feed : Feed Row Snapshot} {log : List (Publication Row Snapshot)}
    {conn : Conn Row Snapshot} (hfeed : Current feed log) (h : Tracked log conn) :
    Tracked log
      { conn with
        cursor := (feed.wait conn.cursor).1
        received := ((feed.wait conn.cursor).2.map fun f ↦ ⟨f, log⟩).toList ++ conn.received } := by
  have hle : cursorAfter conn.start conn.received ≤ feed.version := h.cursor ▸ h.cursor_le hfeed
  have hdetails : (if (feed.stateVersion : ℤ) > conn.cursor then feed.stored else none) =
      newestSnapshot (log.drop (cursorAfter conn.start conn.received).toNat) := by
    rw [← h.cursor]
    exact hfeed.details h.cursor_cases
  rw [Feed.wait]
  split
  · rename_i heq
    exact ⟨heq.trans h.cursor, h.served, h.published, h.attached, h.start⟩
  · rename_i hne
    have hlt : cursorAfter conn.start conn.received < feed.version :=
      Int.lt_iff_le_and_ne.2 ⟨hle, fun heq ↦ hne (heq.symm.trans h.cursor.symm)⟩
    refine ⟨rfl, ⟨h.served, hlt, hfeed.version, hfeed.heads, hfeed.blocks, hdetails, h.published⟩, ?_,
      h.attached, h.start⟩
    · intro d hd
      rcases List.mem_cons.1 hd with rfl | hd
      · exact List.prefix_refl log
      · exact h.published d hd

/-! ## Any interleaving -/

/-- Where the feed and its clients stand after a run. -/
structure System.Sound (s : System Row Snapshot) : Prop where
  current : Current s.feed s.log
  tracked : ∀ c conn, s.conns c = some conn → Tracked s.log conn

namespace System

theorem Sound.init : Sound (init : System Row Snapshot) where
  current := Current.init
  tracked _ _ h := nomatch h

/-- Publishing more leaves every client tracked. -/
theorem Sound.publish {s : System Row Snapshot} (h : s.Sound) {feed : Feed Row Snapshot}
    {new : List (Publication Row Snapshot)} (hfeed : Current feed (s.log ++ new)) :
    Sound { s with feed := feed, log := s.log ++ new } where
  current := hfeed
  tracked c conn hc := (h.tracked c conn hc).append new

/-- What does not publish leaves every client tracked. -/
theorem Sound.of_eq {s : System Row Snapshot} (h : s.Sound) {feed : Feed Row Snapshot}
    (hversion : feed.version = s.feed.version) (hheads : feed.heads = s.feed.heads)
    (hblocks : feed.blocks = s.feed.blocks) (hstate : feed.stateVersion = s.feed.stateVersion)
    (hstored : feed.stored = s.feed.stored) : Sound { s with feed := feed } where
  current := h.current.of_eq hversion hheads hblocks hstate hstored
  tracked := h.tracked

/-- A connection that is new or has changed is tracked on its own. -/
theorem Sound.update {s : System Row Snapshot} (h : s.Sound) (client : ℕ) {conn : Conn Row Snapshot}
    (hconn : Tracked s.log conn) :
    Sound { s with conns := Function.update s.conns client (some conn) } where
  current := h.current
  tracked c conn' hc := by
    replace hc : Function.update s.conns client (some conn) c = some conn' := hc
    by_cases heq : c = client
    · subst heq
      rw [Function.update_self] at hc
      cases hc
      exact hconn
    · rw [Function.update_of_ne heq] at hc
      exact h.tracked c conn' hc

/-- A client starts at the version of the feed, or at -1 when there is a snapshot to send. -/
theorem Sound.attach {s : System Row Snapshot} (h : s.Sound) (now refreshSeconds : ℤ) :
    Sound (s.step (.attach now refreshSeconds)) := by
  rw [System.step, Feed.attach]
  by_cases hfull : s.feed.clients ≥ Feed.maxClients ∨ s.feed.stopped = true
  · rw [if_pos hfull]
    exact h
  · rw [if_neg hfull]
    have hfeed : Sound { s with feed := { s.feed with
        clients := s.feed.clients + 1, active := true, wake := true } } := h.of_eq rfl rfl rfl rfl rfl
    have hstart : ∀ recent : Bool, (recent = true → s.feed.frame.isSome = true) →
        Tracked s.log (⟨s.log.length, if recent then -1 else s.feed.version,
          if recent then -1 else s.feed.version, []⟩ : Conn Row Snapshot) := by
      intro recent hrecent
      refine ⟨rfl, trivial, fun d hd ↦ (List.not_mem_nil hd).elim, Nat.le_refl _, ?_⟩
      cases recent with
      | false => exact .inl (congrArg _ h.current.version)
      | true =>
        refine .inr ⟨rfl, ?_⟩
        rw [List.take_length]
        exact h.current.isSome_newest (by rw [Feed.stored, Option.isSome_map]; exact hrecent rfl)
    refine ⟨hfeed.current, (hfeed.update s.next (hstart _ ?_)).tracked⟩
    intro hrecent
    exact (Bool.and_eq_true_iff.1 hrecent).1

theorem Sound.step {s : System Row Snapshot} (h : s.Sound) (op : Op Row Snapshot) :
    Sound (s.step op) := by
  cases op with
  | source name status =>
    refine h.of_eq ?_ ?_ ?_ ?_ ?_ <;> (rw [Feed.source]; split <;> rfl)
  | publishHead name head receivedAt =>
    exact h.publish (h.current.publishHead name head receivedAt)
  | publishBlocks name rows => exact h.publish (h.current.publishBlocks name rows)
  | publish snapshot event startedSequence now =>
    exact h.publish (h.current.publish snapshot event startedSequence now)
  | attach now refreshSeconds => exact h.attach now refreshSeconds
  | wait client =>
    rw [System.step]
    split
    · exact h
    · rename_i conn hconn
      exact h.update client ((h.tracked client conn hconn).wait h.current)
  | detach client =>
    rw [System.step]
    split
    · exact h
    · refine ⟨h.current.of_eq rfl rfl rfl rfl rfl, ?_⟩
      intro c conn hc
      replace hc : Function.update s.conns client none c = some conn := hc
      by_cases heq : c = client
      · subst heq
        rw [Function.update_self] at hc
        cases hc
      · rw [Function.update_of_ne heq] at hc
        exact h.tracked c conn hc
  | stop => exact h.of_eq rfl rfl rfl rfl rfl

theorem Sound.run (ops : List (Op Row Snapshot)) : Sound (run ops) :=
  List.foldlRecOn ops System.step Sound.init fun _ h op _ ↦ h.step op

/-- However the publications and the clients interleave, every client is served summaries that leave it
knowing the newest of everything. -/
theorem run_informed (ops : List (Op Row Snapshot)) (c : ℕ) :
    ∀ conn ∈ (System.run ops).conns c, Informed (System.run ops).log conn :=
  fun conn hc ↦ ((Sound.run ops).tracked c conn hc).informed

/-- A client comes after a first snapshot and misses a head and a window. -/
def sampleOps : List (Op ℕ ℕ) :=
  [.publish 7 "snapshot" none 0, .attach 0 60,
    .publishHead .l1 ⟨some 5, some "0xa", none, some 9, some 0, some 1⟩ 0, .publishBlocks .l1 [5],
    .wait 0, .publish 8 "snapshot" (some 3) 1, .wait 0]

theorem run_informed_once : ∃ conn, (System.run sampleOps).conns 0 = some conn ∧
    conn.received.length = 2 ∧ knownSnapshot conn.received = some (⟨"snapshot", 8, fun _ ↦ "connecting"⟩, 3) ∧
    Informed (System.run sampleOps).log conn :=
  ⟨_, rfl, rfl, rfl, run_informed sampleOps 0 _ rfl⟩

end System

end Monitor
