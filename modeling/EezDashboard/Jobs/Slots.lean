import Mathlib.Algebra.Order.BigOperators.Group.List
import Mathlib.Algebra.Order.Group.Nat
import Mathlib.Data.List.Nodup
import EezDashboard.Jobs.Leases

/-!
# Decoder slots

Every started entry holds a slot until its promise chain is done, whatever becomes of the entry meanwhile.
`pump` runs whenever an entry is queued or a slot becomes free, so that a queued entry only waits while all
slots are taken.
-/

set_option autoImplicit false

namespace JobStore

namespace Store

variable {c : Config} {s s' : Store}

/-- An entry that runs has a promise chain that will still settle it. -/
structure Working (s : Store) : Prop where
  bytes : ∀ e, (s.heap e).state ≠ .complete → (s.heap e).bytes = 0
  started_nodup : s.started.Nodup
  started : ∀ e ∈ s.started, e < s.nextEntry ∧ (s.heap e).state ≠ .queued
  running : ∀ e, (s.heap e).state = .running → e ∈ s.started ∧ s.phase e ≠ .settled

/-- The limits of the service. -/
structure Bounded (c : Config) (s : Store) : Prop where
  slots : s.running = s.started.length
  concurrency : s.running ≤ c.concurrency
  clients : s.clients.length ≤ c.maxClients
  entries : s.entries.length ≤ c.maxJobs
  bytes : s.used ≤ c.maxCacheBytes

/-- Until `close`, no entry that somebody waits for is queued while a slot is free. -/
def Busy (c : Config) (s : Store) : Prop :=
  s.closed = false → ∀ e ∈ s.entries, (s.heap e).state = .queued → (s.heap e).clients ≠ [] →
    c.concurrency ≤ s.running

/-- What holds before `pump` as well. -/
structure Steady (c : Config) (s : Store) : Prop where
  linked : s.Linked
  wanted : s.Wanted
  working : s.Working
  bounded : s.Bounded c

structure Sound (c : Config) (s : Store) : Prop extends Steady c s where
  busy : s.Busy c

theorem Steady.congr (h : s.Steady c) (hheap : s'.heap = s.heap) (hentries : s'.entries = s.entries)
    (hkeys : s'.byKey = s.byKey) (hclients : s'.clients = s.clients)
    (hlease : ∀ id, (s'.lease id).entry = (s.lease id).entry)
    (hnext : s'.nextEntry = s.nextEntry ∧ s'.nextClient = s.nextClient)
    (hslots : s'.running = s.running ∧ s'.started = s.started ∧ s'.phase = s.phase) : s'.Steady c where
  linked := h.linked.congr hheap hentries hkeys hclients hlease hnext
  wanted e ha := by
    rw [hentries, hheap]
    exact h.wanted e (hheap ▸ ha)
  working := by
    refine ⟨?_, hslots.2.1 ▸ h.working.started_nodup, ?_, ?_⟩
    · rw [hheap]
      exact h.working.bytes
    · rw [hheap, hslots.2.1, hnext.1]
      exact h.working.started
    · rw [hheap, hslots.2.1, hslots.2.2]
      exact h.working.running
  bounded := by
    refine ⟨?_, hslots.1 ▸ h.bounded.concurrency, hclients ▸ h.bounded.clients,
      hentries ▸ h.bounded.entries, ?_⟩
    · rw [hslots.1, hslots.2.1, h.bounded.slots]
    · rw [used, hheap, hentries]
      exact h.bounded.bytes

/-! ### Dropping leases and entries -/

theorem Spares.used_le (h : Spares s s') : s'.used ≤ s.used := by
  have hmap : (s'.entries.map fun e ↦ (s'.heap e).bytes) = s'.entries.map fun e ↦ (s.heap e).bytes :=
    List.map_congr_left fun e _ ↦ h.bytes e
  rw [used, used, hmap]
  exact (h.entries.map _).sum_le_sum fun _ _ ↦ Nat.zero_le _

theorem Spares.working (h : Spares s s') (hs : s.Working) : s'.Working where
  bytes e hstate := by
    rw [h.bytes]
    apply hs.bytes
    rcases h.heap e with heq | ⟨hactive, -⟩
    · rw [heq] at hstate
      exact hstate
    · intro hcomplete
      rw [hcomplete] at hactive
      cases hactive
  started_nodup := h.rest.2.2.2.2.1 ▸ hs.started_nodup
  started e he := by
    rw [h.rest.2.2.2.2.1] at he
    obtain ⟨hlt, hstate⟩ := hs.started e he
    refine ⟨h.rest.1 ▸ hlt, fun hqueued ↦ hstate ?_⟩
    rw [← (h.active (by rw [hqueued]; rfl)).1, hqueued]
  running e hrunning := by
    have hstate := (h.active (e := e) (by rw [hrunning]; rfl)).1
    rw [h.rest.2.2.2.2.1, h.rest.2.2.2.2.2]
    exact hs.running e (hstate ▸ hrunning)

theorem Spares.bounded (h : Spares s s') (hs : s.Bounded c) : s'.Bounded c where
  slots := by rw [h.rest.2.2.1, h.rest.2.2.2.2.1, hs.slots]
  concurrency := h.rest.2.2.1 ▸ hs.concurrency
  clients := Nat.le_trans h.clients.length_le hs.clients
  entries := Nat.le_trans h.entries.length_le hs.entries
  bytes := Nat.le_trans h.used_le hs.bytes

theorem Spares.busy (h : Spares s s') (hs : s.Busy c) : s'.Busy c := by
  intro hclosed e he hqueued hne
  rw [h.rest.2.2.2.1] at hclosed
  rw [h.rest.2.2.1]
  have hstate := (h.active (e := e) (by rw [hqueued]; rfl)).1
  refine hs hclosed e (h.entries.subset he) (hstate ▸ hqueued) fun hnil ↦ hne ?_
  rw [h.forgets, hnil]
  rfl

theorem Spares.steady (h : Spares s s') (hs : s.Steady c) : s'.Steady c :=
  ⟨h.linked hs.linked, h.wanted hs.wanted, h.working hs.working, h.bounded hs.bounded⟩

theorem Spares.sound (h : Spares s s') (hs : s.Sound c) : s'.Sound c :=
  ⟨h.steady hs.toSteady, h.busy hs.busy⟩

theorem Sound.release (h : s.Sound c) (id : ℕ) : (s.release id).Sound c :=
  (Spares.release h.linked h.wanted id).sound h

theorem Sound.sweep (h : s.Sound c) (clock : Clock) : (s.sweep c clock).Sound c :=
  (Spares.sweep c clock h.linked h.wanted).sound h

/-! ### Starting -/

theorem start_heap (s : Store) (e : ℕ) : (s.start e).heap = (s.modify e fun entry ↦
    { entry with state := .running, progress := "Reading transaction and network information" }).heap :=
  rfl

theorem start_heap_of_ne {e e' : ℕ} (h : e' ≠ e) : (s.start e).heap e' = s.heap e' := by
  rw [start_heap, modify_heap_of_ne h]

theorem start_state_self (s : Store) (e : ℕ) : ((s.start e).heap e).state = .running := by
  rw [start_heap, modify_heap_self]

theorem start_clients (s : Store) (e e' : ℕ) : ((s.start e).heap e').clients = (s.heap e').clients := by
  rw [start_heap, modify_heap_congr Entry.clients rfl]

theorem start_bytes (s : Store) (e e' : ℕ) : ((s.start e).heap e').bytes = (s.heap e').bytes := by
  rw [start_heap, modify_heap_congr Entry.bytes rfl]

theorem Steady.start (h : s.Steady c) {e : ℕ} (hqueued : (s.heap e).state = .queued)
    (hslot : s.running < c.concurrency) : (s.start e).Steady c := by
  have hactive : (s.heap e).state.active = true := by rw [hqueued]; rfl
  have hlinked : (s.start e).Linked := (h.linked.modify (e := e) (f := fun entry ↦
    { entry with state := .running, progress := "Reading transaction and network information" })
    rfl rfl).congr rfl rfl rfl rfl (fun _ ↦ rfl) ⟨rfl, rfl⟩
  have hnew : e ∉ s.started := fun he ↦ (h.working.started e he).2 hqueued
  refine ⟨hlinked, ?_, ⟨?_, ?_, ?_, ?_⟩, ⟨?_, hslot, h.bounded.clients, h.bounded.entries, ?_⟩⟩
  · intro e' hactive'
    rw [start_clients]
    by_cases he : e' = e
    · subst he
      exact h.wanted e' hactive
    · rw [start_heap_of_ne he] at hactive'
      exact h.wanted e' hactive'
  · intro e' hstate
    rw [start_bytes]
    by_cases he : e' = e
    · subst he
      apply h.working.bytes
      rw [hqueued]
      exact State.noConfusion
    · rw [start_heap_of_ne he] at hstate
      exact h.working.bytes e' hstate
  · exact List.nodup_append.2 ⟨h.working.started_nodup, List.nodup_singleton e,
      fun a ha b hb ↦ by rw [List.mem_singleton.1 hb]; rintro rfl; exact hnew ha⟩
  · intro e' he'
    by_cases he : e' = e
    · subst he
      refine ⟨h.linked.entries_lt e' (h.wanted e' hactive).1, ?_⟩
      rw [start_state_self]
      exact State.noConfusion
    · rw [start_heap_of_ne he]
      rcases List.mem_append.1 he' with hmem | hmem
      · exact h.working.started e' hmem
      · exact (he (List.mem_singleton.1 hmem)).elim
  · intro e' hrunning
    by_cases he : e' = e
    · subst he
      refine ⟨List.mem_append_right _ List.mem_cons_self, ?_⟩
      rw [show (s.start e').phase e' = .starting from Function.update_self ..]
      exact Phase.noConfusion
    · rw [start_heap_of_ne he] at hrunning
      obtain ⟨hmem, hphase⟩ := h.working.running e' hrunning
      refine ⟨List.mem_append_left _ hmem, ?_⟩
      rw [show (s.start e).phase e' = s.phase e' from Function.update_of_ne he ..]
      exact hphase
  · rw [show (s.start e).started = s.started ++ [e] from rfl, List.length_append, List.length_singleton,
      ← h.bounded.slots]
    rfl
  · have hused : (s.start e).used = s.used :=
      congrArg List.sum (List.map_congr_left fun e' _ ↦ start_bytes s e e')
    rw [hused]
    exact h.bounded.bytes

/-- `pump` keeps what holds, and leaves no entry of its loop waiting for a free slot. -/
structure Pumped (c : Config) (l : List ℕ) (s s' : Store) : Prop extends Steady c s' where
  entries : s'.entries = s.entries
  closed : s'.closed = s.closed
  clients : ∀ e, (s'.heap e).clients = (s.heap e).clients
  queued : ∀ e, (s'.heap e).state = .queued → (s.heap e).state = .queued
  busy : ∀ e ∈ l, (s'.heap e).state = .queued → (s'.heap e).clients ≠ [] → c.concurrency ≤ s'.running

theorem Steady.pumpLoop (l : List ℕ) : ∀ {s : Store}, s.Steady c → Pumped c l s (pumpLoop c l s) := by
  induction l with
  | nil => exact fun h ↦ ⟨h, rfl, rfl, fun _ ↦ rfl, fun _ h ↦ h, fun e he ↦ (List.not_mem_nil he).elim⟩
  | cons e rest ih =>
    intro s h
    rw [Store.pumpLoop]
    by_cases hfull : s.running ≥ c.concurrency
    · rw [if_pos hfull]
      exact ⟨h, rfl, rfl, fun _ ↦ rfl, fun _ h ↦ h, fun _ _ _ _ ↦ hfull⟩
    · rw [if_neg hfull]
      by_cases hskip : (s.heap e).state ≠ .queued ∨ (s.heap e).clients = []
      · rw [if_pos hskip]
        obtain ⟨hsteady, hentries, hclosed, hclients, hqueued, hbusy⟩ := ih h
        refine ⟨hsteady, hentries, hclosed, hclients, hqueued, List.forall_mem_cons.2 ⟨?_, hbusy⟩⟩
        intro hstate hne
        rcases hskip with hskip | hskip
        · exact (hskip (hqueued e hstate)).elim
        · exact (hne ((hclients e).trans hskip)).elim
      · rw [if_neg hskip]
        simp only [not_or, ne_eq, not_not] at hskip
        obtain ⟨hsteady, hentries, hclosed, hclients, hqueued, hbusy⟩ :=
          ih (h.start hskip.1 (Nat.lt_of_not_le hfull))
        refine ⟨hsteady, hentries, hclosed, fun e' ↦ (hclients e').trans (start_clients s e e'), ?_,
          List.forall_mem_cons.2 ⟨?_, hbusy⟩⟩
        · intro e' hstate
          have hstate' := hqueued e' hstate
          by_cases he : e' = e
          · rw [he, start_state_self] at hstate'
            cases hstate'
          · rwa [start_heap_of_ne he] at hstate'
        · intro hstate _
          have hstate' := hqueued e hstate
          rw [start_state_self] at hstate'
          cases hstate'

theorem Steady.pump (h : s.Steady c) : (s.pump c).Sound c := by
  rw [Store.pump]
  cases hclosed : s.closed with
  | true =>
    rw [if_pos rfl]
    exact ⟨h, fun hopen ↦ Bool.noConfusion (hopen.symm.trans hclosed)⟩
  | false =>
    rw [if_neg Bool.false_ne_true]
    have hpumped := h.pumpLoop s.entries
    refine ⟨hpumped.toSteady, fun _ e he ↦ hpumped.busy e ?_⟩
    rwa [hpumped.entries] at he

/-! ### New leases -/

theorem attach_heap (s : Store) (e : ℕ) (now : ℤ) : (s.attach e now).heap = (s.modify e fun entry ↦
    { entry with clients := entry.clients ++ [s.nextClient] }).heap :=
  rfl

theorem attach_heap_self (s : Store) (e : ℕ) (now : ℤ) : (s.attach e now).heap e =
    { s.heap e with clients := (s.heap e).clients ++ [s.nextClient] } := by
  rw [attach_heap, modify_heap_self]

theorem attach_heap_of_ne {e e' : ℕ} (h : e' ≠ e) (now : ℤ) : (s.attach e now).heap e' = s.heap e' := by
  rw [attach_heap, modify_heap_of_ne h]

/-- A field other than the clients is as before. -/
theorem attach_heap_congr {α : Type} (g : Entry → α)
    (hg : ∀ entry clients, g { entry with clients := clients } = g entry) (e e' : ℕ) (now : ℤ) :
    g ((s.attach e now).heap e') = g (s.heap e') := by
  rw [attach_heap, modify_heap_congr g (hg _ _)]

theorem Linked.attach (h : s.Linked) {e : ℕ} (he : e ∈ s.entries) (now : ℤ) : (s.attach e now).Linked := by
  have hfresh : ∀ id ∈ s.clients, id ≠ s.nextClient := by
    rintro id hid rfl
    exact Nat.lt_irrefl _ (h.clients_lt _ hid)
  have hold : ∀ {id}, id ≠ s.nextClient → (s.attach e now).lease id = s.lease id :=
    fun hid ↦ Function.update_of_ne hid ..
  have hnew : (s.attach e now).lease s.nextClient = ⟨e, now⟩ := Function.update_self ..
  refine ⟨h.entries_nodup, ?_, h.entries_lt, ?_, ?_, ?_, ?_⟩
  · refine List.nodup_append.2 ⟨h.clients_nodup, List.nodup_singleton _, ?_⟩
    intro id hid id' hid'
    rw [List.mem_singleton.1 hid']
    exact hfresh id hid
  · intro id hid
    rcases List.mem_append.1 hid with hid | hid
    · exact Nat.lt_succ_of_lt (h.clients_lt id hid)
    · rw [List.mem_singleton.1 hid]
      exact Nat.lt_succ_self _
  · intro id hid
    rcases List.mem_append.1 hid with hid | hid
    · rw [hold (hfresh id hid)]
      obtain ⟨hentry, hmem⟩ := h.held id hid
      refine ⟨hentry, ?_⟩
      by_cases heq : (s.lease id).entry = e
      · rw [heq] at hmem ⊢
        rw [attach_heap_self]
        exact List.mem_append_left _ hmem
      · rw [attach_heap_of_ne heq]
        exact hmem
    · rw [List.mem_singleton.1 hid, hnew, attach_heap_self]
      exact ⟨he, List.mem_append_right _ List.mem_cons_self⟩
  · intro e' id hid
    have hcases : id ∈ (s.heap e').clients ∨ e' = e ∧ id = s.nextClient := by
      by_cases heq : e' = e
      · subst heq
        rw [attach_heap_self] at hid
        rcases List.mem_append.1 hid with hid | hid
        · exact .inl hid
        · exact .inr ⟨rfl, List.mem_singleton.1 hid⟩
      · rw [attach_heap_of_ne heq] at hid
        exact .inl hid
    rcases hcases with hid | ⟨rfl, rfl⟩
    · obtain ⟨hmem, hlease⟩ := h.listed e' id hid
      rw [hold (hfresh id hmem)]
      exact ⟨List.mem_append_left _ hmem, hlease⟩
    · rw [hnew]
      exact ⟨List.mem_append_right _ List.mem_cons_self, rfl⟩
  · intro k e' hk
    rw [attach_heap_congr Entry.key (fun _ _ ↦ rfl)]
    exact h.named k e' hk

/-- The entry that gets a client may have been without one. -/
theorem Steady.attach (hlinked : s.Linked) (hworking : s.Working) (hbounded : s.Bounded c) {e : ℕ}
    (he : e ∈ s.entries)
    (hwanted : ∀ e' ≠ e, (s.heap e').state.active = true → e' ∈ s.entries ∧ (s.heap e').clients ≠ [])
    (hroom : s.clients.length < c.maxClients) (now : ℤ) : (s.attach e now).Steady c := by
  have hstate : ∀ e', ((s.attach e now).heap e').state = (s.heap e').state :=
    fun e' ↦ attach_heap_congr Entry.state (fun _ _ ↦ rfl) e e' now
  have hbytes : ∀ e', ((s.attach e now).heap e').bytes = (s.heap e').bytes :=
    fun e' ↦ attach_heap_congr Entry.bytes (fun _ _ ↦ rfl) e e' now
  refine ⟨hlinked.attach he now, ?_, ⟨?_, hworking.started_nodup, ?_, ?_⟩, ⟨hbounded.slots,
    hbounded.concurrency, ?_, hbounded.entries, ?_⟩⟩
  · intro e' hactive
    rw [hstate] at hactive
    by_cases heq : e' = e
    · subst heq
      rw [attach_heap_self]
      exact ⟨he, List.append_ne_nil_of_right_ne_nil _ (List.cons_ne_nil _ _)⟩
    · rw [attach_heap_of_ne heq]
      exact hwanted e' heq hactive
  · intro e' hne
    rw [hstate] at hne
    rw [hbytes]
    exact hworking.bytes e' hne
  · intro e' hstarted
    rw [hstate]
    exact hworking.started e' hstarted
  · intro e' hrunning
    rw [hstate] at hrunning
    exact hworking.running e' hrunning
  · rw [show (s.attach e now).clients = s.clients ++ [s.nextClient] from rfl, List.length_append,
      List.length_singleton]
    exact hroom
  · have hused : (s.attach e now).used = s.used :=
      congrArg List.sum (List.map_congr_left fun e' _ ↦ hbytes e')
    rw [hused]
    exact hbounded.bytes

/-! ### New entries -/

theorem insert_heap_self (s : Store) (request : Request) :
    (s.insert request).heap s.nextEntry = .new request :=
  Function.update_self ..

theorem insert_heap_of_ne (request : Request) {e : ℕ} (h : e ≠ s.nextEntry) :
    (s.insert request).heap e = s.heap e :=
  Function.update_of_ne h ..

theorem Linked.ne_nextEntry (h : s.Linked) {e : ℕ} (he : e ∈ s.entries) : e ≠ s.nextEntry :=
  Nat.ne_of_lt (h.entries_lt e he)

theorem Linked.insert (h : s.Linked) (request : Request) : (s.insert request).Linked := by
  refine ⟨?_, h.clients_nodup, ?_, h.clients_lt, ?_, ?_, ?_⟩
  · refine List.nodup_append.2 ⟨h.entries_nodup, List.nodup_singleton _, ?_⟩
    intro e he e' he'
    rw [List.mem_singleton.1 he']
    exact h.ne_nextEntry he
  · intro e he
    rcases List.mem_append.1 he with he | he
    · exact Nat.lt_succ_of_lt (h.entries_lt e he)
    · rw [List.mem_singleton.1 he]
      exact Nat.lt_succ_self _
  · intro id hid
    obtain ⟨hentry, hmem⟩ := h.held id hid
    refine ⟨List.mem_append_left _ hentry, ?_⟩
    rw [show (s.insert request).lease = s.lease from rfl, insert_heap_of_ne request (h.ne_nextEntry hentry)]
    exact hmem
  · intro e id hid
    by_cases he : e = s.nextEntry
    · rw [he, insert_heap_self] at hid
      exact (List.not_mem_nil hid).elim
    · rw [insert_heap_of_ne request he] at hid
      exact h.listed e id hid
  · intro k e hk
    by_cases hkey : k = request.key
    · subst hkey
      have hk' : Function.update s.byKey request.key (some s.nextEntry) request.key = some e := hk
      rw [Function.update_self, Option.some.injEq] at hk'
      rw [← hk', insert_heap_self]
      exact ⟨List.mem_append_right _ List.mem_cons_self, rfl⟩
    · have hk' : Function.update s.byKey request.key (some s.nextEntry) k = some e := hk
      rw [Function.update_of_ne hkey] at hk'
      obtain ⟨hmem, hname⟩ := h.named k e hk'
      rw [insert_heap_of_ne request (h.ne_nextEntry hmem)]
      exact ⟨List.mem_append_left _ hmem, hname⟩

theorem Steady.insert_attach (h : s.Steady c) (request : Request)
    (hclients : s.clients.length < c.maxClients) (hentries : s.entries.length < c.maxJobs) (now : ℤ) :
    ((s.insert request).attach s.nextEntry now).Steady c := by
  have hactive : ∀ {e}, (s.heap e).state.active = true → e ≠ s.nextEntry :=
    fun ha ↦ h.linked.ne_nextEntry (h.wanted _ ha).1
  refine Steady.attach (h.linked.insert request) ⟨?_, h.working.started_nodup, ?_, ?_⟩ ⟨h.bounded.slots,
    h.bounded.concurrency, h.bounded.clients, ?_, ?_⟩ (List.mem_append_right _ List.mem_cons_self) ?_
    hclients now
  · intro e hstate
    by_cases he : e = s.nextEntry
    · rw [he, insert_heap_self]
      rfl
    · rw [insert_heap_of_ne request he] at hstate ⊢
      exact h.working.bytes e hstate
  · intro e he
    obtain ⟨hlt, hstate⟩ := h.working.started e he
    rw [insert_heap_of_ne request (Nat.ne_of_lt hlt)]
    exact ⟨Nat.lt_succ_of_lt hlt, hstate⟩
  · intro e hrunning
    by_cases he : e = s.nextEntry
    · rw [he, insert_heap_self] at hrunning
      cases hrunning
    · rw [insert_heap_of_ne request he] at hrunning
      exact h.working.running e hrunning
  · rw [show (s.insert request).entries = s.entries ++ [s.nextEntry] from rfl, List.length_append,
      List.length_singleton]
    exact hentries
  · have hold : (s.entries.map fun e ↦ ((s.insert request).heap e).bytes) =
        s.entries.map fun e ↦ (s.heap e).bytes := by
      apply List.map_congr_left
      intro e he
      rw [insert_heap_of_ne request (h.linked.ne_nextEntry he)]
    have hused : (s.insert request).used = s.used := by
      rw [used, show (s.insert request).entries = s.entries ++ [s.nextEntry] from rfl, List.map_append,
        List.sum_append, hold, List.map_singleton, insert_heap_self]
      rfl
    rw [hused]
    exact h.bounded.bytes
  · intro e he ha
    rw [insert_heap_of_ne request he] at ha ⊢
    exact ⟨List.mem_append_left _ (h.wanted e ha).1, (h.wanted e ha).2⟩

end Store

end JobStore
