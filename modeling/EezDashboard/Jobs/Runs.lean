import EezDashboard.Jobs.Slots

/-!
# Runs of the job store

Calls and callbacks in any order: each keeps the store sound, so in every store that is reached the leases, the
limits and the slots are as they should be.
-/

set_option autoImplicit false

namespace JobStore

namespace Store

variable {c : Config} {s s' : Store}

/-! ### Calls -/

/-- A lease may be touched. -/
theorem Sound.touch (h : s.Sound c) (id : ℕ) (now : ℤ) :
    Sound c { s with lease := Function.update s.lease id { s.lease id with touched := now } } := by
  have hentry : ∀ id', (Function.update s.lease id { s.lease id with touched := now } id').entry =
      (s.lease id').entry := by
    intro id'
    by_cases hid : id' = id
    · subst hid
      rw [Function.update_self]
    · rw [Function.update_of_ne hid]
  exact ⟨h.toSteady.congr rfl rfl rfl rfl hentry ⟨rfl, rfl⟩ ⟨rfl, rfl, rfl⟩, h.busy⟩

theorem Sound.client (h : s.Sound c) (clock : Clock) (id : ℕ) : (s.client c clock id).1.Sound c := by
  rw [Store.client]
  dsimp only
  split
  · exact h.sweep clock
  · exact (h.sweep clock).touch id clock.now

theorem Sound.status (h : s.Sound c) (clock : Clock) (id : ℕ) : (s.status c clock id).1.Sound c :=
  h.client clock id

theorem Sound.result (h : s.Sound c) (clock : Clock) (id : ℕ) : (s.result c clock id).1.Sound c :=
  h.client clock id

theorem Spares.evictLoop (l : List ℕ) : ∀ {s : Store}, s.Linked → s.Wanted → Spares s (evictLoop c l s) := by
  induction l with
  | nil => exact fun h hw ↦ .refl h hw
  | cons e rest ih =>
    intro s h hw
    have hstep : Spares s (if s.unused e then s.remove e else s) := by
      split
      · rename_i hunused
        obtain ⟨hnil, hidle⟩ := unused_iff.1 hunused
        exact .remove h hw hnil hidle
      · exact .refl h hw
    rw [Store.evictLoop]
    generalize (if s.unused e = true then s.remove e else s) = s' at hstep
    split
    · exact hstep
    · exact hstep.trans (ih (hstep.linked h) (hstep.wanted hw))

theorem Spares.evict (h : s.Linked) (hw : s.Wanted) : Spares s (s.evict c) := by
  rw [Store.evict]
  split
  · exact .evictLoop s.entries h hw
  · exact .refl h hw

theorem Linked.lookup_mem (h : s.Linked) {request : Request} {now : ℤ} {e : ℕ}
    (he : s.lookup request now = some e) : e ∈ s.entries := by
  rw [lookup, Option.filter_eq_some_iff] at he
  exact (h.named _ e he.1).1

theorem Sound.create (h : s.Sound c) (clock : Clock) (cached : ℤ) (clock' : Clock) (request : Request) :
    (s.create c clock cached clock' request).1.Sound c := by
  have hsweep := h.sweep clock
  rw [Store.create]
  dsimp only
  generalize s.sweep c clock = s at hsweep
  split
  · exact hsweep
  · rename_i hopen
    have hclients : s.clients.length < c.maxClients := Nat.lt_of_not_le fun hle ↦ hopen (.inr hle)
    split
    · rename_i e he
      have hattach : (s.attach e clock.now).Steady c := .attach hsweep.linked hsweep.working
        hsweep.bounded (hsweep.linked.lookup_mem he) (fun e' _ ha ↦ hsweep.wanted e' ha) hclients clock.now
      exact hattach.pump.status clock' _
    · have hspares : Spares s (s.evict c) := .evict hsweep.linked hsweep.wanted
      have hevict := hspares.sound hsweep
      have hclients' := Nat.lt_of_le_of_lt hspares.clients.length_le hclients
      generalize s.evict c = s at hevict hclients'
      split
      · exact hevict
      · rename_i hroom
        exact (hevict.toSteady.insert_attach request hclients' (Nat.lt_of_not_le hroom) clock.now).pump.status
          clock' _

/-- After `close` nothing is left, and what was on its way is cancelled. -/
theorem Sound.close (h : s.Sound c) : s.close.Sound c := by
  have hclosed : Sound c { s with closed := true } :=
    ⟨h.toSteady.congr rfl rfl rfl rfl (fun _ ↦ rfl) ⟨rfl, rfl⟩ ⟨rfl, rfl, rfl⟩, fun hc ↦ nomatch hc⟩
  have hall : ∀ (l : List ℕ) (s : Store),
      (l.foldl Store.release s).clients = s.clients.filter fun id ↦ decide (id ∉ l) := by
    intro l
    induction l with
    | nil => simp
    | cons a l ih =>
      intro s
      rw [List.foldl_cons, ih, clients_release, List.filter_filter]
      apply List.filter_congr
      intro id _
      rw [Bool.eq_iff_iff, Bool.and_eq_true, decide_eq_true_iff, decide_eq_true_iff, decide_eq_true_iff,
        List.mem_cons, not_or, and_comm]
  have hnil : (s.clients.foldl Store.release { s with closed := true }).clients = [] := by
    rw [hall, List.filter_eq_nil_iff]
    intro id hid
    simpa using hid
  have hspares : Spares { s with closed := true } (s.clients.foldl Store.release { s with closed := true }) :=
    .foldl (fun _ id hs hw ↦ .release hs hw id) s.clients hclosed.linked hclosed.wanted
  have hsound := hspares.sound hclosed
  have hopen : (s.clients.foldl Store.release { s with closed := true }).closed = true := hspares.rest.2.2.2.1
  rw [Store.close]
  generalize s.clients.foldl Store.release { s with closed := true } = s' at hnil hsound hopen
  have hidle : ∀ e, (s'.heap e).state.active ≠ true := by
    intro e hactive
    obtain ⟨id, hid⟩ := List.exists_mem_of_ne_nil _ (hsound.wanted e hactive).2
    have hmem := (hsound.linked.listed e id hid).1
    rw [hnil] at hmem
    exact List.not_mem_nil hmem
  refine ⟨⟨⟨List.nodup_nil, hsound.linked.clients_nodup, fun e he ↦ (List.not_mem_nil he).elim,
    hsound.linked.clients_lt, ?_, hsound.linked.listed, fun k e hk ↦ nomatch hk⟩,
    fun e ha ↦ (hidle e ha).elim, ⟨hsound.working.bytes, hsound.working.started_nodup,
    hsound.working.started, hsound.working.running⟩, ⟨hsound.bounded.slots, hsound.bounded.concurrency,
    hsound.bounded.clients, Nat.zero_le _, Nat.zero_le _⟩⟩, fun hc ↦ ?_⟩
  · intro id hid
    rw [show id ∈ s'.clients ↔ id ∈ ([] : List ℕ) by rw [hnil]] at hid
    exact (List.not_mem_nil hid).elim
  · exact Bool.noConfusion (hc.symm.trans hopen)

/-! ### Callbacks -/

/-- A chain may move on; it is only done when its entry does not run any more. -/
theorem Sound.setPhase (h : s.Sound c) (e : ℕ) {phase : Phase}
    (hphase : phase = .settled → (s.heap e).state ≠ .running) : (s.setPhase e phase).Sound c := by
  refine ⟨⟨h.linked.congr rfl rfl rfl rfl (fun _ ↦ rfl) ⟨rfl, rfl⟩, h.wanted, ⟨h.working.bytes,
    h.working.started_nodup, h.working.started, ?_⟩, ⟨h.bounded.slots, h.bounded.concurrency,
    h.bounded.clients, h.bounded.entries, h.bounded.bytes⟩⟩, h.busy⟩
  intro e' hrunning
  obtain ⟨hmem, hold⟩ := h.working.running e' hrunning
  refine ⟨hmem, ?_⟩
  by_cases he : e' = e
  · subst he
    rw [show (s.setPhase e' phase).phase e' = phase from Function.update_self ..]
    exact fun hsettled ↦ hphase hsettled hrunning
  · rw [show (s.setPhase e phase).phase e' = s.phase e' from Function.update_of_ne he ..]
    exact hold

/-- Assigning to an entry that goes on as before, or is over now. -/
theorem Sound.modify (h : s.Sound c) {e : ℕ} {f : Entry → Entry}
    (hkey : (f (s.heap e)).key = (s.heap e).key) (hclients : (f (s.heap e)).clients = (s.heap e).clients)
    (hstate : (f (s.heap e)).state = (s.heap e).state ∨ (f (s.heap e)).state.active = false)
    (hbytes : (f (s.heap e)).state ≠ .complete → (f (s.heap e)).bytes = 0)
    (hused : (s.modify e f).used ≤ c.maxCacheBytes) : (s.modify e f).Sound c := by
  have hactive : ∀ e', ((s.modify e f).heap e').state.active = true →
      ((s.modify e f).heap e').state = (s.heap e').state := by
    intro e' ha
    by_cases he : e' = e
    · subst he
      rw [modify_heap_self] at ha ⊢
      exact hstate.resolve_right fun hover ↦ Bool.noConfusion (ha.symm.trans hover)
    · rw [modify_heap_of_ne he]
  have hsame := modify_heap_congr (s := s) Entry.clients hclients
  refine ⟨⟨h.linked.modify hkey hclients, ?_, ⟨?_, h.working.started_nodup, ?_, ?_⟩, ⟨h.bounded.slots,
    h.bounded.concurrency, h.bounded.clients, h.bounded.entries, hused⟩⟩, ?_⟩
  · intro e' ha
    rw [hsame]
    exact h.wanted e' (hactive e' ha ▸ ha)
  · intro e' hne
    by_cases he : e' = e
    · subst he
      rw [modify_heap_self] at hne ⊢
      exact hbytes hne
    · rw [modify_heap_of_ne he] at hne ⊢
      exact h.working.bytes e' hne
  · intro e' he'
    obtain ⟨hlt, hne⟩ := h.working.started e' he'
    refine ⟨hlt, fun hqueued ↦ hne ?_⟩
    rw [← hactive e' (by rw [hqueued]; rfl), hqueued]
  · intro e' hrunning
    exact h.working.running e' (by rw [← hactive e' (by rw [hrunning]; rfl), hrunning])
  · intro hopen e' he' hqueued hne
    rw [hsame] at hne
    exact h.busy hopen e' he' (by rw [← hactive e' (by rw [hqueued]; rfl), hqueued]) hne

theorem used_modify (s : Store) {e : ℕ} {f : Entry → Entry}
    (hbytes : (f (s.heap e)).bytes = (s.heap e).bytes) : (s.modify e f).used = s.used :=
  congrArg List.sum (List.map_congr_left fun e' _ ↦ modify_heap_congr Entry.bytes hbytes e')

/-- One entry counts at most once. -/
theorem Linked.used_modify_le (h : s.Linked) (e : ℕ) (f : Entry → Entry) :
    (s.modify e f).used ≤ s.used + (f (s.heap e)).bytes := by
  have hsame : ∀ l : List ℕ, e ∉ l →
      (l.map fun e' ↦ ((s.modify e f).heap e').bytes) = l.map fun e' ↦ (s.heap e').bytes := by
    intro l he
    apply List.map_congr_left
    intro e' he'
    rw [modify_heap_of_ne]
    rintro rfl
    exact he he'
  rw [used, used, show (s.modify e f).entries = s.entries from rfl]
  by_cases he : e ∈ s.entries
  · have hperm := List.perm_cons_erase he
    rw [(hperm.map _).sum_eq, (hperm.map fun e' ↦ (s.heap e').bytes).sum_eq, List.map_cons, List.map_cons,
      List.sum_cons, List.sum_cons, hsame _ h.entries_nodup.not_mem_erase, modify_heap_self]
    omega
  · rw [hsame _ he]
    exact Nat.le_add_right _ _

theorem Sound.launch (h : s.Sound c) (e : ℕ) (returns : Except (Option String) Unit) :
    (s.launch e returns).Sound c := by
  unfold Store.launch
  split
  · rename_i hover
    exact h.setPhase e fun _ ↦ hover
  · cases returns with
    | error code => exact h.setPhase e fun hc ↦ nomatch hc
    | ok _ =>
      refine Sound.setPhase (h.modify rfl rfl (.inl rfl) (h.working.bytes e) ?_) e fun hc ↦ nomatch hc
      rw [used_modify s rfl]
      exact h.bounded.bytes

theorem Sound.progress (h : s.Sound c) (e : ℕ) (message : String) : (s.progress e message).Sound c := by
  rw [Store.progress]
  split
  · refine h.modify rfl rfl (.inl rfl) (h.working.bytes e) ?_
    rw [used_modify s rfl]
    exact h.bounded.bytes
  · exact h

theorem Sound.fail (h : s.Sound c) (e : ℕ) (code : Option String) (now : ℤ) :
    (s.fail c e code now).Sound c := by
  rw [Store.fail]
  split
  · rename_i hover
    exact h.setPhase e fun _ ↦ hover
  · rename_i hrunning
    simp only [ne_eq, not_not] at hrunning
    have hbytes : (s.heap e).bytes = 0 := by
      apply h.working.bytes
      rw [hrunning]
      exact State.noConfusion
    refine Sound.setPhase (h.modify rfl rfl (.inr rfl) (fun _ ↦ hbytes) ?_) e fun _ ↦ ?_
    · rw [used_modify s rfl]
      exact h.bounded.bytes
    · rw [modify_heap_self]
      exact State.noConfusion

/-- A slot becomes free when a chain is done, and `pump` fills it. -/
theorem Sound.finish (h : s.Sound c) {e : ℕ} (he : e ∈ s.started) (hphase : s.phase e = .settled) :
    (s.finish c e).Sound c := by
  have hlength : (s.started.filter (· ≠ e)).length = s.started.length - 1 := by
    rw [← List.length_erase_of_mem he, h.working.started_nodup.erase_eq_filter]
    congr 1
    apply List.filter_congr
    intro e' _
    rw [Bool.eq_iff_iff, decide_eq_true_iff, bne_iff_ne]
  apply Steady.pump
  refine ⟨h.linked.congr rfl rfl rfl rfl (fun _ ↦ rfl) ⟨rfl, rfl⟩, h.wanted, ⟨h.working.bytes,
    h.working.started_nodup.filter _, ?_, ?_⟩, ⟨?_, (Nat.sub_le _ _).trans h.bounded.concurrency,
    h.bounded.clients, h.bounded.entries, h.bounded.bytes⟩⟩
  · intro e' he'
    exact h.working.started e' (List.mem_of_mem_filter he')
  · intro e' hrunning
    obtain ⟨hmem, hne⟩ := h.working.running e' hrunning
    refine ⟨List.mem_filter.2 ⟨hmem, decide_eq_true ?_⟩, hne⟩
    rintro rfl
    exact hne hphase
  · rw [hlength, ← h.bounded.slots]

/-! ### Results -/

theorem makeRoom_heap (c : Config) (e bytes : ℕ) (l : List ℕ) :
    ∀ (s : Store) (used : ℤ), (makeRoom c e bytes l s used).1.heap = s.heap := by
  induction l with
  | nil => exact fun _ _ ↦ rfl
  | cons a rest ih =>
    intro s used
    rw [makeRoom]
    split
    · rfl
    · split
      · exact ih _ _
      · exact ih _ _

/-- Removing an entry frees its bytes. -/
theorem Linked.used_remove (h : s.Linked) {e : ℕ} (he : e ∈ s.entries) :
    (s.remove e).used + (s.heap e).bytes = s.used := by
  have hfilter : s.entries.filter (· ≠ e) = s.entries.erase e := by
    rw [h.entries_nodup.erase_eq_filter]
    apply List.filter_congr
    intro e' _
    rw [Bool.eq_iff_iff, decide_eq_true_iff, bne_iff_ne]
  rw [used, used, ((List.perm_cons_erase he).map _).sum_eq, List.map_cons, List.sum_cons, Nat.add_comm]
  change (s.heap e).bytes + ((s.entries.filter (· ≠ e)).map _).sum = _
  rw [hfilter]
  rfl

/-- Only unused results go, and the count of bytes stays right. -/
theorem makeRoom_spares (c : Config) (e bytes : ℕ) (l : List ℕ) : ∀ {s : Store}, s.Linked → s.Wanted →
    l.Nodup → (∀ a ∈ l, a ∈ s.entries) →
    Spares s (makeRoom c e bytes l s s.used).1 ∧
      (makeRoom c e bytes l s s.used).2 = (makeRoom c e bytes l s s.used).1.used := by
  induction l with
  | nil => exact fun h hw _ _ ↦ ⟨.refl h hw, rfl⟩
  | cons a rest ih =>
    intro s h hw hl hmem
    rw [List.nodup_cons] at hl
    rw [List.forall_mem_cons] at hmem
    rw [makeRoom]
    split
    · exact ⟨.refl h hw, rfl⟩
    · split
      · rename_i hcached
        have hremove : Spares s (s.remove a) := .remove h hw hcached.2.1 (by rw [hcached.2.2]; rfl)
        have hused : (s.used : ℤ) - (s.heap a).bytes = (s.remove a).used := by
          have := h.used_remove hmem.1
          omega
        have hrest : ∀ b ∈ rest, b ∈ (s.remove a).entries := by
          intro b hb
          refine mem_remove.2 ⟨hmem.2 b hb, ?_⟩
          rintro rfl
          exact hl.1 hb
        obtain ⟨hspares, hcount⟩ := ih (hremove.linked h) (hremove.wanted hw) hl.2 hrest
        rw [hused]
        exact ⟨hremove.trans hspares, hcount⟩
      · exact ih h hw hl.2 hmem.2

theorem Sound.deliver (h : s.Sound c) (e : ℕ) (result : Result) (now : ℤ) :
    (s.deliver c e result now).Sound c := by
  rw [Store.deliver]
  split
  · rename_i hover
    exact h.setPhase e fun _ ↦ hover
  · rename_i hrunning
    simp only [ne_eq, not_not] at hrunning
    dsimp only
    split
    · exact h.setPhase e fun hc ↦ nomatch hc
    · obtain ⟨hspares, hcount⟩ := makeRoom_spares c e result.json.utf8ByteSize s.entries h.linked h.wanted
        h.linked.entries_nodup fun _ ha ↦ ha
      have hheap := makeRoom_heap c e result.json.utf8ByteSize s.entries s s.used
      have hroom := hspares.sound h
      generalize makeRoom c e result.json.utf8ByteSize s.entries s s.used = room at *
      split
      · exact hroom.setPhase e fun hc ↦ nomatch hc
      · rename_i hfits
        refine Sound.setPhase (hroom.modify rfl rfl (.inr rfl) (fun hne ↦ (hne rfl).elim) ?_) e fun _ ↦ ?_
        · have hle := hroom.linked.used_modify_le e fun entry ↦ { entry with
            json := some result.json
            bytes := result.json.utf8ByteSize
            state := .complete
            progress := if result.isPartial then
                "Available trace data decoded; some evidence is missing"
              else "Trace decoded"
            expires := some (now + if result.isPartial then c.partialCacheMs else c.cacheMs) }
          refine hle.trans ?_
          dsimp only
          omega
        · rw [modify_heap_self]
          exact State.noConfusion

/-! ### Any order -/

theorem Sound.init : (init : Store).Sound c where
  linked := ⟨List.nodup_nil, List.nodup_nil, fun _ he ↦ (List.not_mem_nil he).elim,
    fun _ hid ↦ (List.not_mem_nil hid).elim, fun _ hid ↦ (List.not_mem_nil hid).elim,
    fun _ _ hid ↦ (List.not_mem_nil hid).elim, fun _ _ hk ↦ nomatch hk⟩
  wanted _ ha := nomatch ha
  working := ⟨fun _ _ ↦ rfl, List.nodup_nil, fun _ he ↦ (List.not_mem_nil he).elim, fun _ hr ↦ nomatch hr⟩
  bounded := ⟨rfl, Nat.zero_le _, Nat.zero_le _, Nat.zero_le _, Nat.zero_le _⟩
  busy _ _ he := (List.not_mem_nil he).elim

theorem Sound.step (h : s.Sound c) (op : Op) : (s.step c op).Sound c := by
  cases op with
  | create request clock cached clock' => exact h.create clock cached clock' request
  | status id clock => exact h.status clock id
  | result id clock => exact h.result clock id
  | release id => exact h.release id
  | sweep clock => exact h.sweep clock
  | close => exact h.close
  | launch e returns =>
    rw [Store.step]
    split
    · exact h.launch e returns
    · exact h
  | progress e message => exact h.progress e message
  | deliver e result now =>
    rw [Store.step]
    split
    · exact h.deliver e result now
    · exact h
  | reject e code =>
    rw [Store.step]
    split
    · exact h.setPhase e fun hc ↦ nomatch hc
    · exact h
  | fail e now =>
    rw [Store.step]
    split
    · split
      · exact h.fail e _ now
      · exact h
    · exact h
  | finish e =>
    rw [Store.step]
    split
    · rename_i hdone
      exact h.finish hdone.1 hdone.2
    · exact h

theorem Sound.run (c : Config) (ops : List Op) : (run c ops).Sound c :=
  List.foldlRecOn ops (Store.step c) Sound.init fun _ h op _ ↦ h.step op

/-- Whatever is called and settles in whatever order, the limits and the slots are kept, and dropping a lease
spares what others hold. -/
theorem run_sound (c : Config) (ops : List Op) :
    (run c ops).Sound c ∧
      (∀ id, Spares (run c ops) ((run c ops).release id) ∧
        ((run c ops).release id).clients = (run c ops).clients.filter (· ≠ id)) ∧
      ∀ clock, Spares (run c ops) ((run c ops).sweep c clock) ∧
        ((run c ops).sweep c clock).clients = (run c ops).clients.filter fun id ↦
          decide (clock.leases id - ((run c ops).lease id).touched ≤ c.leaseMs) := by
  have h := Sound.run c ops
  refine ⟨h, fun id ↦ ⟨.release h.linked h.wanted id, clients_release _ id⟩, fun clock ↦ ?_⟩
  exact ⟨.sweep c clock h.linked h.wanted, clients_sweep c clock _⟩

end Store

end JobStore
