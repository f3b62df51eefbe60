import EezDashboard.Jobs.Store

/-!
# Leases

A client's entry lists the client, a listed client exists, and a key names an entry of its own.  What
dropping leases and removing entries may do is said once, by `Spares`: an entry that somebody still holds
stays as it was, and work that nobody holds is cancelled and removed.  `release`, `sweep` and the evictions
all do no more than that, so that every invariant follows from it.
-/

set_option autoImplicit false

namespace JobStore

namespace Store

variable {s s' s'' : Store}

/-- Clients, entries and keys refer to each other. -/
structure Linked (s : Store) : Prop where
  entries_nodup : s.entries.Nodup
  clients_nodup : s.clients.Nodup
  entries_lt : ∀ e ∈ s.entries, e < s.nextEntry
  clients_lt : ∀ id ∈ s.clients, id < s.nextClient
  held : ∀ id ∈ s.clients, (s.lease id).entry ∈ s.entries ∧ id ∈ (s.heap (s.lease id).entry).clients
  listed : ∀ e, ∀ id ∈ (s.heap e).clients, id ∈ s.clients ∧ (s.lease id).entry = e
  named : ∀ k e, s.byKey k = some e → e ∈ s.entries ∧ (s.heap e).key = k

/-- Work is only done for somebody. -/
def Wanted (s : Store) : Prop :=
  ∀ e, (s.heap e).state.active = true → e ∈ s.entries ∧ (s.heap e).clients ≠ []

/-! ### Assignments -/

@[simp] theorem modify_heap_self (s : Store) (e : ℕ) (f : Entry → Entry) :
    (s.modify e f).heap e = f (s.heap e) :=
  Function.update_self ..

theorem modify_heap_of_ne {e e' : ℕ} (h : e' ≠ e) (f : Entry → Entry) :
    (s.modify e f).heap e' = s.heap e' :=
  Function.update_of_ne h ..

/-- A field that the assignment keeps is the same at every address. -/
theorem modify_heap_congr {α : Type} (g : Entry → α) {e : ℕ} {f : Entry → Entry}
    (h : g (f (s.heap e)) = g (s.heap e)) (e' : ℕ) : g ((s.modify e f).heap e') = g (s.heap e') := by
  by_cases he : e' = e
  · subst he
    rw [modify_heap_self, h]
  · rw [modify_heap_of_ne he]

theorem Linked.modify (h : s.Linked) {e : ℕ} {f : Entry → Entry}
    (hkey : (f (s.heap e)).key = (s.heap e).key) (hclients : (f (s.heap e)).clients = (s.heap e).clients) :
    (s.modify e f).Linked where
  entries_nodup := h.entries_nodup
  clients_nodup := h.clients_nodup
  entries_lt := h.entries_lt
  clients_lt := h.clients_lt
  held id hid := by
    rw [modify_heap_congr Entry.clients hclients]
    exact h.held id hid
  listed e' id hid := by
    rw [modify_heap_congr Entry.clients hclients] at hid
    exact h.listed e' id hid
  named k e' hk := by
    rw [modify_heap_congr Entry.key hkey]
    exact h.named k e' hk

/-- What does not concern clients and entries keeps the links. -/
theorem Linked.congr (h : s.Linked) (hheap : s'.heap = s.heap) (hentries : s'.entries = s.entries)
    (hkeys : s'.byKey = s.byKey) (hclients : s'.clients = s.clients)
    (hlease : ∀ id, (s'.lease id).entry = (s.lease id).entry)
    (hnext : s'.nextEntry = s.nextEntry ∧ s'.nextClient = s.nextClient) : s'.Linked where
  entries_nodup := hentries ▸ h.entries_nodup
  clients_nodup := hclients ▸ h.clients_nodup
  entries_lt := by rw [hentries, hnext.1]; exact h.entries_lt
  clients_lt := by rw [hclients, hnext.2]; exact h.clients_lt
  held id hid := by
    rw [hlease, hentries, hheap]
    exact h.held id (hclients ▸ hid)
  listed e id hid := by
    rw [hlease, hclients]
    exact h.listed e id (hheap ▸ hid)
  named k e hk := by
    rw [hentries, hheap]
    exact h.named k e (hkeys ▸ hk)

/-! ### What dropping leases may do -/

/-- From `s` to `s'` only leases were dropped, and entries that nobody holds. -/
structure Spares (s s' : Store) : Prop where
  clients : s'.clients.Sublist s.clients
  lease : s'.lease = s.lease
  /-- an entry forgets the clients that are gone -/
  forgets : ∀ e, (s'.heap e).clients = (s.heap e).clients.filter (· ∈ s'.clients)
  /-- an entry that somebody still holds is otherwise as it was -/
  spared : ∀ e, (s'.heap e).clients ≠ [] → (e ∈ s.entries → e ∈ s'.entries) ∧
    (∀ k, s.byKey k = some e → s'.byKey k = some e) ∧
    s'.heap e = { s.heap e with clients := (s'.heap e).clients }
  /-- work that nobody holds is cancelled and removed -/
  cancelled : ∀ e, (s.heap e).state.active = true → (s'.heap e).clients = [] →
    s'.heap e = { s.heap e with
      clients := []
      state := .cancelled
      handle := (s.heap e).handle.map Handle.cancel } ∧
    e ∉ s'.entries ∧ ∀ k, s'.byKey k ≠ some e
  /-- what is over stays as it is, until it is removed -/
  idle : ∀ e, (s.heap e).state.active = false →
    s'.heap e = { s.heap e with clients := (s'.heap e).clients }
  entries : s'.entries.Sublist s.entries
  byKey : ∀ k e, s'.byKey k = some e → s.byKey k = some e ∧ e ∈ s'.entries
  rest : s'.nextEntry = s.nextEntry ∧ s'.nextClient = s.nextClient ∧ s'.running = s.running ∧
    s'.closed = s.closed ∧ s'.started = s.started ∧ s'.phase = s.phase

theorem Spares.refl (h : s.Linked) (hw : s.Wanted) : Spares s s where
  clients := List.Sublist.refl _
  lease := rfl
  forgets e := by
    symm
    rw [List.filter_eq_self]
    intro id hid
    rw [decide_eq_true_iff]
    exact (h.listed e id hid).1
  spared _ _ := ⟨id, fun _ ↦ id, rfl⟩
  cancelled e hactive hnil := ((hw e hactive).2 hnil).elim
  idle _ _ := rfl
  entries := List.Sublist.refl _
  byKey k e hk := ⟨hk, (h.named k e hk).1⟩
  rest := ⟨rfl, rfl, rfl, rfl, rfl, rfl⟩

theorem Spares.trans (h : Spares s s') (h' : Spares s' s'') : Spares s s'' where
  clients := h'.clients.trans h.clients
  lease := h'.lease.trans h.lease
  forgets e := by
    rw [h'.forgets, h.forgets, List.filter_filter]
    apply List.filter_congr
    intro id hid
    rw [Bool.eq_iff_iff, Bool.and_eq_true, decide_eq_true_iff, decide_eq_true_iff]
    exact ⟨And.left, fun hmem ↦ ⟨hmem, h'.clients.subset hmem⟩⟩
  spared e hne := by
    have hne' : (s'.heap e).clients ≠ [] := by
      intro hnil
      rw [h'.forgets, hnil] at hne
      exact hne rfl
    obtain ⟨hentry, hkey, hheap⟩ := h.spared e hne'
    obtain ⟨hentry', hkey', hheap'⟩ := h'.spared e hne
    refine ⟨hentry' ∘ hentry, fun k ↦ hkey' k ∘ hkey k, ?_⟩
    rw [hheap', hheap]
  cancelled e hactive hnil := by
    by_cases hnil' : (s'.heap e).clients = []
    · obtain ⟨hheap, hentry, hkey⟩ := h.cancelled e hactive hnil'
      refine ⟨?_, fun hmem ↦ hentry (h'.entries.subset hmem), fun k hk ↦ hkey k (h'.byKey k e hk).1⟩
      rw [h'.idle e (by rw [hheap]; rfl), hnil, hheap]
    · have hheap := (h.spared e hnil').2.2
      have hactive' : (s'.heap e).state.active = true := by rw [hheap]; exact hactive
      obtain ⟨hheap', hrest⟩ := h'.cancelled e hactive' hnil
      refine ⟨?_, hrest⟩
      rw [hheap', hheap]
  idle e hidle := by
    have hheap := h.idle e hidle
    rw [h'.idle e (by rw [hheap]; exact hidle), hheap]
  entries := h'.entries.trans h.entries
  byKey k e hk := ⟨(h.byKey k e (h'.byKey k e hk).1).1, (h'.byKey k e hk).2⟩
  rest := by
    obtain ⟨h1, h2, h3, h4, h5, h6⟩ := h.rest
    obtain ⟨h1', h2', h3', h4', h5', h6'⟩ := h'.rest
    exact ⟨h1'.trans h1, h2'.trans h2, h3'.trans h3, h4'.trans h4, h5'.trans h5, h6'.trans h6⟩

/-- Either an entry only forgot clients, or it was cancelled. -/
theorem Spares.heap (h : Spares s s') (e : ℕ) :
    s'.heap e = { s.heap e with clients := (s'.heap e).clients } ∨
      (s.heap e).state.active = true ∧ s'.heap e = { s.heap e with
        clients := []
        state := .cancelled
        handle := (s.heap e).handle.map Handle.cancel } := by
  cases hactive : (s.heap e).state.active with
  | false => exact .inl (h.idle e hactive)
  | true =>
    by_cases hnil : (s'.heap e).clients = []
    · exact .inr ⟨rfl, (h.cancelled e hactive hnil).1⟩
    · exact .inl (h.spared e hnil).2.2

theorem Spares.key (h : Spares s s') (e : ℕ) : (s'.heap e).key = (s.heap e).key := by
  rcases h.heap e with heq | ⟨-, heq⟩ <;> rw [heq]

theorem Spares.bytes (h : Spares s s') (e : ℕ) : (s'.heap e).bytes = (s.heap e).bytes := by
  rcases h.heap e with heq | ⟨-, heq⟩ <;> rw [heq]

/-- What is still on its way was so before, and somebody waits for it. -/
theorem Spares.active (h : Spares s s') {e : ℕ} (hactive : (s'.heap e).state.active = true) :
    (s'.heap e).state = (s.heap e).state ∧ (s'.heap e).clients ≠ [] := by
  have hstate : (s'.heap e).state = (s.heap e).state := by
    rcases h.heap e with heq | ⟨-, heq⟩
    · rw [heq]
    · rw [heq] at hactive
      cases hactive
  refine ⟨hstate, fun hnil ↦ ?_⟩
  rw [(h.cancelled e (hstate ▸ hactive) hnil).1] at hactive
  cases hactive

theorem Spares.linked (h : Spares s s') (hs : s.Linked) : s'.Linked where
  entries_nodup := h.entries.nodup hs.entries_nodup
  clients_nodup := h.clients.nodup hs.clients_nodup
  entries_lt e he := h.rest.1 ▸ hs.entries_lt e (h.entries.subset he)
  clients_lt id hid := h.rest.2.1 ▸ hs.clients_lt id (h.clients.subset hid)
  held id hid := by
    obtain ⟨hentry, hmem⟩ := hs.held id (h.clients.subset hid)
    have hmem' : id ∈ (s'.heap (s.lease id).entry).clients := by
      rw [h.forgets, List.mem_filter, decide_eq_true_iff]
      exact ⟨hmem, hid⟩
    rw [h.lease]
    exact ⟨(h.spared _ (List.ne_nil_of_mem hmem')).1 hentry, hmem'⟩
  listed e id hid := by
    rw [h.forgets, List.mem_filter, decide_eq_true_iff] at hid
    rw [h.lease]
    exact ⟨hid.2, (hs.listed e id hid.1).2⟩
  named k e hk := by
    obtain ⟨hk', he⟩ := h.byKey k e hk
    exact ⟨he, (h.key e).trans (hs.named k e hk').2⟩

theorem Spares.wanted (h : Spares s s') (hw : s.Wanted) : s'.Wanted := by
  intro e hactive
  obtain ⟨hstate, hne⟩ := h.active hactive
  exact ⟨(h.spared e hne).1 (hw e (hstate ▸ hactive)).1, hne⟩

/-! ### Removal -/

theorem mem_remove {e e' : ℕ} : e' ∈ (s.remove e).entries ↔ e' ∈ s.entries ∧ e' ≠ e := by
  simp [remove]

/-- After `remove` no key names the entry, and the other keys are as they were. -/
theorem byKey_remove (h : ∀ k e, s.byKey k = some e → (s.heap e).key = k) (e : ℕ) (k : String) (e' : ℕ) :
    (s.remove e).byKey k = some e' ↔ s.byKey k = some e' ∧ e' ≠ e := by
  rw [remove]
  dsimp only
  by_cases hkey : s.byKey (s.heap e).key = some e
  · rw [if_pos hkey]
    by_cases hk : k = (s.heap e).key
    · subst hk
      rw [Function.update_self, hkey]
      simp only [reduceCtorEq, Option.some.injEq, false_iff, not_and, not_not]
      exact Eq.symm
    · rw [Function.update_of_ne hk]
      refine ⟨fun he ↦ ⟨he, ?_⟩, And.left⟩
      rintro rfl
      exact hk (h k e' he).symm
  · rw [if_neg hkey]
    refine ⟨fun he ↦ ⟨he, ?_⟩, And.left⟩
    rintro rfl
    rw [← h k e' he] at he
    exact hkey he

theorem unused_iff {e : ℕ} :
    s.unused e = true ↔ (s.heap e).clients = [] ∧ (s.heap e).state.active = false := by
  rw [unused, Bool.and_eq_true, List.isEmpty_iff, Bool.not_eq_true']

/-- An unused entry may be removed. -/
theorem Spares.remove (h : s.Linked) (hw : s.Wanted) {e : ℕ} (he : (s.heap e).clients = [])
    (hidle : (s.heap e).state.active = false) : Spares s (s.remove e) := by
  have hrefl := Spares.refl h hw
  have hkeys := byKey_remove (fun k e hk ↦ (h.named k e hk).2) e
  refine { hrefl with
    spared := ?_, cancelled := ?_, entries := List.filter_sublist, byKey := ?_ }
  · intro e' hne
    have hne' : e' ≠ e := by
      rintro rfl
      exact hne he
    exact ⟨fun hmem ↦ mem_remove.2 ⟨hmem, hne'⟩, fun k hk ↦ (hkeys k e').2 ⟨hk, hne'⟩, rfl⟩
  · intro e' hactive hnil
    exact ((hw e' hactive).2 hnil).elim
  · intro k e' hk
    obtain ⟨hk', hne⟩ := (hkeys k e').1 hk
    exact ⟨hk', mem_remove.2 ⟨(h.named k e' hk').1, hne⟩⟩

/-! ### Releasing -/

theorem mem_dropLease {id id' : ℕ} : id' ∈ (s.dropLease id).clients ↔ id' ∈ s.clients ∧ id' ≠ id := by
  simp [dropLease, modify]

theorem dropLease_heap_of_ne {id e : ℕ} (he : e ≠ (s.lease id).entry) :
    (s.dropLease id).heap e = s.heap e :=
  modify_heap_of_ne he _

/-- Every entry forgets the client, as only its own entry lists it. -/
theorem Linked.dropLease_heap (h : s.Linked) (id e : ℕ) :
    (s.dropLease id).heap e =
      { s.heap e with clients := (s.heap e).clients.filter (· ∈ (s.dropLease id).clients) } := by
  have hfilter : (s.heap e).clients.filter (· ∈ (s.dropLease id).clients) =
      (s.heap e).clients.filter (· ≠ id) := by
    apply List.filter_congr
    intro id' hid'
    rw [Bool.eq_iff_iff, decide_eq_true_iff, decide_eq_true_iff, mem_dropLease]
    exact ⟨And.right, fun hne ↦ ⟨(h.listed e id' hid').1, hne⟩⟩
  rw [hfilter]
  by_cases he : e = (s.lease id).entry
  · subst he
    exact modify_heap_self ..
  · have hself : (s.heap e).clients.filter (· ≠ id) = (s.heap e).clients := by
      rw [List.filter_eq_self]
      intro id' hid'
      rw [decide_eq_true_iff]
      rintro rfl
      exact he (h.listed e id' hid').2.symm
    rw [hself]
    exact dropLease_heap_of_ne he

/-- The entry still has a client, or is over. -/
theorem Spares.dropLease (h : s.Linked) (hw : s.Wanted) {id : ℕ}
    (hkeep : ¬(((s.dropLease id).heap (s.lease id).entry).clients = [] ∧
      ((s.dropLease id).heap (s.lease id).entry).state.active = true)) : Spares s (s.dropLease id) where
  clients := List.filter_sublist
  lease := rfl
  forgets e := by rw [h.dropLease_heap]
  spared e _ := ⟨fun hmem ↦ hmem, fun _ hk ↦ hk, by rw [h.dropLease_heap]⟩
  cancelled e hactive hnil := by
    by_cases he : e = (s.lease id).entry
    · subst he
      refine (hkeep ⟨hnil, ?_⟩).elim
      rw [h.dropLease_heap]
      exact hactive
    · rw [dropLease_heap_of_ne he] at hnil
      exact ((hw e hactive).2 hnil).elim
  idle e _ := by rw [h.dropLease_heap]
  entries := List.Sublist.refl _
  byKey k e hk := ⟨hk, (h.named k e hk).1⟩
  rest := ⟨rfl, rfl, rfl, rfl, rfl, rfl⟩

/-- The entry was on its way, and its last client has gone. -/
theorem Spares.cancel (h : s.Linked) (hw : s.Wanted) {id : ℕ}
    (hnil : ((s.dropLease id).heap (s.lease id).entry).clients = [])
    (hactive : ((s.dropLease id).heap (s.lease id).entry).state.active = true) :
    Spares s ((s.dropLease id).cancel (s.lease id).entry) := by
  set e := (s.lease id).entry
  set f : Entry → Entry := fun entry ↦
    { entry with state := .cancelled, handle := entry.handle.map Handle.cancel }
  have hclients : ∀ e', (((s.dropLease id).modify e f).heap e').clients =
      ((s.dropLease id).heap e').clients := modify_heap_congr Entry.clients rfl
  have hkeys : ∀ k e', ((s.dropLease id).cancel e).byKey k = some e' ↔ s.byKey k = some e' ∧ e' ≠ e := by
    refine byKey_remove (s := (s.dropLease id).modify e f) (fun k e' hk ↦ ?_) e
    rw [modify_heap_congr Entry.key rfl, h.dropLease_heap]
    exact (h.named k e' hk).2
  have hne : ∀ e', (((s.dropLease id).modify e f).heap e').clients ≠ [] → e' ≠ e := by
    rintro e' hne rfl
    exact hne ((hclients e).trans hnil)
  have hdrop := h.dropLease_heap id e
  refine ⟨List.filter_sublist, rfl, ?_, ?_, ?_, ?_, List.filter_sublist, ?_, ⟨rfl, rfl, rfl, rfl, rfl, rfl⟩⟩
  · intro e'
    refine (hclients e').trans ?_
    rw [h.dropLease_heap]
    rfl
  · intro e' hne'
    have he := hne e' hne'
    refine ⟨fun hmem ↦ mem_remove.2 ⟨hmem, he⟩, fun k hk ↦ (hkeys k e').2 ⟨hk, he⟩, ?_⟩
    change ((s.dropLease id).modify e f).heap e' = { s.heap e' with
      clients := (((s.dropLease id).modify e f).heap e').clients }
    rw [modify_heap_of_ne he, h.dropLease_heap]
  · intro e' hactive' hnil'
    by_cases he : e' = e
    · rw [he] at *
      refine ⟨?_, fun hmem ↦ (mem_remove.1 hmem).2 rfl, fun k hk ↦ ((hkeys k e).1 hk).2 rfl⟩
      have hheap : (s.dropLease id).heap e = { s.heap e with clients := [] } := by
        rw [hdrop] at hnil
        rw [hdrop, show (s.heap e).clients.filter (· ∈ (s.dropLease id).clients) = [] from hnil]
      exact (modify_heap_self _ e f).trans (congrArg f hheap)
    · have hheap : ((s.dropLease id).cancel e).heap e' = s.heap e' :=
        (modify_heap_of_ne he f).trans (dropLease_heap_of_ne he)
      rw [hheap] at hnil'
      exact ((hw e' hactive').2 hnil').elim
  · intro e' hidle
    have he : e' ≠ e := by
      rintro rfl
      rw [hdrop] at hactive
      exact Bool.false_ne_true (hidle.symm.trans hactive)
    change ((s.dropLease id).modify e f).heap e' = { s.heap e' with
      clients := (((s.dropLease id).modify e f).heap e').clients }
    rw [modify_heap_of_ne he, h.dropLease_heap]
  · intro k e' hk
    obtain ⟨hk', he⟩ := (hkeys k e').1 hk
    exact ⟨hk', mem_remove.2 ⟨(h.named k e' hk').1, he⟩⟩

theorem Spares.release (h : s.Linked) (hw : s.Wanted) (id : ℕ) : Spares s (s.release id) := by
  rw [Store.release]
  split
  · exact .refl h hw
  · dsimp only
    split
    · rename_i hlast
      exact .cancel h hw hlast.1 hlast.2
    · rename_i hkeep
      exact .dropLease h hw hkeep

/-- Exactly the one lease goes. -/
theorem clients_release (s : Store) (id : ℕ) :
    (s.release id).clients = s.clients.filter (· ≠ id) := by
  rw [release]
  split
  · rename_i hid
    symm
    rw [List.filter_eq_self]
    intro id' hid'
    rw [decide_eq_true_iff]
    rintro rfl
    exact hid hid'
  · dsimp only
    split <;> rfl

/-! ### Sweeping -/

/-- A loop whose steps only drop leases and unused entries. -/
theorem Spares.foldl {f : Store → ℕ → Store} (hf : ∀ s e, s.Linked → s.Wanted → Spares s (f s e))
    (l : List ℕ) (h : s.Linked) (hw : s.Wanted) : Spares s (l.foldl f s) :=
  List.foldlRecOn l f (.refl h hw) fun s' hs' e _ ↦
    hs'.trans (hf s' e (hs'.linked h) (hs'.wanted hw))

theorem Spares.sweepLeases (c : Config) (clock : Clock) (h : s.Linked) (hw : s.Wanted) :
    Spares s (s.sweepLeases c clock) := by
  apply Spares.foldl _ _ h hw
  intro s id h hw
  split
  · exact .release h hw id
  · exact .refl h hw

theorem Spares.sweepEntries (clock : Clock) (h : s.Linked) (hw : s.Wanted) :
    Spares s (s.sweepEntries clock) := by
  apply Spares.foldl _ _ h hw
  intro s e h hw
  split
  · rename_i hexpired
    obtain ⟨hnil, hidle⟩ := unused_iff.1 (Bool.and_eq_true_iff.1 hexpired).1
    exact .remove h hw hnil hidle
  · exact .refl h hw

theorem Spares.sweep (c : Config) (clock : Clock) (h : s.Linked) (hw : s.Wanted) :
    Spares s (s.sweep c clock) := by
  have hleases := Spares.sweepLeases c clock h hw
  exact hleases.trans (.sweepEntries clock (hleases.linked h) (hleases.wanted hw))

theorem lease_release (s : Store) (id : ℕ) : (s.release id).lease = s.lease := by
  rw [release]
  split
  · rfl
  · dsimp only
    split <;> rfl

theorem clients_sweepEntries (clock : Clock) (s : Store) : (s.sweepEntries clock).clients = s.clients := by
  refine List.foldlRecOn s.entries _ (motive := fun s' : Store ↦ s'.clients = s.clients) rfl ?_
  intro s' hs' e _
  split
  · exact hs'
  · exact hs'

/-- Exactly the leases go that were not touched for too long. -/
theorem clients_sweep (c : Config) (clock : Clock) (s : Store) :
    (s.sweep c clock).clients =
      s.clients.filter fun id ↦ decide (clock.leases id - (s.lease id).touched ≤ c.leaseMs) := by
  have hloop : ∀ (l : List ℕ) (s : Store), (l.foldl (fun s id ↦
      if clock.leases id - (s.lease id).touched > c.leaseMs then s.release id else s) s).clients =
      s.clients.filter fun id ↦
        decide (id ∉ l ∨ clock.leases id - (s.lease id).touched ≤ c.leaseMs) := by
    intro l
    induction l with
    | nil =>
      intro s
      symm
      rw [List.foldl_nil, List.filter_eq_self]
      intro id _
      simp
    | cons a l ih =>
      intro s
      rw [List.foldl_cons, ih]
      split
      · rename_i hexpired
        rw [lease_release, clients_release, List.filter_filter]
        apply List.filter_congr
        intro id _
        rw [Bool.eq_iff_iff, Bool.and_eq_true, decide_eq_true_iff, decide_eq_true_iff,
          decide_eq_true_iff, List.mem_cons]
        by_cases hid : id = a
        · subst hid
          simp only [true_or, not_true_eq_false, false_or, ne_eq, and_false, false_iff]
          exact Int.not_le.2 hexpired
        · simp only [hid, false_or, ne_eq, not_false_eq_true, and_true]
      · rename_i hfresh
        apply List.filter_congr
        intro id _
        rw [Bool.eq_iff_iff, decide_eq_true_iff, decide_eq_true_iff, List.mem_cons]
        by_cases hid : id = a
        · subst hid
          simp only [true_or, not_true_eq_false, false_or]
          exact ⟨fun _ ↦ Int.not_lt.1 hfresh, .inr⟩
        · simp only [hid, false_or]
  rw [sweep, clients_sweepEntries, sweepLeases, hloop]
  apply List.filter_congr
  intro id hid
  simp [hid]

end Store

end JobStore
