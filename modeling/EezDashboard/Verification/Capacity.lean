import EezDashboard.Verification.Worker

/-!
# The queue stays within its capacity

However requests are enqueued while a tick is under way, the map and the directory have the same jobs, no more than
the capacity, and one tick at most has a job, which stays.  A request evicts at most one job, the oldest of those
that are completed, and only if there is no room for it otherwise.
-/

set_option autoImplicit false

namespace Verification

variable {X : Type} {w : Worker} {s s' : State X} {ref : ℕ} {id : String} {x : String × ℕ}

/-- The file has the job, as it is in memory unless it is being processed. -/
def State.Same (s : State X) (id : String) (ref : ℕ) (job : Job X) : Prop :=
  job.id = id ∧ job.request = (s.objects ref).request ∧ (s.processing ≠ some id → job = s.objects ref)

/-- What holds of the map and the directory at any time. -/
structure Stored (s : State X) : Prop where
  id_eq : ∀ x ∈ s.jobs, (s.objects x.2).id = x.1
  lt : ∀ x ∈ s.jobs, x.2 < s.next
  nodup : (s.jobs.map Prod.fst).Nodup
  nodup_files : (s.files.map Prod.fst).Nodup
  mem_files : ∀ id, id ∈ s.files.map Prod.fst ↔ id ∈ s.jobs.map Prod.fst
  same : ∀ x ∈ s.jobs, ∀ job, (x.1, job) ∈ s.files → s.Same x.1 x.2 job

/-- What holds of the worker at any time. -/
structure Inv (w : Worker) (s : State X) : Prop extends Stored s where
  capacity : s.jobs.length ≤ w.capacity
  ticks : s.ticks.length ≤ 1
  idle : s.ticks = [] → s.active = false ∧ s.processing = none
  busy : ∀ ref ∈ s.ticks, s.active = true ∧ s.processing = some (s.objects ref).id ∧ ((s.objects ref).id, ref) ∈ s.jobs

/-- One id has one object. -/
theorem Stored.ref_eq (h : Stored s) {ref' : ℕ} (href : (id, ref) ∈ s.jobs) (href' : (id, ref') ∈ s.jobs) :
    ref = ref' := congrArg Prod.snd (List.inj_on_of_nodup_map h.nodup href href' rfl)

/-! ## Changes -/

theorem objects_modify_self (s : State X) (ref : ℕ) (f : Job X → Job X) :
    (s.modify ref f).objects ref = f (s.objects ref) := Function.update_self _ _ _

theorem objects_modify_of_ne {f : Job X → Job X} {i : ℕ} (h : i ≠ ref) : (s.modify ref f).objects i = s.objects i :=
  Function.update_of_ne h _ _

/-- The job that is processed may be changed, apart from its id and its request. -/
theorem Stored.modify (h : Stored s) (hprocessing : s.processing = some (s.objects ref).id) {f : Job X → Job X}
    (hid : (f (s.objects ref)).id = (s.objects ref).id)
    (hrequest : (f (s.objects ref)).request = (s.objects ref).request) : Stored (s.modify ref f) := by
  refine ⟨fun x hx ↦ ?_, h.lt, h.nodup, h.nodup_files, h.mem_files, fun x hx job hjob ↦ ?_⟩
  · by_cases hxr : x.2 = ref
    · rw [hxr, objects_modify_self, hid, ← hxr, h.id_eq x hx]
    · rw [objects_modify_of_ne hxr, h.id_eq x hx]
  · obtain ⟨hjid, hjrequest, hjob⟩ := h.same x hx job hjob
    by_cases hxr : x.2 = ref
    · refine ⟨hjid, ?_, fun hne ↦ absurd ?_ hne⟩
      · rw [hjrequest, hxr, objects_modify_self, hrequest]
      · rw [← h.id_eq x hx, hxr]
        exact hprocessing
    · refine ⟨hjid, ?_, fun hne ↦ ?_⟩
      · rw [objects_modify_of_ne hxr, hjrequest]
      · rw [objects_modify_of_ne hxr, hjob hne]

theorem jobs_save (h : Stored s) (href : ((s.objects ref).id, ref) ∈ s.jobs) (now : ℕ) :
    (s.save ref now).jobs = s.jobs := by
  rw [State.save]
  dsimp only
  rw [objects_modify_self]
  exact Keyed.put_of_mem _ h.nodup href

theorem objects_save_self (s : State X) (ref now : ℕ) :
    (s.save ref now).objects ref = { s.objects ref with updatedAt := some now } := Function.update_self _ _ _

theorem objects_save_of_ne {i : ℕ} (h : i ≠ ref) (now : ℕ) : (s.save ref now).objects i = s.objects i :=
  Function.update_of_ne h _ _

theorem files_save (s : State X) (ref now : ℕ) : (s.save ref now).files =
    Keyed.put Prod.fst s.files ((s.objects ref).id, { s.objects ref with updatedAt := some now }) := by
  rw [State.save]
  dsimp only
  rw [objects_modify_self]
  rfl

/-- A job that is saved has its file. -/
theorem Stored.save (h : Stored s) (href : ((s.objects ref).id, ref) ∈ s.jobs) (now : ℕ) :
    Stored (s.save ref now) := by
  have hjobs := jobs_save h href now
  have hfiles := files_save s ref now
  have hkey : (s.objects ref).id ∈ s.files.map Prod.fst := (h.mem_files _).2 (List.mem_map_of_mem (f := Prod.fst) href)
  refine ⟨fun x hx ↦ ?_, ?_, ?_, ?_, fun id ↦ ?_, fun x hx job hjob ↦ ?_⟩
  · rw [hjobs] at hx
    by_cases hxr : x.2 = ref
    · rw [hxr, objects_save_self, ← hxr]
      exact h.id_eq x hx
    · rw [objects_save_of_ne hxr, h.id_eq x hx]
  · rw [hjobs]
    exact h.lt
  · rw [hjobs]
    exact h.nodup
  · rw [hfiles]
    exact Keyed.nodup_put _ h.nodup_files
  · rw [hfiles, hjobs, Keyed.keys_put, if_pos hkey]
    exact h.mem_files id
  · rw [hjobs] at hx
    rw [hfiles, Keyed.mem_put _ h.nodup_files] at hjob
    rw [State.Same]
    obtain heq | ⟨hjob, hne⟩ := hjob
    · obtain ⟨hid, rfl⟩ := Prod.mk.inj heq
      have hown : (x.1, ref) ∈ s.jobs := hid ▸ href
      obtain rfl : x.2 = ref := h.ref_eq hx hown
      rw [objects_save_self]
      exact ⟨hid.symm, rfl, fun _ ↦ rfl⟩
    · have hxr : x.2 ≠ ref := by
        rintro rfl
        exact hne (h.id_eq x hx).symm
      rw [objects_save_of_ne hxr]
      exact h.same x hx job hjob

/-- The worker with a new job. -/
def State.add (s : State X) (id : String) (r : Request) (now : ℕ) : State X := (s.create id r).save s.next now

/-- The job that is added. -/
def added (id : String) (r : Request) (now : ℕ) : Job X :=
  ⟨id, r, .queued, 0, 0, some now, [], none, none, none⟩

theorem add_eq (h : Stored s) (hid : id ∉ s.jobs.map Prod.fst) (r : Request) (now : ℕ) : s.add id r now =
    { s with
      objects := (s.add id r now).objects
      next := s.next + 1
      jobs := s.jobs ++ [(id, s.next)]
      files := s.files ++ [(id, added id r now)] } := by
  have hfiles : id ∉ s.files.map Prod.fst := fun hmem ↦ hid ((h.mem_files id).1 hmem)
  rw [State.add, State.save]
  simp only [State.create, State.modify, Function.update_self]
  rw [Keyed.put_of_notMem _ hid, Keyed.put_of_notMem _ hfiles]
  rfl

theorem objects_add_self (s : State X) (id : String) (r : Request) (now : ℕ) :
    (s.add id r now).objects s.next = added id r now := by
  rw [State.add, State.save]
  simp only [State.create, State.modify, Function.update_self]
  rfl

theorem objects_add_of_ne {i : ℕ} (h : i ≠ s.next) (id : String) (r : Request) (now : ℕ) :
    (s.add id r now).objects i = s.objects i := by
  rw [State.add, State.save]
  simp only [State.create, State.modify, Function.update_of_ne h]

theorem Stored.add (h : Stored s) (hid : id ∉ s.jobs.map Prod.fst) (r : Request) (now : ℕ) :
    Stored (s.add id r now) := by
  have hself := objects_add_self s id r now
  have hother : ∀ x ∈ s.jobs, (s.add id r now).objects x.2 = s.objects x.2 :=
    fun x hx ↦ objects_add_of_ne (h.lt x hx).ne id r now
  have hfiles : id ∉ s.files.map Prod.fst := fun hmem ↦ hid ((h.mem_files id).1 hmem)
  have hnew {α : Type} {l : List (String × α)} (hl : id ∉ l.map Prod.fst) (hnodup : (l.map Prod.fst).Nodup) (a : α) :
      ((l ++ [(id, a)]).map Prod.fst).Nodup := by
    rw [List.map_append, List.map_singleton, List.nodup_append_comm]
    exact List.nodup_cons.2 ⟨hl, hnodup⟩
  rw [add_eq h hid]
  refine ⟨fun x hx ↦ ?_, fun x hx ↦ ?_, hnew hid h.nodup _, hnew hfiles h.nodup_files _, fun k ↦ ?_,
    fun x hx job hjob ↦ ?_⟩
  · obtain hx | hx := List.mem_append.1 hx
    · exact (congrArg Job.id (hother x hx)).trans (h.id_eq x hx)
    · rw [List.mem_singleton.1 hx]
      exact congrArg Job.id hself
  · obtain hx | hx := List.mem_append.1 hx
    · exact (h.lt x hx).trans (Nat.lt_succ_self _)
    · rw [List.mem_singleton.1 hx]
      exact Nat.lt_succ_self _
  · simp only [List.map_append, List.mem_append, h.mem_files k, List.map_singleton]
  · obtain hx | hx := List.mem_append.1 hx
    · have hne : x.1 ≠ id := fun heq ↦ hid (List.mem_map.2 ⟨x, hx, heq⟩)
      obtain hjob | hjob := List.mem_append.1 hjob
      · have hsame := h.same x hx job hjob
        simp only [State.Same, hother x hx]
        exact hsame
      · exact absurd (congrArg Prod.fst (List.mem_singleton.1 hjob)) hne
    · obtain rfl := List.mem_singleton.1 hx
      obtain hjob | hjob := List.mem_append.1 hjob
      · exact absurd (List.mem_map.2 ⟨_, hjob, rfl⟩) hfiles
      · obtain rfl := congrArg Prod.snd (List.mem_singleton.1 hjob)
        exact ⟨rfl, (congrArg Job.request hself).symm, fun _ ↦ hself.symm⟩

theorem Stored.remove (h : Stored s) (id : String) : Stored (s.remove id) := by
  refine ⟨fun x hx ↦ ?_, fun x hx ↦ ?_, Keyed.nodup_others _ h.nodup, Keyed.nodup_others _ h.nodup_files, fun k ↦ ?_,
    fun x hx job hjob ↦ ?_⟩
  · exact h.id_eq x ((Keyed.mem_others _).1 hx).1
  · exact h.lt x ((Keyed.mem_others _).1 hx).1
  · simp only [State.remove, Keyed.mem_keys_others, h.mem_files k]
  · exact h.same x ((Keyed.mem_others _).1 hx).1 job ((Keyed.mem_others _).1 hjob).1

/-! ## Requests -/

theorem evict_of_lt {capacity : ℕ} (h : s.jobs.length < capacity) (l : List ℕ) : s.evict capacity l = s := by
  cases l with
  | nil => rfl
  | cons old rest => exact if_neg (not_le.2 h)

/-- A full queue loses the first of the completed jobs. -/
theorem evict_cons {capacity : ℕ} (h : Stored s) (hfull : s.jobs.length = capacity) {old : String × ℕ} {rest : List ℕ}
    (hold : old ∈ s.jobs) :
    s.evict capacity (old.2 :: rest) = s.remove old.1 ∧ (s.remove old.1).jobs.length + 1 = capacity := by
  have hlength : (s.remove old.1).jobs.length + 1 = capacity :=
    (Keyed.length_others _ h.nodup (List.mem_map_of_mem (f := Prod.fst) hold)).trans hfull
  refine ⟨?_, hlength⟩
  rw [State.evict, if_pos hfull.ge, h.id_eq old hold]
  exact evict_of_lt (Nat.lt_of_succ_le hlength.le) rest

/-- **The completed jobs**: those that may be evicted, and the first was updated first. -/
theorem mem_completed : ref ∈ s.completed ↔ ref ∈ s.jobs.map Prod.snd ∧ s.Evictable ref := by
  simp [State.completed]

theorem head_completed {old : ℕ} {rest : List ℕ} (h : s.completed = old :: rest) :
    ∀ ref ∈ s.completed, s.updated old ≤ s.updated ref := by
  have hsorted : s.completed.Pairwise fun a b ↦ s.updated a ≤ s.updated b := by
    have hpairwise : s.completed.Pairwise fun a b ↦ decide (s.updated a ≤ s.updated b) = true :=
      List.pairwise_mergeSort (fun _ _ _ hab hbc ↦ by simp only [decide_eq_true_eq] at *; omega)
        (fun _ _ ↦ by simp only [Bool.or_eq_true, decide_eq_true_eq]; omega) _
    exact hpairwise.imp fun hab ↦ of_decide_eq_true hab
  rw [h] at hsorted ⊢
  obtain ⟨hhead, -⟩ := List.pairwise_cons.1 hsorted
  exact List.forall_mem_cons.2 ⟨le_rfl, hhead⟩

/-- What becomes of a request. -/
inductive Enqueued (w : Worker) (s : State X) (request : Request) (now : ℕ) : Except String ℕ × State X → Prop
  | invalid (hvalid : w.validate request = false) :
      Enqueued w s request now (.error "Unknown build, network or transaction", s)
  | known (ref : ℕ) (href : (w.idOf request, ref) ∈ s.jobs) : Enqueued w s request now (.ok ref, s)
  | room (hnew : w.idOf request ∉ s.jobs.map Prod.fst) (hlt : s.jobs.length < w.capacity) :
      Enqueued w s request now (.ok s.next, s.add (w.idOf request) (Worker.normal request) now)
  | full (hnew : w.idOf request ∉ s.jobs.map Prod.fst) (hfull : s.jobs.length = w.capacity)
      (hnone : ∀ x ∈ s.jobs, ¬s.Evictable x.2) : Enqueued w s request now (.error "Verification queue is full", s)
  | evicted (hnew : w.idOf request ∉ s.jobs.map Prod.fst) (hfull : s.jobs.length = w.capacity) (old : String × ℕ)
      (hold : old ∈ s.jobs) (hevictable : s.Evictable old.2)
      (holdest : ∀ x ∈ s.jobs, s.Evictable x.2 → s.updated old.2 ≤ s.updated x.2) :
      Enqueued w s request now
        (.ok s.next, (s.remove old.1).add (w.idOf request) (Worker.normal request) now)

/-- **A request** is refused, known already, added, or put in the place of the oldest completed job. -/
theorem enqueued (h : Stored s) (hcapacity : s.jobs.length ≤ w.capacity) (request : Request) (now : ℕ) :
    Enqueued w s request now (w.enqueue s request now) := by
  rw [Worker.enqueue]
  split
  next hvalid =>
    dsimp only
    split
    next id ref hfind =>
      obtain ⟨hmem, hid⟩ := (Keyed.find_eq_some _ h.nodup).1 hfind
      obtain rfl : id = w.idOf request := hid
      exact .known ref hmem
    next hfind =>
      have hnew := (Keyed.find_eq_none _).1 hfind
      obtain hlt | hfull := hcapacity.lt_or_eq
      · rw [evict_of_lt hlt, if_neg (not_le.2 hlt)]
        exact .room hnew hlt
      · cases hcompleted : s.completed with
        | nil =>
          rw [State.evict, if_pos hfull.ge]
          refine .full hnew hfull fun x hx hevictable ↦ ?_
          have hmem := mem_completed.2 ⟨List.mem_map_of_mem (f := Prod.snd) hx, hevictable⟩
          rw [hcompleted] at hmem
          cases hmem
        | cons old rest =>
          have hmem : old ∈ s.completed := hcompleted ▸ List.mem_cons_self
          obtain ⟨hjob, hevictable⟩ := mem_completed.1 hmem
          obtain ⟨old, hold, rfl⟩ := List.mem_map.1 hjob
          obtain ⟨hevict, hlength⟩ : s.evict w.capacity (old.2 :: rest) = s.remove old.1 ∧
              (s.remove old.1).jobs.length + 1 = w.capacity := evict_cons h hfull hold
          rw [hevict, if_neg (by omega)]
          exact .evicted hnew hfull _ hold hevictable fun x hx hx' ↦
            head_completed hcompleted x.2 (mem_completed.2 ⟨List.mem_map_of_mem (f := Prod.snd) hx, hx'⟩)
  next hinvalid => exact .invalid (Bool.not_eq_true _ ▸ hinvalid)

/-! ## The invariant -/

theorem Inv.mem_ticks (h : Inv w s) (href : ref ∈ s.ticks) : s.ticks = [ref] := by
  obtain ⟨_, hl⟩ := List.length_eq_one_iff.1 (h.ticks.antisymm (List.length_pos_of_mem href))
  rw [hl, List.mem_singleton] at href
  rw [hl, href]

theorem Inv.remove (h : Inv w s) (hx : x ∈ s.jobs) (hevictable : s.Evictable x.2) : Inv w (s.remove x.1) := by
  refine ⟨h.toStored.remove x.1, ?_, h.ticks, h.idle, fun ref href ↦ ?_⟩
  · exact (List.length_filter_le _ _).trans h.capacity
  · obtain ⟨hactive, hprocessing, hjob⟩ := h.busy ref href
    refine ⟨hactive, hprocessing, (Keyed.mem_others _).2 ⟨hjob, fun heq ↦ hevictable.1 ?_⟩⟩
    have hid : (s.objects ref).id = x.1 := heq
    rw [h.id_eq x hx, hprocessing, hid]

theorem Inv.add (h : Inv w s) (hid : id ∉ s.jobs.map Prod.fst) (hlt : s.jobs.length < w.capacity) (r : Request)
    (now : ℕ) : Inv w (s.add id r now) := by
  have hstored := h.toStored.add hid r now
  have heq := add_eq h.toStored hid r now
  have hjobs : (s.add id r now).jobs = s.jobs ++ [(id, s.next)] := by rw [heq]
  have hticks : (s.add id r now).ticks = s.ticks := rfl
  refine ⟨hstored, ?_, h.ticks, h.idle, fun ref href ↦ ?_⟩
  · rw [hjobs, List.length_append]
    exact hlt
  · obtain ⟨hactive, hprocessing, hjob⟩ := h.busy ref href
    have hobject := objects_add_of_ne (h.lt _ hjob).ne id r now
    rw [hobject, hjobs]
    exact ⟨hactive, hprocessing, List.mem_append_left _ hjob⟩

theorem Inv.enqueue (h : Inv w s) (request : Request) (now : ℕ) : Inv w (w.enqueue s request now).2 := by
  generalize hresult : w.enqueue s request now = result
  have henqueued := enqueued h.toStored h.capacity request now
  rw [hresult] at henqueued
  cases henqueued with
  | invalid => exact h
  | known => exact h
  | room hnew hlt => exact h.add hnew hlt _ now
  | full => exact h
  | evicted hnew hfull old hold hevictable =>
    have hlength : (s.remove old.1).jobs.length + 1 = s.jobs.length :=
      Keyed.length_others _ h.nodup (List.mem_map_of_mem (f := Prod.fst) hold)
    refine (h.remove hold hevictable).add (fun hmem ↦ hnew ?_) (by omega) _ now
    exact ((Keyed.mem_keys_others _).1 hmem).1

theorem Inv.modify (h : Inv w s) (href : ref ∈ s.ticks) {f : Job X → Job X} (hid : ∀ job, (f job).id = job.id)
    (hrequest : ∀ job, (f job).request = job.request) : Inv w (s.modify ref f) := by
  obtain ⟨hactive, hprocessing, hjob⟩ := h.busy ref href
  have hself : ((s.modify ref f).objects ref).id = (s.objects ref).id := by rw [objects_modify_self, hid]
  refine ⟨h.toStored.modify hprocessing (hid _) (hrequest _), h.capacity, h.ticks, h.idle, fun i hi ↦ ?_⟩
  obtain rfl : i = ref := List.mem_singleton.1 (h.mem_ticks href ▸ hi)
  rw [hself]
  exact ⟨hactive, hprocessing, hjob⟩

theorem Inv.save (h : Inv w s) (href : ref ∈ s.ticks) (now : ℕ) : Inv w (s.save ref now) := by
  obtain ⟨hactive, hprocessing, hjob⟩ := h.busy ref href
  have hjobs := jobs_save h.toStored hjob now
  have hself : ((s.save ref now).objects ref).id = (s.objects ref).id := by rw [objects_save_self]
  refine ⟨h.toStored.save hjob now, hjobs ▸ h.capacity, h.ticks, h.idle, fun i hi ↦ ?_⟩
  obtain rfl : i = ref := List.mem_singleton.1 (h.mem_ticks href ▸ hi)
  rw [hself, hjobs]
  exact ⟨hactive, hprocessing, hjob⟩

/-- What is processed may change when the files are as their jobs are. -/
theorem Stored.congr (h : Stored s) {processing : Option String}
    (hsame : ∀ x ∈ s.jobs, processing ≠ some x.1 → ∀ job, (x.1, job) ∈ s.files → job = s.objects x.2) (active : Bool)
    (ticks : List ℕ) : Stored { s with processing, active, ticks } where
  id_eq := h.id_eq
  lt := h.lt
  nodup := h.nodup
  nodup_files := h.nodup_files
  mem_files := h.mem_files
  same x hx job hjob :=
    have ⟨hid, hrequest, _⟩ := h.same x hx job hjob
    ⟨hid, hrequest, fun hne ↦ hsame x hx hne job hjob⟩

theorem Inv.tick (h : Inv w s) (now : ℕ → ℕ) : Inv w (w.tick s now) := by
  rw [Worker.tick]
  split
  · exact h
  next hactive =>
    have hticks : s.ticks = [] := List.eq_nil_iff_forall_not_mem.2 fun ref href ↦ hactive (h.busy ref href).1
    have hsame (processing : Option String) : ∀ x ∈ s.jobs, processing ≠ some x.1 → ∀ job, (x.1, job) ∈ s.files →
        job = s.objects x.2 := by
      intro x hx _ job hjob
      refine (h.same x hx job hjob).2.2 ?_
      rw [(h.idle hticks).2]
      nofun
    split
    next => exact ⟨h.toStored.congr (hsame _) false s.ticks, h.capacity, h.ticks, fun _ ↦ ⟨rfl, rfl⟩, by simp [hticks]⟩
    next ref hdue =>
      have hmem : ref ∈ s.jobs.map Prod.snd := by
        have := List.mem_of_mem_head? hdue
        simp only [Worker.due, List.mem_mergeSort, List.mem_filter] at this
        exact this.1
      obtain ⟨x, hx, rfl⟩ := List.mem_map.1 hmem
      have hjob : ((s.objects x.2).id, x.2) ∈ s.jobs := by rwa [h.id_eq x hx]
      refine Inv.modify (s := { s with
        active := true, processing := some (s.objects x.2).id, ticks := s.ticks ++ [x.2] }) ?_ (by simp)
        (fun _ ↦ rfl) fun _ ↦ rfl
      refine ⟨h.toStored.congr (hsame _) true _, h.capacity, by simp [hticks], by simp, fun ref href ↦ ?_⟩
      simp only [hticks, List.nil_append, List.mem_singleton] at href
      rw [href]
      exact ⟨rfl, rfl, hjob⟩

/-- A file that was saved is as its job. -/
theorem saved_eq (h : Stored s) (now : ℕ) {job : Job X}
    (hjob : ((s.objects ref).id, job) ∈ (s.save ref now).files) : job = (s.save ref now).objects ref := by
  rw [files_save] at hjob
  rw [objects_save_self]
  obtain heq | ⟨-, hne⟩ := (Keyed.mem_put _ h.nodup_files).1 hjob
  · exact congrArg Prod.snd heq
  · exact absurd rfl hne

theorem Inv.caught (h : Inv w s) (href : ref ∈ s.ticks) (failed : Option String) :
    Inv w (Worker.caught s ref failed) ∧ ref ∈ (Worker.caught s ref failed).ticks := by
  cases failed with
  | none => exact ⟨h, href⟩
  | some message =>
    exact ⟨h.modify href (f := fun job ↦ { job with status := .retrying, error := some message }) (fun _ ↦ rfl)
      fun _ ↦ rfl, href⟩

/-- The tick that saves its job for the last time. -/
theorem Inv.release (h : Inv w s) (href : ref ∈ s.ticks) (now : ℕ) : Inv w
    { s.save ref now with processing := none, active := false, ticks := s.ticks.erase ref } := by
  have hsaved := h.save href now
  obtain ⟨-, hprocessing, hjob⟩ := hsaved.busy ref href
  obtain ⟨-, -, hjob'⟩ := h.busy ref href
  rw [h.mem_ticks href, List.erase_cons_head]
  refine ⟨hsaved.toStored.congr (fun x hx _ job hfile ↦ ?_) _ _, hsaved.capacity, by simp, fun _ ↦ ⟨rfl, rfl⟩, by simp⟩
  by_cases hid : x.1 = (s.objects ref).id
  · -- the job that was processed is as it was saved just now
    rw [jobs_save h.toStored hjob'] at hx
    have hown : (x.1, ref) ∈ s.jobs := hid ▸ hjob'
    obtain rfl : x.2 = ref := h.ref_eq hx hown
    rw [hid] at hfile
    exact saved_eq h.toStored now hfile
  · refine (hsaved.same x hx job hfile).2.2 ?_
    rw [hprocessing, objects_save_self]
    exact fun heq ↦ hid (Option.some.inj heq).symm

theorem Inv.finish (h : Inv w s) (href : ref ∈ s.ticks) (failed : Option String) (now saved : ℕ) :
    Inv w (Worker.finish s ref failed now saved) := by
  obtain ⟨hcaught, hcaughtref⟩ := h.caught href failed
  have hrest := hcaught.modify hcaughtref (f := fun job ↦ { job with nextAttempt := now + Worker.rest job })
    (fun _ ↦ rfl) fun _ ↦ rfl
  exact hrest.release hcaughtref saved

/-- **Every step keeps the invariant.** -/
theorem Inv.step (h : Inv w s) (hstep : Step w s s') : Inv w s' := by
  cases hstep with
  | enqueue request now => exact h.enqueue request now
  | tick now => exact h.tick now
  | change ref href => exact h.modify href (fun _ ↦ rfl) fun _ ↦ rfl
  | save ref href now => exact h.save href now
  | finish ref href failed now saved => exact h.finish href failed now saved

/-- A directory with the files of distinct jobs, each under its id. -/
structure Directory (w : Worker) (files : List (String × Job X)) : Prop where
  id_eq : ∀ file ∈ files, file.2.id = file.1
  nodup : (files.map Prod.fst).Nodup
  capacity : files.length ≤ w.capacity

theorem mem_jobs_start {files : List (String × Job X)} : x ∈ (start files).jobs ↔
    ∃ file, files[x.2]? = some file ∧ file.2.id = x.1 := by
  obtain ⟨id, i⟩ := x
  simp only [start, List.mem_map, Prod.exists, Prod.mk.injEq, List.mem_zipIdx_iff_getElem?]
  constructor
  · rintro ⟨name, job, j, hfile, rfl, rfl⟩
    exact ⟨name, job, hfile, rfl⟩
  · rintro ⟨name, job, hfile, rfl⟩
    exact ⟨name, job, i, hfile, rfl, rfl⟩

theorem inv_start {files : List (String × Job X)} (h : Directory w files) : Inv w (start files) := by
  have hkeys : (start files).jobs.map Prod.fst = files.map Prod.fst := by
    have heq : (start files).jobs.map Prod.fst = (files.zipIdx.map Prod.fst).map fun file ↦ file.2.id := by
      simp only [start, List.map_map]
      rfl
    rw [heq, List.zipIdx_map_fst]
    exact List.map_congr_left h.id_eq
  have hobject {file : String × Job X} {i : ℕ} (hfile : files[i]? = some file) :
      (start files).objects i = file.2 := by
    simp [start, List.getD_eq_getElem?_getD, hfile]
  refine ⟨⟨fun x hx ↦ ?_, fun x hx ↦ ?_, hkeys ▸ h.nodup, h.nodup, fun id ↦ by rw [hkeys]; rfl,
    fun x hx job hjob ↦ ?_⟩, ?_, by simp [start], fun _ ↦ ⟨rfl, rfl⟩, by simp [start]⟩
  · obtain ⟨file, hfile, hid⟩ := mem_jobs_start.1 hx
    rw [hobject hfile, hid]
  · obtain ⟨file, hfile, -⟩ := mem_jobs_start.1 hx
    exact (List.getElem?_eq_some_iff.1 hfile).1
  · obtain ⟨file, hfile, hid⟩ := mem_jobs_start.1 hx
    have hmem : file ∈ files := List.mem_of_getElem? hfile
    have hname : file.1 = x.1 := (h.id_eq file hmem).symm.trans hid
    obtain rfl : file = (x.1, job) := List.inj_on_of_nodup_map h.nodup hmem hjob hname
    rw [State.Same, hobject hfile]
    exact ⟨hid, rfl, fun _ ↦ rfl⟩
  · have hlength := congrArg List.length hkeys
    simp only [List.length_map] at hlength
    rw [hlength]
    exact h.capacity

/-! ## Runs -/

theorem enqueue_known (h : Stored s) {request : Request} (hvalid : w.validate request = true)
    (href : (w.idOf request, ref) ∈ s.jobs) (now : ℕ) : w.enqueue s request now = (.ok ref, s) := by
  have hfind : Keyed.find Prod.fst (w.idOf request) s.jobs = some (w.idOf request, ref) :=
    (Keyed.find_eq_some _ h.nodup).2 ⟨href, rfl⟩
  rw [Worker.idOf] at hfind
  rw [Worker.enqueue, if_pos hvalid]
  simp only [hfind]

theorem valid_of_enqueue_ok {request : Request} {now : ℕ} (h : (w.enqueue s request now).1 = .ok ref) :
    w.validate request = true := by
  by_contra hinvalid
  rw [Worker.enqueue, if_neg hinvalid] at h
  cases h

/-- What a request does to the queue: `result` is what it returns, and `s'` the queue after it. -/
structure Requested (w : Worker) (s : State X) (request : Request) (result : Except String ℕ) (s' : State X) :
    Prop where
  refused : ∀ e, result = .error e → s' = s
  full : result = .error "Verification queue is full" →
    s.jobs.length = w.capacity ∧ ∀ x ∈ s.jobs, ¬s.Evictable x.2
  /-- A job that is evicted is the oldest that may be, and the only one; there was no room without. -/
  evicted : ∀ x ∈ s.jobs, x ∉ s'.jobs → s.jobs.length = w.capacity ∧ s.Evictable x.2 ∧
    (∀ y ∈ s.jobs, s.Evictable y.2 → s.updated x.2 ≤ s.updated y.2) ∧ ∀ y ∈ s.jobs, y ∉ s'.jobs → y = x
  kept : ∀ x ∈ s.jobs, x ∈ s'.jobs → s'.objects x.2 = s.objects x.2 ∧
    ∀ job, (x.1, job) ∈ s'.files ↔ (x.1, job) ∈ s.files
  /-- A job of the request that is there, whenever it was asked for, is the answer. -/
  known : ∀ ref, w.validate request = true → (w.idOf request, ref) ∈ s.jobs → result = .ok ref ∧ s' = s
  again : ∀ ref, result = .ok ref → (w.idOf request, ref) ∈ s'.jobs ∧
    ∀ now, w.enqueue s' request now = (.ok ref, s')

/-- The job of a request is the answer to it from now on. -/
theorem enqueue_again (h : Stored s) {request : Request} (hvalid : w.validate request = true)
    (href : (w.idOf request, ref) ∈ s.jobs) :
    (w.idOf request, ref) ∈ s.jobs ∧ ∀ now, w.enqueue s request now = (.ok ref, s) :=
  ⟨href, enqueue_known h hvalid href⟩

theorem requested_self {request : Request} {result : Except String ℕ}
    (hfull : result = .error "Verification queue is full" →
      s.jobs.length = w.capacity ∧ ∀ x ∈ s.jobs, ¬s.Evictable x.2)
    (hknown : ∀ ref, w.validate request = true → (w.idOf request, ref) ∈ s.jobs → result = .ok ref)
    (hagain : ∀ ref, result = .ok ref → (w.idOf request, ref) ∈ s.jobs ∧
      ∀ now, w.enqueue s request now = (.ok ref, s)) :
    Requested w s request result s :=
  ⟨fun _ _ ↦ rfl, hfull, fun _ hx hx' ↦ absurd hx hx', fun _ _ _ ↦ ⟨rfl, fun _ ↦ Iff.rfl⟩,
    fun ref hvalid href ↦ ⟨hknown ref hvalid href, rfl⟩, hagain⟩

/-- What adding a job leaves as it is. -/
theorem kept_add (h : Stored s) (hid : id ∉ s.jobs.map Prod.fst) (r : Request) (now : ℕ) (hx : x ∈ s.jobs) :
    x ∈ (s.add id r now).jobs ∧ (s.add id r now).objects x.2 = s.objects x.2 ∧
      ∀ job, (x.1, job) ∈ (s.add id r now).files ↔ (x.1, job) ∈ s.files := by
  have hne : x.1 ≠ id := fun heq ↦ hid (List.mem_map.2 ⟨x, hx, heq⟩)
  refine ⟨?_, objects_add_of_ne (h.lt x hx).ne id r now, fun job ↦ ?_⟩
  · rw [add_eq h hid]
    exact List.mem_append_left _ hx
  · rw [add_eq h hid]
    simp [hne]

theorem mem_jobs_add (h : Stored s) (hid : id ∉ s.jobs.map Prod.fst) (r : Request) (now : ℕ) :
    (id, s.next) ∈ (s.add id r now).jobs := by
  rw [add_eq h hid]
  exact List.mem_append_right _ (List.mem_singleton_self _)

theorem requested (h : Stored s) (hcapacity : s.jobs.length ≤ w.capacity) (request : Request) (now : ℕ) :
    Requested w s request (w.enqueue s request now).1 (w.enqueue s request now).2 := by
  have hknown (ref : ℕ) (hvalid : w.validate request = true) (href : (w.idOf request, ref) ∈ s.jobs) :
      (w.enqueue s request now).1 = .ok ref ∧ (w.enqueue s request now).2 = s := by
    rw [enqueue_known h hvalid href now]
    exact ⟨rfl, rfl⟩
  generalize hresult : w.enqueue s request now = result at *
  have henqueued := enqueued h hcapacity request now
  rw [hresult] at henqueued
  cases henqueued with
  | invalid => exact requested_self (by simp) (fun ref hvalid href ↦ (hknown ref hvalid href).1) (by simp)
  | known ref href =>
    refine requested_self (by simp) (fun ref hvalid href ↦ (hknown ref hvalid href).1) fun ref' heq ↦ ?_
    obtain rfl := Except.ok.inj heq
    exact enqueue_again h (valid_of_enqueue_ok (by rw [hresult])) href
  | full hnew hfull hnone =>
    exact requested_self (fun _ ↦ ⟨hfull, hnone⟩) (fun ref hvalid href ↦ (hknown ref hvalid href).1) (by simp)
  | room hnew hlt =>
    have hkept {x : String × ℕ} (hx : x ∈ s.jobs) := kept_add h hnew (Worker.normal request) now hx
    refine ⟨by simp, by simp, fun x hx hx' ↦ absurd (hkept hx).1 hx', fun x hx _ ↦ (hkept hx).2, hknown,
      fun ref heq ↦ ?_⟩
    obtain rfl := Except.ok.inj heq
    exact enqueue_again (h.add hnew _ now) (valid_of_enqueue_ok (by rw [hresult])) (mem_jobs_add h hnew _ now)
  | evicted hnew hfull old hold hevictable holdest =>
    have hremoved := h.remove old.1
    have hnew' : w.idOf request ∉ (s.remove old.1).jobs.map Prod.fst := fun hmem ↦
      hnew ((Keyed.mem_keys_others _).1 hmem).1
    have hkept {x : String × ℕ} (hx : x ∈ (s.remove old.1).jobs) :=
      kept_add hremoved hnew' (Worker.normal request) now hx
    have hgone {x : String × ℕ} (hx : x ∈ s.jobs)
        (hx' : x ∉ ((s.remove old.1).add (w.idOf request) (Worker.normal request) now).jobs) : x = old := by
      by_contra hne
      refine hx' (hkept ((Keyed.mem_others _).2 ⟨hx, fun heq ↦ hne ?_⟩)).1
      exact List.inj_on_of_nodup_map h.nodup hx hold heq
    refine ⟨by simp, by simp, fun x hx hx' ↦ ?_, fun x hx hx' ↦ ?_, hknown, fun ref heq ↦ ?_⟩
    · obtain rfl := hgone hx hx'
      exact ⟨hfull, hevictable, holdest, fun y hy hy' ↦ hgone hy hy'⟩
    · have hne : x.1 ≠ old.1 := by
        rw [add_eq hremoved hnew'] at hx'
        obtain hx' | hx' := List.mem_append.1 hx'
        · exact ((Keyed.mem_others _).1 hx').2
        · rw [List.mem_singleton.1 hx'] at hx
          exact absurd (List.mem_map_of_mem (f := Prod.fst) hx) hnew
      have hmem : x ∈ (s.remove old.1).jobs := (Keyed.mem_others _).2 ⟨hx, hne⟩
      refine ⟨(hkept hmem).2.1, fun job ↦ ((hkept hmem).2.2 job).trans ?_⟩
      exact (Keyed.mem_others _).trans (and_iff_left hne)
    · obtain rfl := Except.ok.inj heq
      exact enqueue_again (hremoved.add hnew' _ now) (valid_of_enqueue_ok (by rw [hresult]))
        (mem_jobs_add hremoved hnew' _ now)

theorem Run.inv {s₀ : State X} (h : Run w s₀ s) (h₀ : Inv w s₀) : Inv w s := by
  induction h with
  | nil => exact h₀
  | step _ hstep ih => exact ih.step hstep

/-- **The verification worker, in any run** from a directory of at most as many jobs as it has room for.  The jobs are
never more than the capacity, the map and the directory have the same ones, and one tick at most has a job, which
stays; every request is answered as `Requested` says. -/
theorem worker_bounded (files : List (String × Job X)) (hfiles : Directory w files) (h : Run w (start files) s) :
    s.jobs.length ≤ w.capacity ∧ Stored s ∧ s.ticks.length ≤ 1 ∧
      (∀ ref ∈ s.ticks, s.processing = some (s.objects ref).id ∧ ((s.objects ref).id, ref) ∈ s.jobs) ∧
      ∀ request now, Requested w s request (w.enqueue s request now).1 (w.enqueue s request now).2 := by
  have hinv := h.inv (inv_start hfiles)
  exact ⟨hinv.capacity, hinv.toStored, hinv.ticks, fun ref href ↦ (hinv.busy ref href).2,
    fun request now ↦ requested hinv.toStored hinv.capacity request now⟩

/-- Two requests, whose transactions have the hashes `0x12…` and `0x34…`. -/
def sampleRequest (digits : List Char) : Request :=
  ⟨String.ofList (List.replicate 32 ['a', 'b']).flatten, 10200,
    "0x" ++ String.ofList (List.replicate 32 digits).flatten⟩

def sampleIds : List String :=
  ["66bc7e8760f21b9f94f8c806174d83b6b9a5c5e1b5b9dd8bb616d33c30564de9",
    "2c86ed64d2b3f38bd8ed55f831e0462461795099686af4c9139ddefcaea4afa1"]

/-- A worker with room for one job. -/
def sampleWorker : Worker where
  builds _ := true
  networks _ := true
  hash r := sampleIds.getD (if r = sampleRequest ['1', '2'] then 0 else 1) ""
  capacity := 1
  pos := Nat.one_pos

def sampleJob : Job Unit :=
  { id := sampleIds.getD 0 "", request := sampleRequest ['1', '2'], status := .verified, attempts := 1,
    nextAttempt := 0, updatedAt := some 5, contracts := [], blockHash := none, blockNumber := none, error := none }

/-- A request evicts the job that was verified, but not while this is processed. -/
theorem worker_bounded_sample :
    let files := [(sampleJob.id, sampleJob)]
    let s := sampleWorker.tick (start files) fun _ ↦ 10
    (sampleWorker.enqueue (start files) (sampleRequest ['3', '4']) 10).1 = .ok 1 ∧
      (sampleWorker.enqueue s (sampleRequest ['3', '4']) 10).1 = .error "Verification queue is full" ∧
      Requested sampleWorker s (sampleRequest ['3', '4'])
        (sampleWorker.enqueue s (sampleRequest ['3', '4']) 10).1
        (sampleWorker.enqueue s (sampleRequest ['3', '4']) 10).2 :=
  ⟨by decide +kernel, by decide +kernel,
    (worker_bounded [(sampleJob.id, sampleJob)] ⟨by simp, by simp, by simp [sampleWorker]⟩
      (.step .nil (.tick fun _ ↦ 10))).2.2.2.2 (sampleRequest ['3', '4']) 10⟩

end Verification
