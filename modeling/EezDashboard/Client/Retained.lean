import Mathlib.Data.List.Forall2
import EezDashboard.Client.History

/-!
# What the payment history retains

A history that is read is a list of entries that reading gives again.  The operations keep this, and retain every
entry that has a transaction hash, with its hash and its time; an entry with another id than their own they write
back as it was read.  Reading gives the recipient of a payment that was rejected in its checksum form, so such an
entry is written back as it was stored only if its recipient has this form already.
-/

set_option autoImplicit false

namespace Client

open Js

variable {D : Type} {r : Recorder D} {c c' : TreasuryConfig D} {viem : Viem} {p q : Payment} {i j : Intent}
  {e o : HistoryEntry} {entries entries' : List HistoryEntry} {stored stored' : Stored} {attempt : String}

/-- What is documented of `viem`, and of texts of values. -/
structure Recorder.Documented (r : Recorder D) : Prop where
  address : ∀ a, r.isAddress a = true → r.isAddress (r.getAddress a) = true
  value : ∀ a, r.isAddress a = true → Client.bigInt (r.getAddress a) = Client.bigInt a
  checksum : ∀ a, r.isAddress a = true → r.getAddress (r.getAddress a) = r.getAddress a
  text : ∀ e e', r.sameText e e' = true → e = e'

/-! ## Payments -/

theorem isAddress_of_checkedPayment (h : checkedPayment viem p = .ok q) : viem.isAddress p.recipient = true := by
  rw [checkedPayment, Except.bind_eq_ok] at h
  obtain ⟨_, hreview, -⟩ := h
  rw [raiseIf_eq_ok, not_or, not_or, not_not] at hreview
  exact hreview.2.1

theorem funding_notMem_of_checkedPayment (h : checkedPayment viem p = .ok q) : "funding" ∉ p.others := by
  rw [checkedPayment, Except.bind_eq_ok] at h
  obtain ⟨_, hreview, -⟩ := h
  simp only [raiseIf_eq_ok, not_or] at hreview
  exact hreview.2.2.2.2.1

theorem checkedPayment_eq (h : checkedPayment viem p = .ok q) :
    q = { p with recipient := viem.getAddress p.recipient } := by
  simp only [checkedPayment, Except.bind_eq_ok] at h
  obtain ⟨_, -, h⟩ := h
  split at h
  · simp only [Except.bind_eq_ok, Except.pure_eq_ok] at h
    obtain ⟨_, -, rfl⟩ := h
    rfl
  · simp only [Except.bind_eq_ok, Except.pure_eq_ok] at h
    obtain ⟨_, -, _, -, _, -, rfl⟩ := h
    rfl

/-- **A payment that was checked passes the check again.** -/
theorem checkedPayment_again (hdoc : r.Documented) (h : checkedPayment r.toViem p = .ok q) :
    checkedPayment r.toViem q = .ok q := by
  have hrecipient := isAddress_of_checkedPayment h
  have haddress := hdoc.address _ hrecipient
  have hvalue := hdoc.value _ hrecipient
  have hchecksum := hdoc.checksum _ hrecipient
  obtain rfl := checkedPayment_eq h
  -- the checks read the recipient only as an address and as a number
  rw [checkedPayment] at h ⊢
  simp only [haddress, hrecipient, hvalue, hchecksum, badTransfer] at h ⊢
  exact h

theorem checkedRecordedPayment_again (hdoc : r.Documented) {p q : RecordedPayment}
    (h : checkedRecordedPayment r.toViem p = .ok q) : checkedRecordedPayment r.toViem q = .ok q := by
  have hp := h
  rw [checkedRecordedPayment] at h
  split at h
  next hfunding =>
    have hq : q = p := by
      split at h
      · obtain ⟨_, -, h⟩ := Except.bind_eq_ok.1 h
        exact (Except.pure_eq_ok.1 h).symm
      · split at h
        · obtain ⟨_, -, h⟩ := Except.bind_eq_ok.1 h
          exact (Except.pure_eq_ok.1 h).symm
        · exact (Except.throw_ne_ok h).elim
    rwa [hq] at hp ⊢
  next hfunding =>
    obtain ⟨payment, hpayment, h⟩ := Except.bind_eq_ok.1 h
    obtain rfl := Except.pure_eq_ok.1 h
    have hothers : payment.others = p.others := by rw [checkedPayment_eq hpayment]
    rw [checkedRecordedPayment, if_neg (by rw [hothers]; exact hfunding)]
    exact Except.bind_eq_ok.2 ⟨payment, checkedPayment_again hdoc hpayment, rfl⟩

/-! ## Intents -/

/-- The intent without its hash is read. -/
def Sound (r : Recorder D) (c : TreasuryConfig D) (i : Intent) : Prop :=
  readIntent r c { i with hash := none } = .ok { i with hash := none }

/-- **An intent is read as it is.**  Of its hash, only the form is checked. -/
theorem readIntent_eq_ok : readIntent r c i = .ok j ↔ Sound r c i ∧ i.known.all (hexOfLength 64) = true ∧ j = i := by
  have hknown : ({ i with hash := none } : Intent).known = none := rfl
  have htransport : transport r c { i with hash := none } = transport r c i := rfl
  have hreviewed : reviewedHash r c { i with hash := none } = reviewedHash r c i := rfl
  simp only [Sound, readIntent, Except.bind_eq_ok, raiseIf_eq_ok, Except.pure_eq_ok, not_or, not_not, hknown,
    htransport, hreviewed, Option.all_none, true_and, exists_const]
  constructor
  · rintro ⟨⟨hversion, hinstance, hsafe, hhash, hfields⟩, safeHash, heq, hmatch, hl2, hchain, hrelay, rfl⟩
    exact ⟨⟨⟨hversion, hinstance, hsafe, hfields⟩, safeHash, heq, hmatch, hl2, hchain, hrelay, trivial⟩, hhash, rfl⟩
  · rintro ⟨⟨⟨hversion, hinstance, hsafe, hfields⟩, safeHash, heq, hmatch, hl2, hchain, hrelay, -⟩, hhash, rfl⟩
    exact ⟨⟨hversion, hinstance, hsafe, hhash, hfields⟩, safeHash, heq, hmatch, hl2, hchain, hrelay, rfl⟩

theorem readIntent_of_sound (h : Sound r c i) (hhash : i.known.all (hexOfLength 64) = true) :
    readIntent r c i = .ok i := readIntent_eq_ok.2 ⟨h, hhash, rfl⟩

/-- The configuration that is found reads the intent. -/
theorem sound_historyConfig (h : historyConfig r c i = .ok c') : readIntent r c' i = .ok i := by
  fun_induction historyConfig r c i with
  | case1 c j hread =>
    cases h
    obtain ⟨-, -, rfl⟩ := readIntent_eq_ok.1 hread
    exact hread
  | case2 => cases h
  | case3 _ _ _ _ _ ih => exact ih h

/-- The configuration does not depend on the hash. -/
theorem historyConfig_hash (h : historyConfig r c i = .ok c') {hash : Option String}
    (hhash : ({ i with hash } : Intent).known.all (hexOfLength 64) = true) :
    historyConfig r c { i with hash } = .ok c' := by
  have hi := (readIntent_eq_ok.1 (sound_historyConfig h)).2.1
  fun_induction historyConfig r c i with
  | case1 c j hread =>
    cases h
    have hsound : Sound r c' { i with hash } := (readIntent_eq_ok.1 hread).1
    rw [historyConfig, readIntent_of_sound hsound hhash]
  | case2 => cases h
  | case3 c e hread previousPayments hprevious ih =>
    rw [historyConfig]
    cases hread' : readIntent r c { i with hash } with
    | ok j =>
      have hsound : Sound r c i := (readIntent_eq_ok.1 hread').1
      rw [readIntent_of_sound hsound hi] at hread
      cases hread
    | error e' =>
      dsimp only
      split
      next hnone => cases hnone.symm.trans hprevious
      next found hfound =>
        obtain rfl := Option.some.inj (hprevious.symm.trans hfound)
        exact ih h

/-! ## Entries -/

/-- The entry is read as `o`. -/
def ReadAs (r : Recorder D) (c : TreasuryConfig D) (e o : HistoryEntry) : Prop :=
  r.isDate e.recordedAt = true ∧ readContent r c e.id e.content = .ok o.content ∧ o.id = e.id ∧
    o.recordedAt = e.recordedAt ∧ o.others = []

theorem readContent_submitted {content : Content} : readContent r c attempt (.submitted i) = .ok content ↔
    ∃ c', historyConfig r c i = .ok c' ∧ i.payment ≠ none ∧ attemptId i = .ok attempt ∧ content = .submitted i := by
  simp only [readContent, Except.bind_eq_ok, raiseIf_eq_ok, Except.pure_eq_ok, not_not, exists_const]
  constructor
  · rintro ⟨c', hc', j, hj, hpayment, _, hattempt, rfl, rfl⟩
    obtain ⟨-, -, rfl⟩ := readIntent_eq_ok.1 hj
    exact ⟨c', hc', hpayment, hattempt, rfl⟩
  · rintro ⟨c', hc', hpayment, hattempt, rfl⟩
    exact ⟨c', hc', i, sound_historyConfig hc', hpayment, attempt, hattempt, rfl, rfl⟩

theorem readContent_preparation {p : RecordedPayment} {detail : List UInt16} {content : Content} :
    readContent r c attempt (.preparation p detail) = .ok content ↔ (isUuid attempt = true ∧ detail.length ≤ 2000) ∧
      ∃ q, checkedRecordedPayment r.toViem p = .ok q ∧ content = .preparation q detail := by
  simp only [readContent, Except.bind_eq_ok, raiseIf_eq_ok, Except.pure_eq_ok, not_not, not_or, not_lt, exists_const,
    eq_comm (a := content)]

/-- **What is read is read again as it is.** -/
theorem ReadAs.again (hdoc : r.Documented) (h : ReadAs r c e o) : ReadAs r c o o := by
  obtain ⟨hdate, hcontent, hid, hrecorded, hothers⟩ := h
  refine ⟨hrecorded ▸ hdate, ?_, rfl, rfl, hothers⟩
  rw [hid]
  cases hkind : e.content with
  | submitted i =>
    rw [hkind] at hcontent
    obtain ⟨c', hc', hpayment, hattempt, ho⟩ := readContent_submitted.1 hcontent
    rw [ho, readContent_submitted]
    exact ⟨c', hc', hpayment, hattempt, rfl⟩
  | preparation p detail =>
    rw [hkind] at hcontent
    obtain ⟨hform, q, hq, ho⟩ := readContent_preparation.1 hcontent
    rw [ho, readContent_preparation]
    exact ⟨hform, q, checkedRecordedPayment_again hdoc hq, rfl⟩

/-- Reading keeps the hash. -/
theorem ReadAs.hash_eq (h : ReadAs r c e o) : o.hash = e.hash := by
  obtain ⟨-, hcontent, -, -⟩ := h
  cases hkind : e.content with
  | submitted i =>
    rw [hkind] at hcontent
    obtain ⟨-, -, -, -, ho⟩ := readContent_submitted.1 hcontent
    simp only [HistoryEntry.hash, ho, hkind]
  | preparation p detail =>
    rw [hkind] at hcontent
    obtain ⟨-, q, -, ho⟩ := readContent_preparation.1 hcontent
    simp only [HistoryEntry.hash, ho, hkind]

/-- A hash that is read has its form. -/
theorem ReadAs.hash_form (h : ReadAs r c e o) : o.hash.all (hexOfLength 64) = true := by
  rw [h.hash_eq]
  obtain ⟨-, hcontent, -, -⟩ := h
  cases hkind : e.content with
  | submitted i =>
    rw [hkind] at hcontent
    obtain ⟨c', hc', -⟩ := readContent_submitted.1 hcontent
    simp only [HistoryEntry.hash, hkind]
    exact (readIntent_eq_ok.1 (sound_historyConfig hc')).2.1
  | preparation p detail => simp only [HistoryEntry.hash, hkind, Option.all_none]

theorem readEntries_eq_ok {ids : List String} {raw : List (Option HistoryEntry)} :
    readEntries r c ids raw = .ok entries ↔ (∃ es, raw = es.map some ∧ List.Forall₂ (ReadAs r c) es entries) ∧
      (∀ e ∈ entries, e.id ∉ ids) ∧ (entries.map HistoryEntry.id).Nodup := by
  induction raw generalizing ids entries with
  | nil =>
    rw [readEntries, Except.pure_eq_ok]
    constructor
    · rintro rfl
      exact ⟨⟨[], rfl, .nil⟩, fun _ h ↦ absurd h List.not_mem_nil, List.nodup_nil⟩
    · rintro ⟨⟨es, hes, hreads⟩, -⟩
      rw [List.map_eq_nil_iff.1 hes.symm] at hreads
      cases hreads
      rfl
  | cons x rest ih =>
    cases x with
    | none =>
      rw [readEntries]
      constructor
      · intro h
        cases h
      · rintro ⟨⟨es, hes, -⟩, -⟩
        cases es <;> simp at hes
    | some e =>
      simp only [readEntries, Except.bind_eq_ok, raiseIf_eq_ok, Except.pure_eq_ok, not_or, not_not, exists_const]
      constructor
      · rintro ⟨⟨hnew, hdate⟩, content, hcontent, out, hout, rfl⟩
        obtain ⟨⟨es, rfl, hreads⟩, hids, hnodup⟩ := ih.1 hout
        refine ⟨⟨e :: es, rfl, .cons ⟨hdate, hcontent, rfl, rfl, rfl⟩ hreads⟩, ?_, ?_⟩
        · exact List.forall_mem_cons.2 ⟨hnew, fun o ho hmem ↦ hids o ho (List.mem_cons_of_mem _ hmem)⟩
        · refine List.nodup_cons.2 ⟨fun hmem ↦ ?_, hnodup⟩
          obtain ⟨o, ho, heq⟩ := List.mem_map.1 hmem
          exact hids o ho (heq ▸ List.mem_cons_self)
      · rintro ⟨⟨es, hes, hreads⟩, hids, hnodup⟩
        cases hreads with
        | nil => cases hes
        | @cons e' o es' out hread hreads =>
          obtain ⟨heq, hrest⟩ := List.cons.inj hes
          obtain rfl := Option.some.inj heq
          obtain ⟨hnot, hnodup⟩ := List.nodup_cons.1 hnodup
          obtain ⟨hdate, hcontent, hid, hrecorded, hothers⟩ := hread
          obtain ⟨hnew, hids⟩ := List.forall_mem_cons.1 hids
          rw [hid] at hnew hnot
          refine ⟨⟨hnew, hdate⟩, o.content, hcontent, out, ih.2 ⟨⟨es', hrest, hreads⟩, fun x hx ↦ ?_, hnodup⟩, ?_⟩
          · rw [List.mem_cons, not_or]
            exact ⟨fun heq ↦ hnot (List.mem_map.2 ⟨x, hx, heq⟩), hids x hx⟩
          · rw [← hid, ← hrecorded, ← hothers]

/-! ## Histories -/

/-- The entries that are stored. -/
def entriesOf (stored : Stored) : List HistoryEntry :=
  match stored with
  | some (some saved) => saved.entries.filterMap id
  | _ => []

@[simp] theorem entriesOf_written (version : ℕ) (instanceId : String) (entries : List HistoryEntry) :
    entriesOf (some (some ⟨version, instanceId, entries.map some⟩)) = entries := by
  rw [entriesOf, List.filterMap_map, Function.id_comp, List.filterMap_some]

/-- **A history is read entry by entry**, with distinct ids. -/
theorem entries_of_read (h : read r c stored = .ok entries) :
    List.Forall₂ (ReadAs r c) (entriesOf stored) entries ∧ (entries.map HistoryEntry.id).Nodup := by
  match stored with
  | none =>
    obtain rfl := Except.pure_eq_ok.1 h
    exact ⟨.nil, List.nodup_nil⟩
  | some none => cases h
  | some (some saved) =>
    obtain ⟨_, -, h⟩ := Except.bind_eq_ok.1 h
    obtain ⟨⟨es, hes, hreads⟩, -, hnodup⟩ := readEntries_eq_ok.1 h
    have hentries : entriesOf (some (some saved)) = es := by
      rw [entriesOf, hes, List.filterMap_map, Function.id_comp, List.filterMap_some]
    exact ⟨hentries ▸ hreads, hnodup⟩

theorem ids_eq (h : List.Forall₂ (ReadAs r c) entries entries') :
    entries'.map HistoryEntry.id = entries.map HistoryEntry.id := by
  induction h with
  | nil => rfl
  | cons h _ ih => rw [List.map_cons, List.map_cons, ih, h.2.2.1]

theorem again_of_reads (hdoc : r.Documented) (h : List.Forall₂ (ReadAs r c) entries entries') :
    ∀ e ∈ entries', ReadAs r c e e := by
  induction h with
  | nil => exact fun _ h ↦ absurd h List.not_mem_nil
  | cons h _ ih => exact List.forall_mem_cons.2 ⟨h.again hdoc, ih⟩

/-- Entries that are read as they are, with distinct ids. -/
structure Proper (r : Recorder D) (c : TreasuryConfig D) (entries : List HistoryEntry) : Prop where
  again : ∀ e ∈ entries, ReadAs r c e e
  nodup : (entries.map HistoryEntry.id).Nodup

theorem proper_of_read (hdoc : r.Documented) (h : read r c stored = .ok entries) : Proper r c entries := by
  obtain ⟨hreads, hnodup⟩ := entries_of_read h
  exact ⟨again_of_reads hdoc hreads, hnodup⟩

/-- What is written is read as it is. -/
theorem read_written (h : Proper r c entries) :
    read r c (some (some ⟨1, c.instanceId, entries.map some⟩)) = .ok entries := by
  refine Except.bind_eq_ok.2 ⟨⟨⟩, raiseIf_eq_ok.2 (by simp), ?_⟩
  exact readEntries_eq_ok.2 ⟨⟨entries, rfl, List.forall₂_same.2 h.again⟩, fun _ _ ↦ List.not_mem_nil, h.nodup⟩

/-! ## Operations -/

/-- The id of the entry that an operation is about. -/
def Operation.ownId : Operation → Except String String
  | .remember intent _ => attemptId intent
  | .reject _ _ uuid _ => pure uuid
  | .cancel intent => attemptId intent

/-- What the browser gives: a time, and an id that is new. -/
def Operation.Documented (r : Recorder D) (stored : Stored) : Operation → Prop
  | .remember _ now => r.isDate now = true
  | .reject _ _ uuid now => r.isDate now = true ∧ isUuid uuid = true ∧ uuid ∉ (entriesOf stored).map HistoryEntry.id
  | .cancel _ => True

/-- What becomes of the entries when an operation about `attempt` writes. -/
structure Follows (r : Recorder D) (c : TreasuryConfig D) (attempt : String) (entries entries' : List HistoryEntry) :
    Prop where
  proper : Proper r c entries'
  others : Keyed.others HistoryEntry.id attempt entries' = Keyed.others HistoryEntry.id attempt entries
  own : ∀ e ∈ entries, e.id = attempt → ∀ hash, e.hash = some hash →
    ∃ e' ∈ entries', e'.id = e.id ∧ e'.recordedAt = e.recordedAt ∧ e'.hash = some hash

/-- An entry with a hash keeps it. -/
theorem Follows.retained (h : Follows r c attempt entries entries') (he : e ∈ entries) {hash : String}
    (hhash : e.hash = some hash) :
    ∃ e' ∈ entries', e'.id = e.id ∧ e'.recordedAt = e.recordedAt ∧ e'.hash = some hash := by
  by_cases hid : e.id = attempt
  · exact h.own e he hid hash hhash
  · have hmem : e ∈ Keyed.others HistoryEntry.id attempt entries' :=
      h.others ▸ (Keyed.mem_others _).2 ⟨he, hid⟩
    exact ⟨e, ((Keyed.mem_others _).1 hmem).1, rfl, rfl, hhash⟩

theorem cancel_follows (hproper : Proper r c entries) (hread : read r c stored = .ok entries)
    (h : cancel r c stored i = .ok (.write entries')) : ∃ id, attemptId i = .ok id ∧ Follows r c id entries entries' := by
  obtain ⟨_, heq, h⟩ := Except.bind_eq_ok.1 h
  obtain rfl := Except.ok.inj (hread.symm.trans heq)
  simp only [Except.bind_eq_ok, raiseIf_eq_ok, Except.pure_eq_ok, not_or, Next.write.injEq] at h
  obtain ⟨id, hid, _, ⟨-, hnone⟩, rfl⟩ := h
  refine ⟨id, hid, ⟨fun e he ↦ hproper.again e ((Keyed.mem_others _).1 he).1, Keyed.nodup_others _ hproper.nodup⟩,
    Keyed.others_others _, fun e he heid hash hhash ↦ absurd ?_ hnone⟩
  rw [(Keyed.find_eq_some _ hproper.nodup).2 ⟨he, heid⟩, Option.bind_some, hhash]
  rfl

theorem reject_follows (hdoc : r.Documented) (hproper : Proper r c entries) (hread : read r c stored = .ok entries)
    {detail : List UInt16} {uuid now : String} (hop : (Operation.reject p detail uuid now).Documented r stored)
    (h : reject r c stored p detail uuid now = .ok (.write entries')) :
    (∃ fresh, fresh.id = uuid ∧ entries' = entries ++ [fresh]) ∧ Follows r c uuid entries entries' := by
  obtain ⟨_, heq, h⟩ := Except.bind_eq_ok.1 h
  obtain rfl := Except.ok.inj (hread.symm.trans heq)
  simp only [Except.bind_eq_ok, Except.pure_eq_ok, Next.write.injEq] at h
  obtain ⟨payment, hpayment, rfl⟩ := h
  obtain ⟨hdate, huuid, hnew⟩ := hop
  rw [← ids_eq (entries_of_read hread).1] at hnew
  refine ⟨⟨_, rfl, rfl⟩, ⟨fun e he ↦ ?_, ?_⟩, Keyed.others_append_singleton _ rfl, fun e he heid ↦ ?_⟩
  · obtain he | he := List.mem_append.1 he
    · exact hproper.again e he
    · obtain rfl := List.mem_singleton.1 he
      refine ⟨hdate, readContent_preparation.2 ⟨⟨huuid, by simp⟩, ⟨payment, ""⟩, ?_, rfl⟩, rfl, rfl, rfl⟩
      have hothers : payment.others = p.others := by rw [checkedPayment_eq hpayment]
      have hfunding : "funding" ∉ payment.others := by
        rw [hothers]
        exact funding_notMem_of_checkedPayment hpayment
      rw [checkedRecordedPayment, if_neg hfunding]
      exact Except.bind_eq_ok.2 ⟨payment, checkedPayment_again hdoc hpayment, rfl⟩
  · rw [List.map_append]
    refine List.nodup_append.2 ⟨hproper.nodup, List.nodup_singleton _, fun a ha b hb hab ↦ hnew ?_⟩
    obtain rfl := List.mem_singleton.1 hb
    exact hab ▸ ha
  · exact absurd (List.mem_map.2 ⟨e, he, heid⟩) hnew

/-- A hash that is known comes before the one that an intent has. -/
theorem known_or {hash : Option String} (h : hash.filter (· ≠ "") = hash) :
    ({ i with hash := hash.or i.hash } : Intent).known = hash.or i.known := by
  cases hash with
  | none => rfl
  | some hash =>
    simp only [Intent.known, Option.some_or]
    exact h

theorem HistoryEntry.filter_hash (e : HistoryEntry) : e.hash.filter (· ≠ "") = e.hash := by
  rw [HistoryEntry.hash]
  split
  · simp [Intent.known, Option.filter_filter]
  · rfl

theorem remember_follows (hproper : Proper r c entries) (hread : read r c stored = .ok entries)
    {now : String} (hnow : r.isDate now = true) (h : remember r c stored i now = .ok (.write entries')) :
    ∃ attempt, attemptId i = .ok attempt ∧ Follows r c attempt entries entries' := by
  obtain ⟨_, heq, h⟩ := Except.bind_eq_ok.1 h
  obtain rfl := Except.ok.inj (hread.symm.trans heq)
  split at h
  · cases Except.pure_eq_ok.1 h
  next hpayment =>
    obtain ⟨c', hc', h⟩ := Except.bind_eq_ok.1 h
    obtain ⟨j, hj, h⟩ := Except.bind_eq_ok.1 h
    obtain ⟨attempt, hattempt, h⟩ := Except.bind_eq_ok.1 h
    obtain ⟨_, -, h⟩ := Except.bind_eq_ok.1 h
    dsimp only at h
    split at h
    · cases Except.pure_eq_ok.1 h
    · obtain rfl := Next.write.inj (Except.pure_eq_ok.1 h)
      -- what is known of the old entry, if there is one
      generalize hold : Keyed.find HistoryEntry.id attempt entries = old
      have hmem : ∀ e ∈ old, e ∈ entries := fun e he ↦ ((Keyed.find_eq_some _ hproper.nodup).1 (hold.trans he)).1
      have hdate : r.isDate ((old.map HistoryEntry.recordedAt).getD now) = true := by
        cases old with
        | none => exact hnow
        | some e => exact (hproper.again e (hmem e rfl)).1
      have hform : (old.bind HistoryEntry.hash).all (hexOfLength 64) = true := by
        cases old with
        | none => rfl
        | some e => exact (hproper.again e (hmem e rfl)).hash_form
      have hknown : ({ i with hash := (old.bind HistoryEntry.hash).or i.hash } : Intent).known =
          (old.bind HistoryEntry.hash).or i.known := by
        refine known_or ?_
        cases old with
        | none => rfl
        | some e => exact e.filter_hash
      refine ⟨attempt, hattempt, ⟨fun e he ↦ ?_, Keyed.nodup_put _ hproper.nodup⟩, Keyed.others_put _ rfl, ?_⟩
      · obtain rfl | he := Keyed.mem_of_mem_put _ he
        · refine ⟨hdate, readContent_submitted.2 ⟨c', historyConfig_hash hc' ?_, hpayment, hattempt, rfl⟩, rfl, rfl, rfl⟩
          rw [hknown]
          cases hhash : old.bind HistoryEntry.hash with
          | none => exact (readIntent_eq_ok.1 hj).2.1
          | some hash =>
            rw [hhash] at hform
            exact hform
        · exact hproper.again e he
      · intro e he heid hash hhash
        obtain rfl : old = some e := hold.symm.trans ((Keyed.find_eq_some _ hproper.nodup).2 ⟨he, heid⟩)
        refine ⟨_, Keyed.mem_put_self _, heid.symm, rfl, ?_⟩
        simp only [HistoryEntry.hash] at hknown ⊢
        rw [hknown]
        exact congrArg (Option.or · i.known) hhash

/-! ## Runs -/

/-- Reading leaves the entry as it is stored. -/
def HistoryEntry.Canonical (r : Recorder D) (e : HistoryEntry) : Prop :=
  e.others = [] ∧ match e.content with
  | .submitted _ => True
  | .preparation p _ => "funding" ∈ p.others ∨ r.getAddress p.recipient = p.recipient

theorem checkedRecordedPayment_eq {p q : RecordedPayment} (h : checkedRecordedPayment viem p = .ok q) :
    q = p ↔ "funding" ∈ p.others ∨ viem.getAddress p.recipient = p.recipient := by
  rw [checkedRecordedPayment] at h
  split at h
  next hfunding =>
    refine ⟨fun _ ↦ .inl hfunding, fun _ ↦ ?_⟩
    split at h
    · obtain ⟨_, -, h⟩ := Except.bind_eq_ok.1 h
      exact (Except.pure_eq_ok.1 h).symm
    · split at h
      · obtain ⟨_, -, h⟩ := Except.bind_eq_ok.1 h
        exact (Except.pure_eq_ok.1 h).symm
      · exact (Except.throw_ne_ok h).elim
  next hfunding =>
    obtain ⟨payment, hpayment, h⟩ := Except.bind_eq_ok.1 h
    obtain rfl := Except.pure_eq_ok.1 h
    obtain rfl := checkedPayment_eq hpayment
    obtain ⟨p, funding⟩ := p
    cases p
    simp [hfunding]

/-- An entry is read as it is stored if it is canonical. -/
theorem ReadAs.eq_iff (h : ReadAs r c e o) : o = e ↔ e.Canonical r := by
  obtain ⟨-, hcontent, hid, hrecorded, hothers⟩ := h
  obtain ⟨id, recordedAt, content, others⟩ := e
  obtain ⟨id', recordedAt', content', others'⟩ := o
  cases hid
  cases hrecorded
  cases hothers
  cases content with
  | submitted i =>
    obtain ⟨-, -, -, -, rfl⟩ := readContent_submitted.1 hcontent
    simp [HistoryEntry.Canonical, eq_comm]
  | preparation p detail =>
    obtain ⟨-, q, hq, rfl⟩ := readContent_preparation.1 hcontent
    simp only [HistoryEntry.Canonical, ← checkedRecordedPayment_eq hq, HistoryEntry.mk.injEq, true_and,
      Content.preparation.injEq, and_true]
    rw [and_comm, eq_comm (a := [])]

/-- The other entries are written back as they are stored if these are canonical. -/
theorem others_eq_iff (h : List.Forall₂ (ReadAs r c) entries entries') (attempt : String) :
    Keyed.others HistoryEntry.id attempt entries' = Keyed.others HistoryEntry.id attempt entries ↔
      ∀ e ∈ Keyed.others HistoryEntry.id attempt entries, e.Canonical r := by
  induction h with
  | nil => simp [Keyed.others]
  | @cons e o es os hread _ ih =>
    simp only [Keyed.others] at ih
    by_cases hid : e.id = attempt
    · have hid' : o.id = attempt := hread.2.2.1.trans hid
      simp only [Keyed.others, List.filter_cons, hid, hid', ne_eq, not_true_eq_false, decide_false]
      exact ih
    · have hid' : o.id ≠ attempt := hread.2.2.1 ▸ hid
      simp only [Keyed.others, List.filter_cons, hid, hid', ne_eq, not_false_eq_true, decide_true, if_true,
        List.cons.injEq, List.forall_mem_cons, hread.eq_iff, ih]

theorem eq_of_canonical (h : List.Forall₂ (ReadAs r c) entries entries') (hcanonical : ∀ e ∈ entries, e.Canonical r) :
    entries' = entries := by
  induction h with
  | nil => rfl
  | cons hread _ ih =>
    obtain ⟨he, hes⟩ := List.forall_mem_cons.1 hcanonical
    rw [hread.eq_iff.2 he, ih hes]

/-- **What an operation writes.** -/
theorem next_follows (hdoc : r.Documented) (hread : read r c stored = .ok entries) {op : Operation}
    (hop : op.Documented r stored) (hnext : op.next r c stored = .ok (.write entries')) :
    ∃ attempt, op.ownId = .ok attempt ∧ Follows r c attempt entries entries' ∧
      ∀ payment detail uuid now, op = .reject payment detail uuid now →
        ∃ fresh, fresh.id = uuid ∧ entries' = entries ++ [fresh] := by
  have hproper := proper_of_read hdoc hread
  cases op with
  | remember i now =>
    obtain ⟨attempt, hattempt, hfollows⟩ := remember_follows hproper hread hop hnext
    exact ⟨attempt, hattempt, hfollows, nofun⟩
  | reject payment detail uuid now =>
    obtain ⟨hfresh, hfollows⟩ := reject_follows hdoc hproper hread hop hnext
    refine ⟨uuid, rfl, hfollows, ?_⟩
    rintro _ _ _ _ ⟨⟩
    exact hfresh
  | cancel i =>
    obtain ⟨attempt, hattempt, hfollows⟩ := cancel_follows hproper hread hnext
    exact ⟨attempt, hattempt, hfollows, nofun⟩

/-- An operation stores nothing, or what it writes. -/
theorem apply_cases (op : Operation) (full : Bool) : (op.apply r c full stored).2 = stored ∨
    ∃ entries', op.next r c stored = .ok (.write entries') ∧
      op.apply r c full stored = (.ok entries', some (some ⟨1, c.instanceId, entries'.map some⟩)) := by
  rw [Operation.apply]
  split
  · exact .inl rfl
  · exact .inl rfl
  next entries' hnext =>
    split
    · exact .inl rfl
    · exact .inr ⟨entries', hnext, rfl⟩

/-- **Exactly the canonical entries are left as they are stored** by an operation that writes. -/
theorem next_others_iff (hdoc : r.Documented) (hread : read r c stored = .ok entries) {op : Operation}
    (hop : op.Documented r stored) (hattempt : op.ownId = .ok attempt)
    (hnext : op.next r c stored = .ok (.write entries')) :
    Keyed.others HistoryEntry.id attempt entries' = Keyed.others HistoryEntry.id attempt (entriesOf stored) ↔
      ∀ e ∈ Keyed.others HistoryEntry.id attempt (entriesOf stored), e.Canonical r := by
  obtain ⟨own, hown, hfollows, -⟩ := next_follows hdoc hread hop hnext
  obtain rfl := Except.ok.inj (hattempt.symm.trans hown)
  rw [← others_eq_iff (entries_of_read hread).1, hfollows.others]

/-- Calls of the store, one after the other. -/
inductive Run (r : Recorder D) (c : TreasuryConfig D) (stored : Stored) : Stored → Prop
  | nil : Run r c stored stored
  | step {stored' : Stored} (h : Run r c stored stored') (op : Operation) (full : Bool)
      (hop : op.Documented r stored') : Run r c stored (op.apply r c full stored').2

/-- What holds of a history at any time, and of its entries with a hash. -/
structure Kept (r : Recorder D) (c : TreasuryConfig D) (stored stored' : Stored) : Prop where
  read : read r c stored' = .ok (entriesOf stored')
  retained : ∀ e ∈ entriesOf stored, ∀ hash, e.hash = some hash →
    ∃ e' ∈ entriesOf stored', e'.id = e.id ∧ e'.recordedAt = e.recordedAt ∧ e'.hash = some hash

theorem Kept.apply (hdoc : r.Documented) (h : Kept r c stored stored') {op : Operation}
    (hop : op.Documented r stored') (full : Bool) : Kept r c stored (op.apply r c full stored').2 := by
  obtain heq | ⟨entries', hnext, hresult⟩ := apply_cases op full
  · rwa [heq]
  · obtain ⟨attempt, -, hfollows, -⟩ := next_follows hdoc h.read hop hnext
    rw [hresult]
    refine ⟨by rw [entriesOf_written]; exact read_written hfollows.proper, fun e he hash hhash ↦ ?_⟩
    rw [entriesOf_written]
    obtain ⟨e', he', hid, hrecorded, hhash'⟩ := h.retained e he hash hhash
    obtain ⟨e'', he'', hid', hrecorded', hhash''⟩ := hfollows.retained he' hhash'
    exact ⟨e'', he'', hid'.trans hid, hrecorded'.trans hrecorded, hhash''⟩

theorem Run.kept (hdoc : r.Documented) (hread : read r c stored = .ok (entriesOf stored))
    (h : Run r c stored stored') : Kept r c stored stored' := by
  induction h with
  | nil => exact ⟨hread, fun e he hash hhash ↦ ⟨e, he, rfl, rfl, hhash⟩⟩
  | step _ op full hop ih => exact ih.apply hdoc hop full

/-- **The payment history, in any run** from a history that is read, when its entries have only the properties of their
kinds, and the payments rejected before it their recipients in the checksum form.  It stays readable, with distinct
ids, and an entry with a hash stays, with its hash and its time.  An operation leaves the entries with other ids as
they are stored, `reject` appends one, and one that throws stores nothing. -/
theorem history_retained (hdoc : r.Documented) (hread : ∃ entries, read r c stored = .ok entries)
    (hcanonical : ∀ e ∈ entriesOf stored, e.Canonical r) (hrun : Run r c stored stored') :
    (read r c stored' = .ok (entriesOf stored') ∧ ((entriesOf stored').map HistoryEntry.id).Nodup) ∧
    (∀ later : Stored, Run r c stored' later → ∀ e ∈ entriesOf stored', ∀ hash, e.hash = some hash →
      ∃ e' ∈ entriesOf later, e'.id = e.id ∧ e'.recordedAt = e.recordedAt ∧ e'.hash = some hash) ∧
    ∀ (op : Operation) (full : Bool), op.Documented r stored' →
      (∀ error, (op.apply r c full stored').1 = .error error → (op.apply r c full stored').2 = stored') ∧
      (∀ attempt, op.ownId = .ok attempt →
        Keyed.others HistoryEntry.id attempt (entriesOf (op.apply r c full stored').2) =
          Keyed.others HistoryEntry.id attempt (entriesOf stored')) ∧
      ((∀ attempt, op.ownId ≠ .ok attempt) → (op.apply r c full stored').2 = stored') ∧
      ∀ payment detail uuid now, op = .reject payment detail uuid now → (op.apply r c full stored').2 = stored' ∨
        ∃ fresh, fresh.id = uuid ∧ entriesOf (op.apply r c full stored').2 = entriesOf stored' ++ [fresh] := by
  obtain ⟨entries, hread⟩ := hread
  have hstart : read r c stored = .ok (entriesOf stored) := by
    rw [hread, eq_of_canonical (entries_of_read hread).1 hcanonical]
  have hkept := hrun.kept hdoc hstart
  refine ⟨⟨hkept.read, (entries_of_read hkept.read).2⟩, fun later hlater ↦ (hlater.kept hdoc hkept.read).retained, ?_⟩
  intro op full hop
  obtain heq | ⟨entries', hnext, hresult⟩ := apply_cases op full
  · rw [heq]
    exact ⟨fun _ _ ↦ rfl, fun _ _ ↦ rfl, fun _ ↦ rfl, fun _ _ _ _ _ ↦ .inl rfl⟩
  · obtain ⟨attempt, hattempt, hfollows, hreject⟩ := next_follows hdoc hkept.read hop hnext
    rw [hresult, entriesOf_written]
    refine ⟨nofun, fun own hown ↦ ?_, fun hnone ↦ absurd hattempt (hnone attempt), fun _ _ _ _ hop ↦ .inr ?_⟩
    · obtain rfl := Except.ok.inj (hattempt.symm.trans hown)
      exact hfollows.others
    · exact hreject _ _ _ _ hop

/-! ## A recipient that is not in its checksum form -/

def sampleLower : String := "0x5b38da6a701c568545dcfcb03fcb875f56beddc4"

def sampleChecksum : String := "0x5B38Da6a701c568545dCfcB03FcB875f56beddC4"

def sampleHash : String := "0x" ++ String.ofList (List.replicate 64 '1')

/-- One address in its two forms. -/
def sampleRecorder : Recorder Unit where
  isAddress a := a = sampleLower ∨ a = sampleChecksum
  getAddress a := if a = sampleLower then sampleChecksum else a
  isStandard _ := false
  paymentHash _ _ _ := .ok sampleHash
  actionHash _ _ _ := .error "This treasury has no owner-action fixture; use a payment"
  isDate text := text = "2025-01-01T00:00:00.000Z"
  sameText _ _ := false

def sampleConfig : TreasuryConfig Unit := ⟨"devnet", some (), none, []⟩

def lowerPayment : RecordedPayment :=
  { kind := none, source := none, recipient := sampleLower, destination := "l2", epoch := "100", amount := "40000000",
    fromL1 := some "0", rollupId := none, invoiceId := none, others := [], funding := "" }

def sampleIntent (startBlock : String) (hash : Option String) : Intent :=
  { submissionChain := none, version := 1, instanceId := "devnet", value := "0", nonce := "5", safeHash := sampleHash,
    data := "0x1234", sender := sampleChecksum, sourceNonce := "0xa", startBlock, l2StartBlock := none,
    hash, payment := some lowerPayment }

def sampleTime : String := "2025-01-01T00:00:00.000Z"

/-- A payment that was rejected, as it may be stored. -/
def sampleEntry (recipient : String) : HistoryEntry :=
  ⟨"01234567-89ab-cdef-0123-456789abcdef", sampleTime, .preparation { lowerPayment with recipient } [], []⟩

/-- What is to be looked up in the longer texts. -/
theorem sampleTexts : lowerCase sampleChecksum = sampleLower ∧ bigInt sampleChecksum = bigInt sampleLower ∧
    sampleChecksum ≠ sampleLower ∧ isUuid "01234567-89ab-cdef-0123-456789abcdef" = true ∧
    isUuid "11234567-89ab-cdef-0123-456789abcdef" = true := by
  decide +kernel

theorem sampleRecorder_documented : sampleRecorder.Documented := by
  have hcases (a : String) (h : sampleRecorder.isAddress a = true) : a = sampleLower ∨ a = sampleChecksum :=
    of_decide_eq_true h
  obtain ⟨-, hvalue, hne, -⟩ := sampleTexts
  have hlower : sampleRecorder.getAddress sampleLower = sampleChecksum := by simp [sampleRecorder]
  have hchecksum : sampleRecorder.getAddress sampleChecksum = sampleChecksum := by simp [sampleRecorder, hne]
  refine ⟨fun a ha ↦ ?_, fun a ha ↦ ?_, fun a ha ↦ ?_, fun _ _ h ↦ absurd h Bool.false_ne_true⟩
  · obtain rfl | rfl := hcases a ha
    · rw [hlower]
      simp [sampleRecorder]
    · rwa [hchecksum]
  · obtain rfl | rfl := hcases a ha
    · rw [hlower, hvalue]
    · rw [hchecksum]
  · obtain rfl | rfl := hcases a ha
    · rw [hlower, hchecksum]
    · rw [hchecksum, hchecksum]

/-- The history with the payment that was rejected. -/
def sampleStored : Stored := some (some ⟨1, "devnet", [some (sampleEntry sampleLower)]⟩)

/-- **Another operation changes the entry**: cancelling an intent stores the recipient in its checksum form. -/
theorem cancel_rewrites :
    sampleRecorder.Documented ∧ (∃ entries, read sampleRecorder sampleConfig sampleStored = .ok entries) ∧
      ∃ attempt, (Operation.cancel (sampleIntent "0x12" none)).ownId = .ok attempt ∧
        Keyed.others HistoryEntry.id attempt (entriesOf
            ((Operation.cancel (sampleIntent "0x12" none)).apply sampleRecorder sampleConfig false sampleStored).2) ≠
          Keyed.others HistoryEntry.id attempt (entriesOf sampleStored) := by
  refine ⟨sampleRecorder_documented, ⟨_, rfl⟩, _, rfl, ?_⟩
  decide +kernel

/-- A payment with its hash, one that was rejected, and one whose hash is not known. -/
def sampleHistory : Stored := some (some ⟨1, "devnet",
  [some ⟨sampleHash ++ ":" ++ sampleLower ++ ":10:18", sampleTime,
      .submitted (sampleIntent "0x12" (some sampleHash)), []⟩,
   some (sampleEntry sampleChecksum),
   some ⟨sampleHash ++ ":" ++ sampleLower ++ ":10:19", sampleTime, .submitted (sampleIntent "0x13" none), []⟩]⟩)

/-- The hash is recovered, another payment is rejected, and the first cannot be removed. -/
def sampleOperations : List Operation :=
  [.remember (sampleIntent "0x13" (some sampleHash)) sampleTime,
   .reject lowerPayment.toPayment [] "11234567-89ab-cdef-0123-456789abcdef" sampleTime,
   .cancel (sampleIntent "0x12" none)]

/-- What is stored after the operations. -/
def sampleFinal : Stored :=
  sampleOperations.foldl (fun stored op ↦ (op.apply sampleRecorder sampleConfig false stored).2) sampleHistory

theorem sampleHistory_canonical : ∀ e ∈ entriesOf sampleHistory, e.Canonical sampleRecorder := by
  simp [sampleHistory, entriesOf, HistoryEntry.Canonical, sampleEntry, sampleRecorder, sampleTexts.2.2.1]

theorem hexOfLength_sampleHash : hexOfLength 64 sampleHash = true := by
  have htext : sampleHash.toList = '0' :: 'x' :: List.replicate 64 '1' := by
    rw [sampleHash, String.toList_append, String.toList_ofList]
    rfl
  have hdigits : (List.replicate 64 '1').all isHexDigit = true :=
    List.all_eq_true.2 fun d hd ↦ List.eq_of_mem_replicate hd ▸ by decide
  rw [hexOfLength, hexDigits?, htext]
  simp only [hdigits, if_true, Option.any_some, List.length_replicate, decide_true]

theorem sampleHash_ne : sampleHash ≠ "" := by
  intro h
  have hlength := hexOfLength_sampleHash
  rw [h] at hlength
  exact absurd hlength (by decide)

theorem historyConfig_sample {startBlock : String} {hash : Option String} (hstart : isHexNumber startBlock = true)
    (hhash : (hash.filter (· ≠ "")).all (hexOfLength 64) = true) :
    historyConfig sampleRecorder sampleConfig (sampleIntent startBlock hash) = .ok sampleConfig := by
  have hfields : isHexNumber "0xa" = true ∧ isData "0x1234" = true ∧ digits 1 78 "5" = true := by decide
  have hread : readIntent sampleRecorder sampleConfig (sampleIntent startBlock hash) =
      .ok (sampleIntent startBlock hash) := by
    rw [readIntent]
    simp only [sampleIntent, sampleConfig, Intent.known, hexOfLength_sampleHash, hhash, hstart, hfields]
    simp [raiseIf, sampleRecorder, reviewedHash, lowerPayment]
    rfl
  rw [historyConfig, hread]

theorem attemptId_sample {startBlock : String} {n : ℤ} (hstart : Js.bigInt startBlock = some n) (hash : Option String) :
    attemptId (sampleIntent startBlock hash) = .ok (sampleHash ++ ":" ++ sampleLower ++ ":10:" ++ toString n) := by
  have hnonce : Js.bigInt "0xa" = some 10 := by decide
  rw [attemptId]
  simp only [sampleIntent, hnonce, hstart, sampleTexts.1]
  show Except.ok _ = Except.ok _
  simp only [String.append_assoc]
  rfl

/-- The entry of an intent. -/
def intentEntry (startBlock : String) (n : ℤ) (hash : Option String) : HistoryEntry :=
  ⟨sampleHash ++ ":" ++ sampleLower ++ ":10:" ++ toString n, sampleTime, .submitted (sampleIntent startBlock hash), []⟩

/-- The entries of the history, with this as the hash of the last one. -/
def sampleEntries (hash : Option String) : List HistoryEntry :=
  [intentEntry "0x12" 18 (some sampleHash), sampleEntry sampleChecksum, intentEntry "0x13" 19 hash]

/-- The payment that is rejected. -/
def rejectedEntry : HistoryEntry :=
  ⟨"11234567-89ab-cdef-0123-456789abcdef", sampleTime,
    .preparation { lowerPayment with recipient := sampleChecksum } [], []⟩

abbrev written (entries : List HistoryEntry) : Stored := some (some ⟨1, sampleConfig.instanceId, entries.map some⟩)

theorem sampleHistory_eq : sampleHistory = written (sampleEntries none) := by
  have hnumbers : ":10:" ++ Int.repr 18 = ":10:18" ∧ ":10:" ++ Int.repr 19 = ":10:19" := ⟨rfl, rfl⟩
  simp [sampleHistory, written, sampleConfig, sampleEntries, intentEntry, String.append_assoc, hnumbers]

theorem nodup_ids (hash : Option String) : ((sampleEntries hash ++ [rejectedEntry]).map HistoryEntry.id).Nodup := by
  show ((sampleEntries none ++ [rejectedEntry]).map HistoryEntry.id).Nodup
  decide +kernel

theorem checkedPayment_sample :
    checkedPayment sampleRecorder.toViem lowerPayment.toPayment =
      .ok { lowerPayment.toPayment with recipient := sampleChecksum } ∧
    checkedRecordedPayment sampleRecorder.toViem { lowerPayment with recipient := sampleChecksum } =
      .ok { lowerPayment with recipient := sampleChecksum } := by
  decide +kernel

theorem readAs_intentEntry {startBlock : String} {n : ℤ} {hash : Option String} (hstart : isHexNumber startBlock = true)
    (hn : Js.bigInt startBlock = some n) (hhash : (hash.filter (· ≠ "")).all (hexOfLength 64) = true) :
    ReadAs sampleRecorder sampleConfig (intentEntry startBlock n hash) (intentEntry startBlock n hash) := by
  have hcontent : ∃ c', historyConfig sampleRecorder sampleConfig (sampleIntent startBlock hash) = .ok c' ∧
      (sampleIntent startBlock hash).payment ≠ none ∧ attemptId (sampleIntent startBlock hash) =
        .ok (intentEntry startBlock n hash).id ∧ (intentEntry startBlock n hash).content = .submitted _ :=
    ⟨_, historyConfig_sample hstart hhash, by simp [sampleIntent], attemptId_sample hn hash, rfl⟩
  exact ⟨by simp [intentEntry, sampleRecorder, sampleTime], readContent_submitted.2 hcontent, rfl, rfl, rfl⟩

theorem sampleHash_all : (Option.filter (· ≠ "") (some sampleHash)).all (hexOfLength 64) = true := by
  simp [Option.filter_some, sampleHash_ne, hexOfLength_sampleHash]

/-- The entries are read as they are, with or without the last hash. -/
theorem proper_sampleEntries {hash : Option String} (hhash : (hash.filter (· ≠ "")).all (hexOfLength 64) = true) :
    Proper sampleRecorder sampleConfig (sampleEntries hash) := by
  have hpreparation : ReadAs sampleRecorder sampleConfig (sampleEntry sampleChecksum) (sampleEntry sampleChecksum) :=
    ⟨by simp [sampleEntry, sampleRecorder, sampleTime], readContent_preparation.2 ⟨⟨sampleTexts.2.2.2.1, by decide⟩, _,
      checkedPayment_sample.2, rfl⟩, rfl, rfl, rfl⟩
  have hids := nodup_ids hash
  rw [List.map_append] at hids
  refine ⟨?_, (List.nodup_append.1 hids).1⟩
  rw [sampleEntries, List.forall_mem_cons, List.forall_mem_cons, List.forall_mem_singleton]
  exact ⟨readAs_intentEntry (by decide) (by decide) sampleHash_all, hpreparation,
    readAs_intentEntry (by decide) (by decide) hhash⟩

theorem remember_sample :
    remember sampleRecorder sampleConfig (written (sampleEntries none)) (sampleIntent "0x13" (some sampleHash))
      sampleTime = .ok (.write (sampleEntries (some sampleHash))) := by
  have hproper : Proper sampleRecorder sampleConfig (sampleEntries none) := proper_sampleEntries rfl
  have hconfig : historyConfig sampleRecorder sampleConfig (sampleIntent "0x13" (some sampleHash)) = .ok sampleConfig :=
    historyConfig_sample (by decide) sampleHash_all
  have hid : attemptId (sampleIntent "0x13" (some sampleHash)) = .ok (intentEntry "0x13" 19 none).id :=
    attemptId_sample (by decide) _
  have hfind : Keyed.find HistoryEntry.id (intentEntry "0x13" 19 none).id (sampleEntries none) =
      some (intentEntry "0x13" 19 none) := (Keyed.find_eq_some _ hproper.nodup).2 ⟨by simp [sampleEntries], rfl⟩
  have hput : Keyed.put HistoryEntry.id (sampleEntries none) (intentEntry "0x13" 19 (some sampleHash)) =
      sampleEntries (some sampleHash) := by
    have hids := hproper.nodup
    have hsame : (intentEntry "0x13" 19 (some sampleHash)).id = (intentEntry "0x13" 19 none).id := rfl
    simp only [sampleEntries, List.map_cons, List.map_nil, List.nodup_cons, List.mem_cons, not_or] at hids
    simp only [sampleEntries, Keyed.put, hsame, hids, if_false, if_true]
  refine Except.bind_eq_ok.2 ⟨_, read_written hproper, ?_⟩
  rw [if_neg (by simp [sampleIntent])]
  refine Except.bind_eq_ok.2 ⟨_, hconfig, Except.bind_eq_ok.2 ⟨_, sound_historyConfig hconfig,
    Except.bind_eq_ok.2 ⟨_, hid, ?_⟩⟩⟩
  rw [hfind]
  refine Except.bind_eq_ok.2 ⟨⟨⟩, raiseIf_eq_ok.2 ?_, ?_⟩
  · simp [intentEntry, HistoryEntry.hash, sampleIntent, Intent.known]
  · rw [if_neg (by simp [sampleRecorder]), ← hput]
    rfl

/-- The first payment has its hash, so that it is not removed. -/
theorem cancel_sample {stored : Stored}
    (hread : read sampleRecorder sampleConfig stored = .ok (sampleEntries (some sampleHash) ++ [rejectedEntry])) :
    ((Operation.cancel (sampleIntent "0x12" none)).apply sampleRecorder sampleConfig false stored).2 = stored := by
  have hid : attemptId (sampleIntent "0x12" none) = .ok (intentEntry "0x12" 18 (some sampleHash)).id :=
    attemptId_sample (by decide) _
  have hcases : ((Operation.cancel (sampleIntent "0x12" none)).apply sampleRecorder sampleConfig false stored).2 =
    stored ∨ _ := apply_cases _ _
  obtain heq | ⟨entries', hnext, -⟩ := hcases
  · exact heq
  · obtain ⟨_, heq, hnext⟩ := Except.bind_eq_ok.1 hnext
    obtain rfl := Except.ok.inj (hread.symm.trans heq)
    obtain ⟨_, heq', hnext⟩ := Except.bind_eq_ok.1 hnext
    obtain rfl := Except.ok.inj (hid.symm.trans heq')
    obtain ⟨_, hnone, -⟩ := Except.bind_eq_ok.1 hnext
    have hfind : Keyed.find HistoryEntry.id (intentEntry "0x12" 18 (some sampleHash)).id
        (sampleEntries (some sampleHash) ++ [rejectedEntry]) = some (intentEntry "0x12" 18 (some sampleHash)) :=
      (Keyed.find_eq_some _ (entries_of_read hread).2).2 ⟨by simp [sampleEntries], rfl⟩
    rw [hfind, raiseIf_eq_ok] at hnone
    exact absurd (.inr (by simp [intentEntry, HistoryEntry.hash, sampleIntent, Intent.known, sampleHash_ne])) hnone

theorem sampleRun : Run sampleRecorder sampleConfig sampleHistory sampleFinal ∧
    entriesOf sampleFinal = sampleEntries (some sampleHash) ++ [rejectedEntry] := by
  have hnow : sampleRecorder.isDate sampleTime = true := by simp [sampleRecorder, sampleTime]
  have hread : read sampleRecorder sampleConfig (written (sampleEntries none)) =
      .ok (entriesOf (written (sampleEntries none))) := by
    rw [entriesOf_written]
    exact read_written (proper_sampleEntries rfl)
  have hfresh : rejectedEntry.id ∉ (entriesOf (written (sampleEntries (some sampleHash)))).map HistoryEntry.id := by
    have hids := nodup_ids (some sampleHash)
    rw [List.map_append] at hids
    rw [entriesOf_written]
    exact fun hmem ↦ (List.nodup_append.1 hids).2.2 _ hmem _ (List.mem_singleton_self _) rfl
  have hremember : ((Operation.remember (sampleIntent "0x13" (some sampleHash)) sampleTime).apply sampleRecorder
      sampleConfig false (written (sampleEntries none))).2 = written (sampleEntries (some sampleHash)) := by
    rw [Operation.apply, Operation.next, remember_sample]
    rfl
  have hreject : ((Operation.reject lowerPayment.toPayment [] "11234567-89ab-cdef-0123-456789abcdef" sampleTime).apply
      sampleRecorder sampleConfig false (written (sampleEntries (some sampleHash)))).2 =
        written (sampleEntries (some sampleHash) ++ [rejectedEntry]) := by
    have hnext : reject sampleRecorder sampleConfig (written (sampleEntries (some sampleHash)))
        lowerPayment.toPayment [] "11234567-89ab-cdef-0123-456789abcdef" sampleTime =
          .ok (.write (sampleEntries (some sampleHash) ++ [rejectedEntry])) :=
      Except.bind_eq_ok.2 ⟨_, read_written (proper_sampleEntries sampleHash_all),
        Except.bind_eq_ok.2 ⟨_, checkedPayment_sample.1, rfl⟩⟩
    rw [Operation.apply, Operation.next, hnext]
    rfl
  have hrun : Run sampleRecorder sampleConfig (written (sampleEntries none))
      (written (sampleEntries (some sampleHash) ++ [rejectedEntry])) := by
    rw [← hreject]
    refine Run.step ?_ _ _ ⟨hnow, sampleTexts.2.2.2.2, hfresh⟩
    rw [← hremember]
    exact Run.nil.step _ _ hnow
  have hcancel := cancel_sample (by
    have hkept := (hrun.kept sampleRecorder_documented hread).read
    rwa [entriesOf_written] at hkept)
  have hfinal : sampleFinal = written (sampleEntries (some sampleHash) ++ [rejectedEntry]) := by
    rw [sampleFinal, sampleOperations, sampleHistory_eq, List.foldl_cons, hremember, List.foldl_cons, hreject,
      List.foldl_cons, hcancel, List.foldl_nil]
  refine ⟨?_, by rw [hfinal, entriesOf_written]⟩
  rw [sampleHistory_eq, hfinal, ← hcancel]
  exact hrun.step _ _ trivial

/-- Both payments have their hash in the end, and the history is still read. -/
theorem history_retained_sample :
    (entriesOf sampleFinal).map HistoryEntry.hash = [some sampleHash, none, some sampleHash, none] ∧
      read sampleRecorder sampleConfig sampleFinal = .ok (entriesOf sampleFinal) := by
  have hread : ∃ entries, read sampleRecorder sampleConfig sampleHistory = .ok entries := by
    rw [sampleHistory_eq]
    exact ⟨_, read_written (proper_sampleEntries rfl)⟩
  refine ⟨?_, (history_retained sampleRecorder_documented hread sampleHistory_canonical sampleRun.1).1.1⟩
  rw [sampleRun.2]
  simp [sampleEntries, rejectedEntry, sampleEntry, intentEntry, HistoryEntry.hash, sampleIntent, Intent.known,
    sampleHash_ne]

end Client
