import EezDashboard.Setup.Saving

/-!
# What no tab takes away

Any number of tabs save states of any age, one after the other.  Each saved state continues the one before it,
so that every later one continues every earlier one; and what the wallet was asked stays asked for as long as no
step completes, unless the wallet rejected just that.
-/

set_option autoImplicit false

namespace Setup

open Js

/-! ## The law -/

/-- One saved state continues another. -/
structure Continues (before after : Json) : Prop where
  completed : completed before <+: completed after
  transactions : transactions before <+: transactions after
  addresses : ∀ key value, get (at_ before "addresses") key = some value →
    same (get (at_ after "addresses") key) (some value) = true
  fixed : ∀ key ∈ ["build", "version", "bidirectional", "salt", "plan", "assetBinding"],
    at_ before key = at_ after key
  deployer : same (at_ before "deployer") (at_ after "deployer") = true

/-- The request that is outstanding in one state is so in another: only its hash may be another, or be new. -/
structure KeepsPending (before after : Json) : Prop where
  outstanding : truthy (at_ after "pending") = true
  same : withoutHash (at_ before "pending") = withoutHash (at_ after "pending")
  hash : truthy (get (at_ before "pending") "hash") = true → truthy (get (at_ after "pending") "hash") = true

theorem same_eq_true {a b : Option Json} :
    same a b = true ↔ ∃ s t, a = some (.str s) ∧ b = some (.str t) ∧ lowerCase s = lowerCase t := by
  constructor
  · intro h
    unfold Setup.same at h
    split at h
    · rename_i s t
      exact ⟨s, t, rfl, rfl, of_decide_eq_true h⟩
    · cases h
  · rintro ⟨s, t, rfl, rfl, h⟩
    exact decide_eq_true h

theorem same_trans {a b c : Option Json} (h : same a b = true) (h' : same b c = true) : same a c = true := by
  obtain ⟨s, t, rfl, rfl, hst⟩ := same_eq_true.1 h
  obtain ⟨t', u, ht, rfl, htu⟩ := same_eq_true.1 h'
  cases ht
  exact same_eq_true.2 ⟨s, u, rfl, rfl, hst.trans htu⟩

/-- What is read is among the entries. -/
theorem mem_entriesOf {value : Option Json} {key : String} {part : Json} (h : get value key = some part) :
    (key, part) ∈ entriesOf value := by
  obtain ⟨v, rfl, hfield⟩ := Option.bind_eq_some_iff.1 h
  cases v with
  | str s => cases hfield
  | _ => exact mem_of_lookup hfield

theorem Continues.trans {a b c : Json} (h : Continues a b) (h' : Continues b c) : Continues a c where
  completed := h.completed.trans h'.completed
  transactions := h.transactions.trans h'.transactions
  addresses := by
    intro key value hvalue
    have hsame := h.addresses key value hvalue
    obtain ⟨s, t, hs, ht, hst⟩ := same_eq_true.1 hsame
    exact same_trans (h'.addresses key (.str s) hs) (hs ▸ hsame)
  fixed := fun key hkey ↦ (h.fixed key hkey).trans (h'.fixed key hkey)
  deployer := same_trans h.deployer h'.deployer

theorem KeepsPending.trans {a b c : Json} (h : KeepsPending a b) (h' : KeepsPending b c) : KeepsPending a c where
  outstanding := h'.outstanding
  same := h.same.trans h'.same
  hash := fun hhash ↦ h'.hash (h.hash hhash)

/-! ## Accepted states -/

/-- What is used of a state that was accepted. -/
structure Accepted (env : Environment) (state : Json) : Prop where
  version : 2 ≤ versionOf state
  deployer : env.isAddress (at_ state "deployer") = true
  addresses : ∀ p ∈ entriesOf (at_ state "addresses"), env.isAddress (some p.2) = true
  length : (transactions state).length = (completed state).length
  pending : truthy (at_ state "pending") = true → ∃ id, get (at_ state "pending") "id" = some (.str id)

variable {env : Environment} {state : Json}

theorem Accepted.version_ne (h : Accepted env state) : at_ state "version" ≠ some (.num 1) := by
  intro hone
  have hversion := h.version
  rw [versionOf, show get (some state) "version" = some (.num 1) from hone] at hversion
  revert hversion
  decide

theorem checkPending_id {u : Unit} (h : checkPending env state = .ok u)
    (hpending : truthy (at_ state "pending") = true) :
    ∃ id, get (at_ state "pending") "id" = some (.str id) := by
  simp only [checkPending, if_pos hpending, Except.bind_eq_ok, check_eq_ok, Bool.and_eq_true] at h
  obtain ⟨-, ⟨⟨⟨⟨⟨⟨⟨hid, -⟩, -⟩, -⟩, -⟩, -⟩, -⟩, -⟩, -⟩ := h
  obtain ⟨id, hid⟩ := Option.isSome_iff_exists.1 hid
  exact ⟨id, string?_eq_some.1 hid⟩

theorem validState_accepted {u : Unit} (h : validState env state = .ok u) : Accepted env state := by
  rw [validState] at h
  simp only [Except.bind_eq_ok] at h
  obtain ⟨_, hbase, _, -, _, -, _, -, _, -, _, hpending, -⟩ := h
  simp only [checkBase, Except.bind_eq_ok, check_eq_ok, Bool.and_eq_true, decide_eq_true_eq,
    List.all_eq_true] at hbase
  obtain ⟨_, -, _, -, ⟨⟨⟨⟨⟨⟨⟨⟨⟨⟨hversion, -⟩, -⟩, hdeployer⟩, -⟩, -⟩, -⟩, -⟩, -⟩, -⟩, haddresses⟩, hlength⟩ := hbase
  exact ⟨hversion, hdeployer, haddresses, hlength, checkPending_id hpending⟩

theorem isAddress_str {value : Option Json} (h : env.isAddress value = true) :
    ∃ s, value = some (.str s) ∧ lowerCase s ≠ "" := by
  rw [Environment.isAddress, Option.any_eq_true] at h
  obtain ⟨s, hs, hall⟩ := h
  refine ⟨s, string?_eq_some.1 hs, fun hempty ↦ ?_⟩
  rw [Bool.and_eq_true, Bool.and_eq_true] at hall
  have hlist : s.toList.map Char.toLower = [] := by
    have hempty' := congrArg String.toList hempty
    rw [lowerCase, String.toList_ofList] at hempty'
    exact hempty'
  rw [List.map_eq_nil_iff.1 hlist] at hall
  cases hall.1.1

/-- An accepted state is what it was read as. -/
theorem readState_accepted {state' : Json} (h : readState env state = .ok (some state')) :
    Accepted env state' := by
  rw [readState] at h
  split at h
  · simp only [Except.bind_eq_ok] at h
    obtain ⟨_, -, h⟩ := h
    split at h
    · cases h
    · simp only [Except.bind_eq_ok, Except.pure_eq_ok] at h
      obtain ⟨_, hvalid, heq⟩ := h
      cases heq
      exact validState_accepted hvalid
  · simp only [Except.bind_eq_ok, Except.pure_eq_ok] at h
    obtain ⟨_, hvalid, heq⟩ := h
    cases heq
    exact validState_accepted hvalid

/-- A state of a later version is read as it is. -/
theorem readState_eq {result : Option Json} (h : readState env state = .ok result)
    (hversion : at_ state "version" ≠ some (.num 1)) : result = some state := by
  rw [readState, if_neg hversion] at h
  simp only [Except.bind_eq_ok, Except.pure_eq_ok] at h
  obtain ⟨_, -, heq⟩ := h
  exact heq.symm

theorem prefix_of_startsWith {source : Json} (h : startsWith source state = true)
    (hlength : (transactions source).length = (completed source).length) :
    completed source <+: completed state ∧ transactions source <+: transactions state := by
  rw [startsWith, List.all_eq_true] at h
  have hat : ∀ i (hi : i < (completed source).length), (completed state)[i]? = some (completed source)[i] ∧
      (transactions state)[i]? = (transactions source)[i]? := by
    intro i hi
    have hi' := h ((completed source)[i], i) (List.mk_mem_zipIdx_iff_getElem?.2 (List.getElem?_eq_getElem hi))
    rw [Bool.and_eq_true, decide_eq_true_eq, decide_eq_true_eq] at hi'
    exact hi'
  refine ⟨List.prefix_iff_getElem?.2 fun i hi ↦ (hat i hi).1, List.prefix_iff_getElem?.2 fun i hi ↦ ?_⟩
  rw [(hat i (hlength ▸ hi)).2]
  exact List.getElem?_eq_getElem hi

/-! ## One save -/

theorem Accepted.refl (h : Accepted env state) : Continues state state where
  completed := List.prefix_rfl
  transactions := List.prefix_rfl
  addresses := by
    intro key value hvalue
    obtain ⟨s, hs, -⟩ := isAddress_str (h.addresses _ (mem_entriesOf hvalue))
    rw [hvalue, hs]
    exact same_eq_true.2 ⟨s, s, rfl, rfl, rfl⟩
  fixed := fun _ _ ↦ rfl
  deployer := by
    obtain ⟨s, hs, -⟩ := isAddress_str h.deployer
    rw [hs]
    exact same_eq_true.2 ⟨s, s, rfl, rfl, rfl⟩

theorem truthy_of_entries {value : Option Json} (h : entriesOf value ≠ []) : truthy value = true := by
  cases value with
  | none => exact absurd rfl h
  | some v =>
    cases v with
    | null => exact absurd rfl h
    | bool => exact absurd rfl h
    | num => exact absurd rfl h
    | str s =>
      refine decide_eq_true fun hempty ↦ h ?_
      rw [hempty]
      rfl
    | arr => rfl
    | obj => rfl

/-- A request that is outstanding has an identifier, which the comparison without the hash keeps. -/
theorem keepsPending_of_eq {before next : Json} (hbefore : Accepted env before)
    (hpending : truthy (at_ before "pending") = true)
    (hsame : withoutHash (at_ before "pending") = withoutHash (at_ next "pending"))
    (hhash : truthy (get (at_ before "pending") "hash") = true → truthy (get (at_ next "pending") "hash") = true) :
    KeepsPending before next := by
  refine ⟨truthy_of_entries fun hempty ↦ ?_, hsame, hhash⟩
  obtain ⟨id, hid⟩ := hbefore.pending hpending
  rw [withoutHash, withoutHash, Json.obj.injEq, hempty] at hsame
  have hmem : ("id", Json.str id) ∈ (entriesOf (at_ before "pending")).filter fun p ↦ p.1 ≠ "hash" :=
    List.mem_filter.2 ⟨mem_entriesOf hid, rfl⟩
  rw [hsame] at hmem
  exact absurd hmem List.not_mem_nil

/-- The wallet rejected exactly the request that is outstanding, which it had not sent. -/
structure Rejects (before : Json) (attempt : Attempt) : Prop where
  request : attempt.walletRejected = at_ before "pending"
  unsent : truthy (get (at_ before "pending") "hash") = false

theorem contains_get {addresses : Option Json} {entries : List (String × Json)}
    (h : Environment.contains addresses entries = true) {key : String} {value : Json}
    (hmem : (key, value) ∈ entries) (haddress : env.isAddress (some value) = true) :
    same (get addresses key) (some value) = true := by
  rw [Environment.contains, List.all_eq_true] at h
  have hsame := h _ hmem
  obtain ⟨s, hs, hne⟩ := isAddress_str haddress
  cases hs
  obtain ⟨t, s', ht, hs', hlower⟩ := same_eq_true.1 hsame
  cases hs'
  rw [Option.some.injEq] at ht
  unfold orElse at ht
  split at ht
  · cases ht
    exact absurd hlower.symm hne
  · cases ht
    exact absurd hlower.symm hne
  · rename_i v hget
    cases ht
    exact same_eq_true.2 ⟨t, s, hget, rfl, hlower⟩

theorem checkReplaces_continues {before : Json} {attempt : Attempt} {u : Unit} (hbefore : Accepted env before)
    (h : checkReplaces before attempt = .ok u) : Continues before attempt.next ∧
      (truthy (at_ before "pending") = true → ¬truthy attempt.walletRejected = true →
        (completed attempt.next).length = (completed before).length → KeepsPending before attempt.next) := by
  simp only [checkReplaces, Except.bind_eq_ok, check_eq_ok, Bool.and_eq_true, List.all_cons, List.all_nil,
    and_true, decide_eq_true_eq] at h
  obtain ⟨_, ⟨⟨hbuild, hversion, hbidirectional, hsalt⟩, hdeployer⟩, _, ⟨hstarts, haddresses⟩, _,
    ⟨hplan, hasset⟩, hpending⟩ := h
  obtain ⟨hcompleted, htransactions⟩ := prefix_of_startsWith hstarts hbefore.length
  refine ⟨⟨hcompleted, htransactions, ?_, ?_, hdeployer⟩, fun htruthy hrejected hlength ↦ ?_⟩
  · intro key value hvalue
    have hmem := mem_entriesOf hvalue
    exact contains_get haddresses hmem (hbefore.addresses _ hmem)
  · simp only [List.forall_mem_cons]
    exact ⟨hbuild, hversion, hbidirectional, hsalt, hplan, hasset, fun _ h ↦ absurd h List.not_mem_nil⟩
  · rw [if_pos ⟨htruthy, hrejected, hlength⟩, check_eq_ok, Bool.and_eq_true, decide_eq_true_eq,
      Bool.or_eq_true, Bool.not_eq_true'] at hpending
    refine keepsPending_of_eq hbefore htruthy hpending.2 fun hhash ↦ ?_
    exact hpending.1.resolve_left (by rw [hhash]; exact Bool.noConfusion)

variable {b : Browser} {storage : Storage} {attempt : Attempt}

theorem setItem_frame {key other : StorageKey} (value : Json) (h : other ≠ key) :
    (setItem b storage key value).2 other = storage other := by
  rw [setItem]
  split
  · exact Function.update_of_ne h _ _
  · rfl

theorem retainSourceRequests_frame (requests : Option Json) (identity : String) :
    (retainSourceRequests b storage requests).2 (.deployment identity) = storage (.deployment identity) := by
  rw [retainSourceRequests]
  split
  · dsimp only
    split
    · rfl
    · rfl
    · split
      · exact setItem_frame _ nofun
      · rfl
  · rfl

/-- A save that is refused leaves the journals alone. -/
theorem saveDeployment_refused {e : String} (h : (saveDeployment b storage attempt).1 = .error e)
    (identity : String) :
    (saveDeployment b storage attempt).2 (.deployment identity) = storage (.deployment identity) := by
  have hframe : (retainSourceRequests b storage (at_ attempt.next "sourceRequests")).2 (.deployment identity) = _ :=
    retainSourceRequests_frame _ identity
  rw [saveDeployment] at h ⊢
  split at h
  · rfl
  · split at h
    · rename_i hretain
      rw [hretain] at hframe
      exact hframe
    · rename_i hretain
      rw [hretain] at hframe
      rw [setItem] at h ⊢
      split at h
      · cases h
      · rename_i hstores
        rw [if_neg hstores]
        exact hframe

theorem loadDeployment_refused {e : String} (h : (saveDeployment b storage attempt).1 = .error e) :
    loadDeployment b (saveDeployment b storage attempt).2 = loadDeployment b storage := by
  rw [loadDeployment, sharedDeploymentKey, legacyDeploymentKey, saveDeployment_refused h, saveDeployment_refused h]
  rfl

/-- A save that is not refused was checked, and is what is read next. -/
theorem saveDeployment_saved {u : Unit} (h : (saveDeployment b storage attempt).1 = .ok u) :
    checkNext b storage attempt = .ok u ∧
      loadDeployment b (saveDeployment b storage attempt).2 = readState b.toEnvironment attempt.next := by
  rw [saveDeployment] at h ⊢
  split at h
  · cases h
  · rename_i hcheck
    split at h
    · cases h
    · rename_i hretain
      rw [setItem] at h
      split at h
      · rename_i hstores
        refine ⟨hcheck, ?_⟩
        rw [setItem, if_pos hstores, loadDeployment]
        dsimp only
        rw [Function.update_self, Option.some_or]
        rfl
      · cases h

/-- What a save does to the state that is read. -/
inductive Saved (before : Json) (attempt : Attempt) : Json → Prop
  | refused : Saved before attempt before
  | replaced (hcontinues : Continues before attempt.next)
      (hpending : truthy (at_ before "pending") = true →
        (completed attempt.next).length = (completed before).length →
          KeepsPending before attempt.next ∨ Rejects before attempt) :
      Saved before attempt attempt.next

theorem loadDeployment_accepted {before : Json} (h : loadDeployment b storage = .ok (some before)) :
    Accepted b.toEnvironment before := by
  rw [loadDeployment] at h
  unfold readDeployment at h
  split at h
  · cases h
  · cases h
  · cases h
  · exact readState_accepted h

theorem checkRejected_rejects {before : Json} {u : Unit}
    (h : checkRejected (some before) attempt = .ok u) : Rejects before attempt := by
  rw [checkRejected, check_eq_ok, Option.any_some] at h
  simp only [Bool.and_eq_true, decide_eq_true_eq, Bool.not_eq_true'] at h
  obtain ⟨⟨⟨⟨-, hunsent⟩, -⟩, -⟩, hrequest⟩ := h
  exact ⟨hrequest.symm, hunsent⟩

/-- What was checked before a save over a state that is there. -/
theorem checkNext_some {before : Json} {u : Unit} (h : loadDeployment b storage = .ok (some before))
    (hcheck : checkNext b storage attempt = .ok u) :
    (∃ result, readState b.toEnvironment attempt.next = .ok result) ∧
      (truthy attempt.walletRejected = true → Rejects before attempt) ∧ checkReplaces before attempt = .ok u := by
  rw [checkNext, h] at hcheck
  obtain ⟨before', hbefore, hcheck⟩ := Except.bind_eq_ok.1 hcheck
  cases hbefore
  obtain ⟨result, hread, hcheck⟩ := Except.bind_eq_ok.1 hcheck
  obtain ⟨u', hrejected, hreplaces⟩ := Except.bind_eq_ok.1 hcheck
  refine ⟨⟨result, hread⟩, fun hwallet ↦ ?_, hreplaces⟩
  rw [if_pos hwallet] at hrejected
  exact checkRejected_rejects hrejected

theorem saveDeployment_step {before : Json} (h : loadDeployment b storage = .ok (some before)) :
    ∃ after, loadDeployment b (saveDeployment b storage attempt).2 = .ok (some after) ∧
      Saved before attempt after := by
  have hbefore := loadDeployment_accepted h
  cases hresult : (saveDeployment b storage attempt).1 with
  | error e => exact ⟨before, (loadDeployment_refused hresult).trans h, .refused⟩
  | ok u =>
    obtain ⟨hcheck, hload⟩ := saveDeployment_saved hresult
    obtain ⟨⟨result, hread⟩, hrejected, hreplaces⟩ := checkNext_some h hcheck
    obtain ⟨hcontinues, hpending⟩ := checkReplaces_continues hbefore hreplaces
    have hversion : at_ attempt.next "version" ≠ some (.num 1) := by
      rw [← hcontinues.fixed "version" (by decide)]
      exact hbefore.version_ne
    refine ⟨attempt.next, ?_, .replaced hcontinues fun htruthy hlength ↦ ?_⟩
    · rw [hload, hread, readState_eq hread hversion]
    · by_cases hwallet : truthy attempt.walletRejected = true
      · exact .inr (hrejected hwallet)
      · exact .inl (hpending htruthy hwallet hlength)

/-- Whatever is saved can be read again. -/
theorem saveDeployment_readable {start : Option Json} (h : loadDeployment b storage = .ok start) :
    ∃ after, loadDeployment b (saveDeployment b storage attempt).2 = .ok after := by
  cases hresult : (saveDeployment b storage attempt).1 with
  | error e => exact ⟨start, (loadDeployment_refused hresult).trans h⟩
  | ok u =>
    obtain ⟨hcheck, hload⟩ := saveDeployment_saved hresult
    rw [checkNext, h] at hcheck
    obtain ⟨before, -, hcheck⟩ := Except.bind_eq_ok.1 hcheck
    obtain ⟨result, hread, -⟩ := Except.bind_eq_ok.1 hcheck
    exact ⟨result, hload.trans hread⟩

/-! ## Any number of saves -/

section Runs

variable {attempts : List Attempt} {i j : ℕ}

/-- One more call, or none if all were made. -/
theorem storageAt_zero : storageAt b storage attempts 0 = storage := rfl

theorem storageAt_cons (attempt : Attempt) (n : ℕ) : storageAt b storage (attempt :: attempts) (n + 1) =
    storageAt b (saveDeployment b storage attempt).2 attempts n := rfl

theorem storageAt_succ (n : ℕ) : storageAt b storage attempts (n + 1) = match attempts[n]? with
    | none => storageAt b storage attempts n
    | some attempt => (saveDeployment b (storageAt b storage attempts n) attempt).2 := by
  rw [storageAt, List.take_add_one]
  cases attempts[n]? with
  | none => rw [Option.toList_none, List.append_nil, storageAt]
  | some attempt => rw [Option.toList_some, saveAll, List.foldl_append]; rfl

/-- Every journal on the way can be read. -/
theorem journalAt_readable {start : Option Json} (h : loadDeployment b storage = .ok start) (n : ℕ) :
    ∃ state, journalAt b storage attempts n = .ok state := by
  induction n with
  | zero => exact ⟨start, h⟩
  | succ n ih =>
    obtain ⟨state, hstate⟩ := ih
    rw [journalAt, storageAt_succ]
    split
    · exact ⟨state, hstate⟩
    · exact saveDeployment_readable hstate

/-- The wallet rejected the request of `before`, as it still was after `k` calls. -/
def RejectedAt (b : Browser) (storage : Storage) (attempts : List Attempt) (before : Json) (k : ℕ) : Prop :=
  ∃ attempt middle, attempts[k]? = some attempt ∧ journalAt b storage attempts k = .ok (some middle) ∧
    KeepsPending before middle ∧ Rejects middle attempt

/-- What holds between the states that are read at two times. -/
structure Follows (b : Browser) (storage : Storage) (attempts : List Attempt) (i j : ℕ) (before after : Json) :
    Prop where
  continues : Continues before after
  pending : truthy (at_ before "pending") = true → (completed after).length = (completed before).length →
    KeepsPending before after ∨ ∃ k, i ≤ k ∧ k < j ∧ RejectedAt b storage attempts before k

theorem Follows.refl {before : Json} (h : Accepted b.toEnvironment before) :
    Follows b storage attempts i i before before :=
  ⟨h.refl, fun htruthy _ ↦ .inl ⟨htruthy, rfl, id⟩⟩

theorem Follows.mono {before after : Json} {j' : ℕ} (h : Follows b storage attempts i j before after)
    (hj : j ≤ j') : Follows b storage attempts i j' before after := by
  refine ⟨h.continues, fun htruthy hlength ↦ ?_⟩
  obtain hkeeps | ⟨k, hik, hkj, hrejected⟩ := h.pending htruthy hlength
  · exact .inl hkeeps
  · exact .inr ⟨k, hik, Nat.lt_of_lt_of_le hkj hj, hrejected⟩

/-- One save after the others. -/
theorem Follows.step {before middle after : Json} (h : Follows b storage attempts i j before middle) (hij : i ≤ j)
    (hattempt : attempts[j]? = some attempt) (hmiddle : journalAt b storage attempts j = .ok (some middle))
    (hsaved : Saved middle attempt after) : Follows b storage attempts i (j + 1) before after := by
  cases hsaved with
  | refused => exact h.mono (Nat.le_succ j)
  | replaced hcontinues hpending =>
    refine ⟨h.continues.trans hcontinues, fun htruthy hlength ↦ ?_⟩
    -- no step was completed in between either
    have hle := h.continues.completed.length_le
    have hle' := hcontinues.completed.length_le
    obtain hkeeps | ⟨k, hik, hkj, hrejected⟩ := h.pending htruthy (by omega)
    · obtain hkeeps' | hrejects := hpending hkeeps.outstanding (by omega)
      · exact .inl (hkeeps.trans hkeeps')
      · exact .inr ⟨j, hij, Nat.lt_succ_self j, attempt, middle, hattempt, hmiddle, hkeeps, hrejects⟩
    · exact .inr ⟨k, hik, Nat.lt_succ_of_lt hkj, hrejected⟩

/-- Any state that is read later follows the one before. -/
theorem journalAt_follows {before : Json} (h : journalAt b storage attempts i = .ok (some before)) (hij : i ≤ j) :
    ∃ after, journalAt b storage attempts j = .ok (some after) ∧ Follows b storage attempts i j before after := by
  induction j, hij using Nat.le_induction with
  | base => exact ⟨before, h, .refl (loadDeployment_accepted h)⟩
  | succ j hij ih =>
    obtain ⟨middle, hmiddle, hfollows⟩ := ih
    rw [journalAt, storageAt_succ]
    cases hattempt : attempts[j]? with
    | none => exact ⟨middle, hmiddle, hfollows.mono (Nat.le_succ j)⟩
    | some attempt =>
      obtain ⟨after, hafter, hsaved⟩ : ∃ after, _ ∧ Saved middle attempt after := saveDeployment_step hmiddle
      exact ⟨after, hafter, hfollows.step hij hattempt hmiddle hsaved⟩

end Runs

/-- Whatever the tabs save, in whatever order, starting from a journal that is accepted: every journal on the way
is accepted; every state follows every earlier one; and a save that is refused leaves the journal as it is. -/
theorem saveAll_lawful (b : Browser) (storage : Storage) (attempts : List Attempt) (start : Option Json)
    (h : loadDeployment b storage = .ok start) :
    (∀ n, ∃ state, journalAt b storage attempts n = .ok state) ∧
      (∀ i j before, i ≤ j → journalAt b storage attempts i = .ok (some before) →
        ∃ after, journalAt b storage attempts j = .ok (some after) ∧
          Follows b storage attempts i j before after) ∧
      ∀ n attempt e, attempts[n]? = some attempt →
        (saveDeployment b (storageAt b storage attempts n) attempt).1 = .error e → ∀ identity,
          storageAt b storage attempts (n + 1) (.deployment identity) =
            storageAt b storage attempts n (.deployment identity) := by
  refine ⟨journalAt_readable h, fun i j before hij hbefore ↦ journalAt_follows hbefore hij, ?_⟩
  intro n attempt e hattempt herror identity
  rw [storageAt_succ, hattempt]
  exact saveDeployment_refused herror identity

/-! ## A setup that three saves are made of -/

def checksumDeployer : String := "0xcEAF908C05B277E92e89b51B281Ec76305b9A141"

/-- A browser with room for everything. -/
def roomyBrowser : Browser where
  identity := "0x11"
  legacyIdentity := "0x22"
  legacyOwner := checksumDeployer
  official := []
  getAddress := fun _ ↦ checksumDeployer
  reviewHash := fun _ ↦ .error "Nothing to review"
  stores := fun _ _ _ ↦ true

def lowerDeployer : String := "0xceaf908c05b277e92e89b51b281ec76305b9a141"

def sampleDigest : String := "0x0000000000000000000000000000000000000000000000000000000000000000"

/-- A setup with its steps, the address each of them has created, and what else there is. -/
def setupState (deployer : String) (steps : List String) (rest : List (String × Json)) : Json :=
  .obj ([("build", .str "0000000000000000000000000000000000000000000000000000000000000000"), ("version", .num 2),
    ("identity", .str "0x11"), ("deployer", .str deployer), ("salt", .str sampleDigest), ("reuse", .obj []),
    ("completed", .arr (steps.map Json.str)), ("addresses", .obj (steps.map fun step ↦ (step, .str lowerDeployer))),
    ("transactions", .arr (steps.map fun _ ↦ .str sampleDigest))] ++ rest)

/-- The request of the step after the first, with its hash if it is known. -/
def sampleRequest (hash : List (String × Json)) : String × Json :=
  ("pending", .obj ([("id", .str "singletonL1"), ("chain", .str "l1"), ("sender", .str lowerDeployer),
    ("nonce", .str "0x1"), ("data", .str "0x00")] ++ hash))

/-- One step was taken, and the wallet was asked for the next. -/
def startedState : Json := setupState checksumDeployer ["factoryL1"] [sampleRequest []]

def startedStorage : Storage :=
  Function.update (fun _ ↦ none) (sharedDeploymentKey roomyBrowser) (some (.of startedState))

/-- A tab saves the hash of the request, with the deployer in small letters. -/
def recased : Attempt where
  next := setupState lowerDeployer ["factoryL1"] [sampleRequest [("hash", .str sampleDigest)]]
  walletRejected := none

/-- Another one still has the state without the hash. -/
def stale : Attempt where
  next := startedState
  walletRejected := none

/-- The step is confirmed. -/
def confirmed : Attempt where
  next := setupState checksumDeployer ["factoryL1", "singletonL1"] []
  walletRejected := none

/-- The states of the three saves, and the one before them, pass the checks of a journal. -/
theorem readState_samples :
    readState roomyBrowser.toEnvironment startedState = .ok (some startedState) ∧
      readState roomyBrowser.toEnvironment recased.next = .ok (some recased.next) ∧
      readState roomyBrowser.toEnvironment stale.next = .ok (some stale.next) ∧
      readState roomyBrowser.toEnvironment confirmed.next = .ok (some confirmed.next) := by
  refine ⟨?_, ?_, ?_, ?_⟩
  all_goals
    rw [readState, validState]
    decide +kernel

theorem loadDeployment_started : loadDeployment roomyBrowser startedStorage = .ok (some startedState) := by
  rw [loadDeployment, startedStorage, Function.update_self, Option.some_or, readDeployment]
  exact readState_samples.1

/-- A browser with room for everything saves what passes the checks. -/
theorem saveDeployment_roomy {storage : Storage} {attempt : Attempt}
    (hcheck : checkNext roomyBrowser storage attempt = .ok ⟨⟩)
    (hrequests : at_ attempt.next "sourceRequests" = none) :
    (saveDeployment roomyBrowser storage attempt).1 = .ok ⟨⟩ := by
  rw [saveDeployment, hcheck, hrequests]
  rfl

theorem saveDeployment_recased : (saveDeployment roomyBrowser startedStorage recased).1 = .ok ⟨⟩ := by
  refine saveDeployment_roomy ?_ (by decide +kernel)
  rw [checkNext, loadDeployment_started, readState_samples.2.1]
  decide +kernel

theorem loadDeployment_recased :
    loadDeployment roomyBrowser (saveDeployment roomyBrowser startedStorage recased).2 = .ok (some recased.next) :=
  (saveDeployment_saved saveDeployment_recased).2.trans readState_samples.2.1

/-- The text of the deployer's address need not stay. -/
theorem saveAll_deployer_text : ¬∀ (b : Browser) (storage : Storage) (attempts : List Attempt) (i j : ℕ)
    (before after : Json), i ≤ j → journalAt b storage attempts i = .ok (some before) →
      journalAt b storage attempts j = .ok (some after) → at_ before "deployer" = at_ after "deployer" := by
  intro h
  have hbefore : journalAt roomyBrowser startedStorage [recased] 0 = .ok (some startedState) := by
    rw [journalAt, storageAt_zero]
    exact loadDeployment_started
  have hafter : journalAt roomyBrowser startedStorage [recased] 1 = .ok (some recased.next) := by
    rw [journalAt, storageAt_cons, storageAt_zero]
    exact loadDeployment_recased
  have hsame := h roomyBrowser startedStorage [recased] 0 1 _ _ (Nat.zero_le 1) hbefore hafter
  revert hsame
  decide +kernel

/-- The tab without the hash is turned down, and the confirmation is not. -/
theorem journalAt_confirmed :
    journalAt roomyBrowser startedStorage [recased, stale, confirmed] 3 = .ok (some confirmed.next) := by
  have hrefused : saveDeployment roomyBrowser (saveDeployment roomyBrowser startedStorage recased).2 stale =
      (.error "Keep the exact pending wallet request", (saveDeployment roomyBrowser startedStorage recased).2) := by
    have hcheck : checkNext roomyBrowser (saveDeployment roomyBrowser startedStorage recased).2 stale =
        .error "Keep the exact pending wallet request" := by
      rw [checkNext, loadDeployment_recased, readState_samples.2.2.1]
      decide +kernel
    rw [saveDeployment, hcheck]
  have hsaved : (saveDeployment roomyBrowser (saveDeployment roomyBrowser startedStorage recased).2 confirmed).1 =
      .ok ⟨⟩ := by
    refine saveDeployment_roomy ?_ (by decide +kernel)
    rw [checkNext, loadDeployment_recased, readState_samples.2.2.2]
    decide +kernel
  have hkept : (saveDeployment roomyBrowser (saveDeployment roomyBrowser startedStorage recased).2 stale).2 =
      (saveDeployment roomyBrowser startedStorage recased).2 := by
    rw [hrefused]
  rw [journalAt, storageAt_cons, storageAt_cons, storageAt_cons, storageAt_zero, hkept]
  exact (saveDeployment_saved hsaved).2.trans readState_samples.2.2.2

/-- Of the three saves the second is refused, and the state after them follows the first. -/
theorem saveAll_lawful_recased :
    Follows roomyBrowser startedStorage [recased, stale, confirmed] 0 3 startedState confirmed.next := by
  obtain ⟨after, hafter, hfollows⟩ := (saveAll_lawful roomyBrowser startedStorage [recased, stale, confirmed] _
    loadDeployment_started).2.1 0 3 startedState (Nat.zero_le 3) (by
      rw [journalAt, storageAt_zero]
      exact loadDeployment_started)
  obtain rfl := Option.some.inj (Except.ok.inj (hafter.symm.trans journalAt_confirmed))
  exact hfollows

end Setup
