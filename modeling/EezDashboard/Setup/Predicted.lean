import EezDashboard.Setup.Confirmed
import EezDashboard.Treasury.Batches

/-!
# What a batch deploys

The batches of `Deployment` are performed by a `TreasuryBootstrap`.  `World` is what such an executor
sees of the chain while it performs one: its own nonce, which only its creations move, the code of the
accounts and the logs of the others.  What the accounts created and called do is a script, and nothing is assumed of it: they
may fail, return anything and deploy more accounts; what they cannot do is change the executor's
storage (`Keeps.busy`) or the code of an account that has some.

`Deployment.materializeGroup_predicts` compares the two: the addresses that were computed are those the
creations get, a batch that was put together for another nonce does not come to its end, and one that
does is confirmed with these addresses, provided the accounts have the code that was reviewed.
-/

set_option autoImplicit false

namespace Deployment

open Contract Prog Bootstrap

/-! ## The chain around an executor -/

/-- What an account that is created or called does: what it returns, a new account its code, the
accounts it creates in turn, with their code, and the logs written meanwhile. -/
inductive Happening
  | fails (result : List UInt8)
  | succeeds (result : List UInt8) (below : List (Address × List UInt8)) (logs : List Log)

structure World where
  self : Address
  nonce : ℕ
  code : Address → List UInt8
  logs : List Log
  script : List Happening

/-- New accounts get their code; an account with code keeps it. -/
def deployed (code : Address → List UInt8) : List (Address × List UInt8) → Address → List UInt8
  | [] => code
  | (account, runtime) :: below =>
    deployed (if code account = [] then Function.update code account runtime else code) below

/-- A low-level call's answer: whether it succeeded, then the returndata, one byte a word. -/
def answer (success : Bool) (result : List UInt8) : List Word :=
  (if success then 1 else 0) :: result.map fun b ↦ BitVec.ofNat 256 b.toNat

/-- How the chain answers an executor.  A creation that fails, or that meets an account which has code
already, answers with the zero address; without a script left the gas is out. -/
def World.handle (getContractAddress : Address → ℕ → Address) :
    External → Storage → World → Option (List Word) × Storage × World
  | .codeSize account, s, w => (some (Abi.ofNat (w.code account).length), s, w)
  | .create _, s, w =>
    match w.script with
    | [] => (none, s, w)
    | .fails _ :: script => (some (Abi.ofAddress 0), s, { w with nonce := w.nonce + 1, script })
    | .succeeds runtime below logs :: script =>
      let account := getContractAddress w.self w.nonce
      if w.code account ≠ [] then
        (some (Abi.ofAddress 0), s, { w with nonce := w.nonce + 1, script })
      else
        (some (Abi.ofAddress account), s, { w with
          nonce := w.nonce + 1, code := deployed w.code ((account, runtime) :: below),
          logs := w.logs ++ logs, script })
  | .call _ _, s, w =>
    match w.script with
    | [] => (none, s, w)
    | .fails result :: script => (some (answer false result), s, { w with script })
    | .succeeds result below logs :: script =>
      (some (answer true result), s, { w with code := deployed w.code below, logs := w.logs ++ logs, script })

section World

variable {keccak256 : List UInt8 → Word} {g : Address → ℕ → Address} {q : External} {s s' : Storage}
  {w w' : World} {i : ℕ} {action : Action} {actions : List Action}

theorem deployed_eq {code : Address → List UInt8} {account : Address} (h : code account ≠ [])
    (below : List (Address × List UInt8)) : deployed code below account = code account := by
  induction below generalizing code with
  | nil => rfl
  | cons new below ih =>
    obtain ⟨a, runtime⟩ := new
    rw [deployed]
    split
    next hfree =>
      have hne : account ≠ a := fun heq ↦ h (heq ▸ hfree)
      have hsame : Function.update code a runtime account = code account := Function.update_of_ne hne _ _
      rw [ih (hsame ▸ h), hsame]
    next => exact ih h

theorem handle_storage : (World.handle g q s w).2.1 = s := by
  unfold World.handle
  split
  · rfl
  · split
    · rfl
    · rfl
    · dsimp only
      split <;> rfl
  · split <;> rfl

/-- From one state of the chain to a later one of the same batch. -/
structure Later (w w' : World) : Prop where
  self : w'.self = w.self
  code : ∀ account, w.code account ≠ [] → w'.code account = w.code account

theorem Later.refl (w : World) : Later w w := ⟨rfl, fun _ _ ↦ rfl⟩

theorem Later.trans {w'' : World} (h : Later w w') (h' : Later w' w'') : Later w w'' where
  self := h'.self.trans h.self
  code account hcode := by
    have hsame := h.code account hcode
    rw [h'.code account (hsame ▸ hcode), hsame]

theorem handle_later : Later w (World.handle g q s w).2.2 := by
  unfold World.handle
  split
  · exact .refl w
  · split
    · exact .refl w
    · exact ⟨rfl, fun _ _ ↦ rfl⟩
    · dsimp only
      split
      · exact ⟨rfl, fun _ _ ↦ rfl⟩
      · exact ⟨rfl, fun account hcode ↦ deployed_eq hcode _⟩
  · split
    · exact .refl w
    · exact ⟨rfl, fun _ _ ↦ rfl⟩
    · exact ⟨rfl, fun account hcode ↦ deployed_eq hcode _⟩

/-- An account that answers a creation is the next one of the executor. -/
theorem handle_create {init : List UInt8} {words : List Word} {account : Address}
    (h : World.handle g (.create init) s w = (some words, s', w')) (haccount : Abi.address words = some account) :
    w'.nonce = w.nonce + 1 ∧ (account ≠ 0 → account = g w.self w.nonce) := by
  simp only [World.handle] at h
  split at h
  · cases h
  · cases h
    rw [Abi.address_ofAddress] at haccount
    exact ⟨rfl, fun hne ↦ absurd (Option.some.inj haccount).symm hne⟩
  · split at h
    · cases h
      rw [Abi.address_ofAddress] at haccount
      exact ⟨rfl, fun hne ↦ absurd (Option.some.inj haccount).symm hne⟩
    · cases h
      rw [Abi.address_ofAddress] at haccount
      exact ⟨rfl, fun _ ↦ (Option.some.inj haccount).symm⟩

theorem handle_nonce (hq : ∀ init, q ≠ .create init) : (World.handle g q s w).2.2.nonce = w.nonce := by
  unfold World.handle
  split
  · rfl
  · exact absurd rfl (hq _)
  · split <;> rfl

/-! ## One action, and all of them -/

/-- What an action that was performed shows of the chain. -/
structure Passed (g : Address → ℕ → Address) (action : Action) (w w' : World) : Prop where
  later : Later w w'
  nonce : w'.nonce = w.nonce + creations [action]
  created : action.create = true → action.target = g w.self w.nonce ∧ w'.code action.target ≠ []

theorem codeSize_ne_nil {account : Address} {words : List Word} {size : ℕ}
    (h : World.handle g (.codeSize account) s w = (some words, s', w')) (hsize : Abi.uint256 words = some size)
    (hne : size ≠ 0) : w' = w ∧ w.code account ≠ [] := by
  cases h
  refine ⟨rfl, fun hnil ↦ hne ?_⟩
  rw [hnil] at hsize
  exact (Option.some.inj hsize).symm

theorem run_perform (h : (perform keccak256 i action).run false (World.handle g) s w = (.ok (), s', w')) :
    Passed g action w w' := by
  rw [perform, run_revertIf_bind_eq_ok] at h
  obtain ⟨htarget, h⟩ := h
  split at h
  next hcreate =>
    rw [run_revertIf_bind_eq_ok, run_bind_eq_ok] at h
    obtain ⟨-, account, s₁, w₁, hcreated, h⟩ := h
    rw [run_revertIf_bind_eq_ok, not_not, run_bind_eq_ok] at h
    obtain ⟨rfl, size, s₂, w₂, hsized, h⟩ := h
    rw [run_revertIf_bind_eq_ok, run_modify_eq_ok] at h
    obtain ⟨hne, -, -, rfl⟩ := h
    obtain ⟨words, hask, haccount⟩ := run_ask_eq_ok.1 hcreated
    obtain ⟨words', hask', hsize⟩ := run_ask_eq_ok.1 hsized
    obtain ⟨hnonce, hnext⟩ := handle_create hask haccount
    obtain ⟨rfl, hcode⟩ := codeSize_ne_nil hask' hsize hne
    have hlater : Later w (World.handle g (.create action.data) s w).2.2 := handle_later
    rw [hask] at hlater
    refine ⟨hlater, ?_, fun _ ↦ ⟨hnext htarget, hcode⟩⟩
    rw [hnonce, creations, List.countP_singleton, if_pos hcreate]
  next hcall =>
    rw [run_bind_eq_ok] at h
    obtain ⟨size, s₁, w₁, hsized, h⟩ := h
    rw [run_revertIf_bind_eq_ok, run_bind_eq_ok] at h
    obtain ⟨-, ⟨success, result⟩, s₂, w₂, hcalled, h⟩ := h
    simp only [run_revertIf_bind_eq_ok, run_modify_eq_ok] at h
    obtain ⟨-, -, -, -, rfl⟩ := h
    obtain ⟨words, hask, -⟩ := run_ask_eq_ok.1 hsized
    obtain ⟨words', hask', -⟩ := run_ask_eq_ok.1 hcalled
    cases hask
    have hlater : Later w (World.handle g (.call action.target action.data) s w).2.2 := handle_later
    have hnonce : (World.handle g (.call action.target action.data) s w).2.2.nonce = w.nonce :=
      handle_nonce fun _ ↦ by rintro ⟨⟩
    rw [hask'] at hlater hnonce
    refine ⟨hlater, ?_, fun hcreate ↦ absurd hcreate hcall⟩
    rw [hnonce, creations, List.countP_singleton, if_neg hcall, Nat.add_zero]

/-- What a run of actions shows of the chain. -/
structure Performed (g : Address → ℕ → Address) (actions : List Action) (w w' : World) : Prop where
  later : Later w w'
  nonce : w'.nonce = w.nonce + creations actions
  placed : ∀ i action, actions[i]? = some action → action.create = true →
    action.target = g w.self (w.nonce + creations (actions.take i)) ∧ w'.code action.target ≠ []

theorem Performed.cons {w₁ : World} (h : Passed g action w w₁) (h' : Performed g actions w₁ w') :
    Performed g (action :: actions) w w' where
  later := h.later.trans h'.later
  nonce := by
    rw [h'.nonce, h.nonce, Nat.add_assoc, ← creations_append, List.singleton_append]
  placed j a ha hcreate := by
    cases j with
    | zero =>
      cases ha
      obtain ⟨htarget, hcode⟩ := h.created hcreate
      refine ⟨by rw [htarget]; rfl, ?_⟩
      rwa [h'.later.code _ hcode]
    | succ j =>
      obtain ⟨htarget, hcode⟩ := h'.placed j a ha hcreate
      refine ⟨?_, hcode⟩
      rw [htarget, h.later.self, h.nonce, Nat.add_assoc, ← creations_append, List.singleton_append, List.take_succ_cons]

theorem run_performAll
    (h : (performAll keccak256 i actions).run false (World.handle g) s w = (.ok (), s', w')) :
    Performed g actions w w' := by
  induction actions generalizing i s w with
  | nil =>
    rw [performAll, pure_eq, run_ret_eq_ok] at h
    obtain ⟨-, -, rfl⟩ := h
    exact ⟨.refl _, rfl, fun _ _ ha ↦ by simp at ha⟩
  | cons action actions ih =>
    rw [performAll, run_bind_eq_ok] at h
    obtain ⟨_, s₁, w₁, h, h'⟩ := h
    exact .cons (run_perform h) (ih h')

/-- A batch that came to its end has performed its actions. -/
theorem run_executeBatch {finish : Bool}
    (h : (executeBatch keccak256 actions finish).run false (World.handle g) s w = (.ok (), s', w')) :
    Performed g actions w w' := by
  simp only [executeBatch, run_get_bind, run_revertIf_bind_eq_ok, run_modify_bind_eq_ok,
    run_checkedAdd_bind_eq_ok] at h
  obtain ⟨-, -, -, -, -, h⟩ := h
  rw [run_bind_eq_ok] at h
  obtain ⟨_, s₁, w₁, hall, h⟩ := h
  simp only [run_modify_bind_eq_ok, run_modify_eq_ok] at h
  obtain ⟨-, -, -, -, rfl⟩ := h
  exact run_performAll hall

/-- A batch that came to its end is the next one of the executor. -/
theorem complete_of_run {finish : Bool} (hsteps : s.executing = false → s.steps = [])
    (h : (executeBatch keccak256 actions finish).run false (World.handle g) s w = (.ok (), s', w')) :
    ∃ steps : List Step, steps.map Step.action = actions ∧ (∀ step ∈ steps, step.Done keccak256) ∧
      s' = s.complete keccak256 steps finish := by
  have hsealed : Sealed (fun _ _ ↦ True) fun _ s s' ↦ s' = s := ⟨fun _ _ _ ↦ trivial, fun _ _ _ _ ↦ id⟩
  have hwp : (executeBatch keccak256 actions finish).wp false (fun _ _ ↦ True) (fun _ s s' ↦ s' = s)
      (fun _ s' ↦ ∃ steps : List Step, steps.map Step.action = actions ∧
        (∀ step ∈ steps, step.Done keccak256) ∧ s' = s.complete keccak256 steps finish) s :=
    wp_executeBatch hsealed hsteps fun _ _ steps _ hmap hdone ↦ ⟨steps, hmap, hdone, rfl⟩
  have henv : ∀ (q : External) (s : Storage) (w : World), True → True →
      (World.handle g q s w).2.1 = s ∧ True := fun _ _ _ _ _ ↦ ⟨handle_storage, trivial⟩
  obtain ⟨-, hpost⟩ := run_wp henv _ _ s w hwp trivial
  rw [h] at hpost
  exact hpost () rfl

end World

/-! ## What is put together -/

/-- The addresses at the start, with those of the outputs over them. -/
def overlay (addresses : Addresses) (outputs : List GroupOutput) : Addresses :=
  outputs.foldl (fun a o ↦ a.set o.key o.address) addresses

/-- The addresses the `i`-th action of a batch is put together from: those at the start and the outputs
of the actions before it. -/
def seenBy (start : Addresses) (outputs : List GroupOutput) (i : ℕ) : Addresses :=
  overlay start (outputs.filter fun o ↦ decide (o.index < i))

/-- The data of an action. -/
def Call.encode (viem : Viem) (call : Call) (args : List Value) : List UInt8 :=
  match call.method with
  | none => viem.encodeDeployData call.artifact args
  | some method => viem.encodeFunctionData call.artifact method args

/-- An action is the call's, put together from the addresses given. -/
structure Call.Encodes (viem : Viem) (call : Call) (addresses : Addresses) (action : Action) : Prop where
  create : action.create = call.method.isNone
  data : ∃ args, call.args addresses = .ok args ∧ action.data = call.encode viem args
  target : call.method.isSome = true → call.target addresses = .ok action.target

/-- An output names the action that creates it. -/
def GroupOutput.CreatedBy (keccak256 : List UInt8 → Word) (o : GroupOutput) (action : Action) : Prop :=
  ∀ hash, o.initHash = some hash → action.create = true ∧ action.target = o.address ∧ hash = keccak256 action.data

/-- An action that leads to an output. -/
def Call.creates (call : Call) : Bool := call.method.isNone || decide (call.special = some .safe)

/-- The key of a call's output. -/
def Call.key (call : Call) : String := call.output.getD undefinedValue

/-- An output is what its action leads to. -/
structure Call.Declares (call : Call) (o : GroupOutput) : Prop where
  creates : call.creates = true
  key : o.key = call.key
  artifact : o.artifact = if call.method.isNone then call.artifact else "SafeProxy"
  safe : o.initHash = none → call.method.isSome = true ∧ ∃ factory singleton, o.factory = some factory ∧
    o.singleton = some singleton

/-- What the loop has put together of the calls so far. -/
structure Assembly.Sound (viem : Viem) (executor : Address) (n : ℕ) (start : Addresses) (calls : List Call)
    (built : Assembly) : Prop where
  draft : built.draft.Sound viem executor n
  length : built.draft.actions.length = calls.length
  addresses : built.addresses = overlay start built.outputs
  created : ∀ o ∈ built.outputs, ∃ action, built.draft.actions[o.index]? = some action ∧
    o.CreatedBy viem.keccak256 action
  declared : ∀ o ∈ built.outputs, ∃ call, calls[o.index]? = some call ∧ call.Declares o
  keys : built.outputs.map GroupOutput.key = (calls.filter Call.creates).map Call.key
  encoded : ∀ (i : ℕ) (call : Call), calls[i]? = some call → ∃ action, built.draft.actions[i]? = some action ∧
    call.Encodes viem (seenBy start built.outputs i) action

section Assembly

variable {viem : Viem} {reads : Reads} {executor : Address} {n : ℕ} {start : Addresses} {calls : List Call}
  {built built' : Assembly} {call : Call} {action : Action} {new : List GroupOutput}
  {pinned : Option (List UInt8)}

theorem overlay_append (addresses : Addresses) (outputs outputs' : List GroupOutput) :
    overlay addresses (outputs ++ outputs') = overlay (overlay addresses outputs) outputs' :=
  List.foldl_append

/-- Later outputs are not seen by earlier actions. -/
theorem seenBy_append {outputs : List GroupOutput} {i : ℕ} (h : ∀ o ∈ new, i ≤ o.index) :
    seenBy start (outputs ++ new) i = seenBy start outputs i := by
  have hnone : new.filter (fun o ↦ decide (o.index < i)) = [] :=
    List.filter_eq_nil_iff.2 fun o ho ↦ by
      rw [decide_eq_true_eq, not_lt]
      exact h o ho
  rw [seenBy, List.filter_append, hnone, List.append_nil, seenBy]

theorem Assembly.Sound.index_lt (h : built.Sound viem executor n start calls) {o : GroupOutput}
    (ho : o ∈ built.outputs) : o.index < calls.length := by
  obtain ⟨action, haction, -⟩ := h.created o ho
  obtain ⟨hlt, -⟩ := List.getElem?_eq_some_iff.1 haction
  exact h.length ▸ hlt

/-- The next action sees every output so far. -/
theorem Assembly.Sound.seenBy_length (h : built.Sound viem executor n start calls) :
    seenBy start built.outputs calls.length = built.addresses := by
  have hall : built.outputs.filter (fun o ↦ decide (o.index < calls.length)) = built.outputs :=
    List.filter_eq_self.2 fun o ho ↦ decide_eq_true (h.index_lt ho)
  rw [seenBy, hall, h.addresses]

/-- One more call. -/
theorem Assembly.Sound.snoc (h : built.Sound viem executor n start calls)
    (hdraft : built'.draft.Sound viem executor n) (hactions : built'.draft.actions = built.draft.actions ++ [action])
    (haddresses : built'.addresses = overlay built.addresses new) (houtputs : built'.outputs = built.outputs ++ new)
    (hnew : ∀ o ∈ new, o.index = built.draft.actions.length ∧ o.CreatedBy viem.keccak256 action)
    (hdeclares : ∀ o ∈ new, call.Declares o)
    (hkeys : new.map GroupOutput.key = ([call].filter Call.creates).map Call.key)
    (hencodes : call.Encodes viem built.addresses action) :
    built'.Sound viem executor n start (calls ++ [call]) where
  draft := hdraft
  length := by rw [hactions, List.length_append, List.length_append, h.length]; rfl
  addresses := by rw [haddresses, houtputs, overlay_append, h.addresses]
  created o ho := by
    rw [houtputs, List.mem_append] at ho
    rw [hactions]
    cases ho with
    | inl ho =>
      obtain ⟨a, ha, hcreated⟩ := h.created o ho
      exact ⟨a, (List.getElem?_append_left (h.length ▸ h.index_lt ho)).trans ha, hcreated⟩
    | inr ho =>
      obtain ⟨hindex, hcreated⟩ := hnew o ho
      exact ⟨action, by rw [hindex, List.getElem?_concat_length], hcreated⟩
  declared o ho := by
    rw [houtputs, List.mem_append] at ho
    rcases ho with ho | ho
    · obtain ⟨c, hc, hdeclared⟩ := h.declared o ho
      exact ⟨c, (List.getElem?_append_left (h.index_lt ho)).trans hc, hdeclared⟩
    · have hindex : o.index = calls.length := (hnew o ho).1.trans h.length
      exact ⟨call, by rw [hindex, List.getElem?_concat_length], hdeclares o ho⟩
  keys := by rw [houtputs, List.map_append, h.keys, hkeys, List.filter_append, List.map_append]
  encoded i c hc := by
    have hlater (hi : i ≤ calls.length) : seenBy start built'.outputs i = seenBy start built.outputs i := by
      rw [houtputs]
      exact seenBy_append fun o ho ↦ (hnew o ho).1 ▸ h.length ▸ hi
    rw [hactions]
    rw [List.getElem?_append] at hc
    split at hc
    next hi =>
      obtain ⟨a, ha, henc⟩ := h.encoded i c hc
      rw [hlater hi.le]
      exact ⟨a, (List.getElem?_append_left (h.length ▸ hi)).trans ha, henc⟩
    next hi =>
      rw [List.getElem?_singleton] at hc
      split at hc
      next hzero =>
        cases hc
        obtain rfl : i = calls.length := by omega
        rw [hlater le_rfl, h.seenBy_length]
        exact ⟨action, by rw [← h.length, List.getElem?_concat_length], hencodes⟩
      next => cases hc

/-- The body of the loop keeps what was put together sound. -/
theorem Assembly.Sound.add (h : built.Sound viem executor n start calls)
    (hadd : built.add viem reads executor pinned call = .ok built') :
    built'.Sound viem executor n start (calls ++ [call]) := by
  rw [Assembly.add, Except.bind_eq_ok] at hadd
  obtain ⟨args, hargs, hadd⟩ := hadd
  split at hadd
  next hmethod =>
    rw [Except.pure_eq_ok] at hadd
    subst hadd
    have hcreates : call.creates = true := by rw [Call.creates, hmethod]; rfl
    refine h.snoc (h.draft.deploy _) rfl rfl rfl ?_ ?_ ?_ ⟨?_, ⟨args, hargs, ?_⟩, fun hsome ↦ ?_⟩
    · intro o ho
      obtain rfl := List.mem_singleton.1 ho
      exact ⟨rfl, fun hash hhash ↦ ⟨rfl, rfl, (Option.some.inj hhash).symm⟩⟩
    · intro o ho
      obtain rfl := List.mem_singleton.1 ho
      exact ⟨hcreates, rfl, by rw [hmethod]; rfl, fun hnone ↦ by cases hnone⟩
    · rw [List.filter_singleton, hcreates]
      rfl
    · rw [hmethod]
      rfl
    · rw [Call.encode, hmethod]
    · rw [hmethod] at hsome
      cases hsome
  next method hmethod =>
    rw [Except.bind_eq_ok] at hadd
    obtain ⟨target, htarget, hadd⟩ := hadd
    have hencodes (returnHash : Word) : call.Encodes viem built.addresses
        ⟨false, target, viem.encodeFunctionData call.artifact method args, returnHash⟩ := by
      refine ⟨?_, ⟨args, hargs, ?_⟩, fun _ ↦ htarget⟩
      · rw [hmethod]
        rfl
      · rw [Call.encode, hmethod]
    obtain ⟨returnHash, hreturn⟩ : ∃ h, (if call.checksResult = true then boolHash viem else 0) = h := ⟨_, rfl⟩
    rw [hreturn] at hadd
    dsimp only at hadd
    split at hadd
    next hsafe =>
      split at hadd
      next singleton initializer salt =>
        split at hadd
        next => cases hadd
        next proxyCode _ =>
          rw [Except.pure_eq_ok] at hadd
          subst hadd
          have hcreates : call.creates = true := by simp [Call.creates, hsafe]
          refine h.snoc (h.draft.call _ _ _) rfl rfl rfl ?_ ?_ ?_ (hencodes _)
          · intro o ho
            obtain rfl := List.mem_singleton.1 ho
            exact ⟨rfl, fun hash hhash ↦ by cases hhash⟩
          · intro o ho
            obtain rfl := List.mem_singleton.1 ho
            exact ⟨hcreates, rfl, by rw [hmethod]; rfl, fun _ ↦ ⟨by rw [hmethod]; rfl, _, _, rfl, rfl⟩⟩
          · rw [List.filter_singleton, hcreates]
            rfl
      next => cases hadd
    next hother =>
      rw [Except.pure_eq_ok] at hadd
      subst hadd
      have hcreates : call.creates = false := by simp [Call.creates, hmethod, hother]
      refine h.snoc (h.draft.call _ _ _) rfl rfl (List.append_nil _).symm (fun o ho ↦ by cases ho)
        (fun o ho ↦ by cases ho) ?_ (hencodes _)
      rw [List.filter_singleton, hcreates]
      rfl

/-- The loop keeps it sound. -/
theorem Assembly.Sound.foldlM {more : List Call} (h : built.Sound viem executor n start calls)
    (hfold : more.foldlM (Assembly.add viem reads executor pinned) built = .ok built') :
    built'.Sound viem executor n start (calls ++ more) := by
  induction more generalizing calls built with
  | nil =>
    cases hfold
    rwa [List.append_nil]
  | cons call more ih =>
    rw [List.foldlM_cons, Except.bind_eq_ok] at hfold
    obtain ⟨built₁, hadd, hfold⟩ := hfold
    have hall := ih (h.add hadd) hfold
    rwa [List.append_assoc, List.singleton_append] at hall

theorem Assembly.sound_nil : (⟨start, ⟨n, []⟩, []⟩ : Assembly).Sound viem executor n start [] where
  draft := Draft.sound_nil n
  length := rfl
  addresses := rfl
  created o ho := by cases ho
  declared o ho := by cases ho
  keys := rfl
  encoded i c hc := by simp at hc

/-- What `materializeGroup` returns is what its loop put together. -/
theorem materializeGroup_sound {state : State} {group : Group} {nonce : Option ℕ} {built : Built}
    (h : materializeGroup viem reads pinned state group nonce = .ok built) :
    executorOf viem state group nonce = .ok built.executor ∧
      (⟨built.addresses, ⟨firstNonce reads built.executor group + creations built.actions, built.actions⟩,
        built.outputs⟩ : Assembly).Sound viem built.executor (firstNonce reads built.executor group)
        (state.addresses.set group.executor built.executor) group.actions := by
  rw [materializeGroup, Except.bind_eq_ok] at h
  obtain ⟨executor, hexecutor, h⟩ := h
  rw [Except.bind_eq_ok] at h
  obtain ⟨sequence, -, h⟩ := h
  rw [Except.bind_eq_ok] at h
  obtain ⟨loop, hloop, h⟩ := h
  rw [Except.pure_eq_ok] at h
  subst h
  have hsound := Assembly.sound_nil.foldlM hloop
  rw [List.nil_append] at hsound
  obtain ⟨addresses, ⟨next, actions⟩, outputs⟩ := loop
  have hnext : next = firstNonce reads executor group + creations actions := hsound.draft.nonce
  rw [hnext] at hsound
  exact ⟨hexecutor, hsound⟩

end Assembly

/-! ## The batch, performed -/

/-- What a request asks of the executor: to be deployed with its first batch, or to execute one. -/
def Built.transaction (viem : Viem) (group : Group) (built : Built) (safeExecution : Option (Address × List UInt8))
    (sender : Address) : BootstrapM Unit :=
  if group.create then construct viem.keccak256 sender (built.batch viem safeExecution)
  else execute viem.keccak256 sender built.sequence (built.batch viem safeExecution) group.finish

/-- What holds when the actions before the `i`-th one have been performed: the next creation goes to the account it
was declared for, the action was put together from the addresses of those before it, and these have code. -/
structure Reached (viem : Viem) (start : Addresses) (group : Group) (built : Built) (batch : List Action) (i : ℕ)
    (w : World) : Prop where
  next : ∀ action, batch[i]? = some action → action.create = true →
    viem.getContractAddress w.self w.nonce = action.target
  sees : ∀ call : Call, group.actions[i]? = some call → ∃ action, batch[i]? = some action ∧
    call.Encodes viem (seenBy start built.outputs i) action
  stands : ∀ o ∈ built.outputs, o.initHash.isSome = true → o.index < i → w.code o.address ≠ []

/-- A plan as the journal has them: an action has an output just when it leads to one, a Safe is created by a call,
and no two outputs have one key. -/
structure Group.Planned (group : Group) : Prop where
  expected : ∀ call ∈ group.actions, call.expected = call.creates
  called : ∀ call ∈ group.actions, call.special = some .safe → call.method.isSome = true
  distinct : ((group.actions.filter Call.creates).map Call.key).Nodup

/-- What the node answers after a transaction that came to its end: the executor's events and the logs of the others,
and the executor's storage. -/
def included (group : Group) (s s' : Storage) (w' : World) : Inclusion where
  contractAddress := if group.create then some w'.self else none
  logs := (s'.log.drop s.log.length).map (.bootstrap w'.self) ++ w'.logs
  code := w'.code
  owner := s'.owner
  closed := s'.closed
  sequence := s'.sequence

/-- What a batch cannot give by itself: the executor and the outputs have the code that was reviewed, and each factory
has told of the Safe it created. -/
structure Reviewed (artifacts : Artifacts) (receipt : GroupReceipt) (found : Inclusion) : Prop where
  executor : artifacts.runtimeMatches (found.code receipt.executor) "TreasuryBootstrap" = true
  code : ∀ o ∈ receipt.outputs, artifacts.reviewed (found.code o.address) o.artifact = true
  safe : ∀ o ∈ receipt.outputs, o.initHash = none → ∀ factory ∈ o.factory, ∀ singleton ∈ o.singleton,
    Log.proxyCreation factory o.address singleton ∈ found.logs

/-- No two nonces of an account, which are below `2 ^ 64`, give the same address. -/
def Distinct (viem : Viem) (account : Address) : Prop :=
  ∀ m n, m < 2 ^ 64 → n < 2 ^ 64 → viem.getContractAddress account m = viem.getContractAddress account n → m = n

section Batch

variable {viem : Viem} {reads : Reads} {pinned : Option (List UInt8)} {state : State} {group : Group}
  {nonce : Option ℕ} {built : Built} {safeExecution : Option (Address × List UInt8)} {encoded : Encoded}

theorem mem_stepEvents {keccak256 : List UInt8 → Word} {steps : List Step} {i j : ℕ} {action : Action}
    {account : Address} {size : ℕ} (h : steps[j]? = some ⟨action, .created account size⟩) :
    Event.created (i + j) account (keccak256 action.data) ∈ stepEvents keccak256 i steps := by
  induction steps generalizing i j with
  | nil => simp at h
  | cons step steps ih =>
    rw [stepEvents_cons, List.mem_append]
    cases j with
    | zero =>
      cases h
      exact .inl (List.mem_singleton_self _)
    | succ j =>
      have hlater := ih (i := i + 1) h
      rw [Nat.add_assoc, Nat.add_comm 1 j] at hlater
      exact .inr hlater

theorem creations_take_lt {actions : List Action} {i : ℕ} {action : Action} (h : actions[i]? = some action)
    (hcreate : action.create = true) : creations (actions.take i) < creations actions := by
  have hone : creations (actions.take (i + 1)) = creations (actions.take i) + 1 := by
    rw [List.take_add_one, h, creations_append]
    simp [creations, hcreate]
  have hle : creations (actions.take (i + 1)) ≤ creations actions :=
    (List.take_sublist _ _).countP_le
  omega

/-- The batch begins with the actions that were put together. -/
theorem Built.batch_prefix : built.actions <+: built.batch viem safeExecution := by
  cases safeExecution with
  | none => exact List.prefix_rfl
  | some _ => exact List.prefix_append _ _

theorem Built.getElem?_batch {i : ℕ} {action : Action} (h : built.actions[i]? = some action) :
    (built.batch viem safeExecution)[i]? = some action := by
  obtain ⟨more, hmore⟩ : built.actions <+: built.batch viem safeExecution := built.batch_prefix
  rw [← hmore]
  exact (List.getElem?_append_left (List.getElem?_eq_some_iff.1 h).1).trans h

theorem Placed.batch {n : ℕ} (h : Placed viem built.executor n built.actions) :
    Placed viem built.executor n (built.batch viem safeExecution) := by
  cases safeExecution with
  | none => exact h
  | some _ => exact h.append fun hcreate ↦ by cases hcreate

/-- What a transaction that came to its end shows of the executor. -/
structure Finished (viem : Viem) (group : Group) (built : Built) (batch : List Action) (sender : Address)
    (s s' : Storage) (w w' : World) : Prop where
  performed : Performed viem.getContractAddress batch w w'
  events : ∃ steps : List Step, steps.map Step.action = batch ∧ (∀ step ∈ steps, step.Done viem.keccak256) ∧
    s'.log.drop s.log.length = Batch.events viem.keccak256 ⟨built.sequence, steps, group.finish⟩
  owner : s'.owner = sender
  closed : s'.closed = group.finish
  sequence : s'.sequence = built.sequence + 1

theorem run_transaction {sender : Address} {s s' : Storage} {w w' : World} (hsteps : s.executing = false → s.steps = [])
    (hfinish : group.create = true → group.finish = false ∧ built.sequence = s.sequence)
    (h : (built.transaction viem group safeExecution sender).run false (World.handle viem.getContractAddress) s w =
      (.ok (), s', w')) :
    Finished viem group built (built.batch viem safeExecution) sender s s' w w' := by
  rw [Built.transaction] at h
  split at h
  next hcreate =>
    rw [construct, run_modify_bind] at h
    obtain ⟨steps, hmap, hdone, rfl⟩ := complete_of_run (s := { s with owner := sender }) hsteps h
    obtain ⟨hfin, hsequence⟩ := hfinish hcreate
    refine ⟨run_executeBatch h, ⟨steps, hmap, hdone, ?_⟩, rfl, hfin.symm, hsequence ▸ rfl⟩
    rw [hfin, hsequence]
    exact List.drop_left
  next =>
    rw [execute, run_get_bind, run_revertIf_bind_eq_ok, run_revertIf_bind_eq_ok] at h
    obtain ⟨hsender, hsequence, h⟩ := h
    obtain ⟨steps, hmap, hdone, rfl⟩ := complete_of_run hsteps h
    refine ⟨run_executeBatch h, ⟨steps, hmap, hdone, ?_⟩, (not_not.1 hsender).symm, rfl,
      (not_not.1 hsequence).symm ▸ rfl⟩
    rw [not_not.1 hsequence]
    exact List.drop_left

/-- A batch that came to its end has told of each creation. -/
theorem Finished.created {batch : List Action} {sender : Address} {s s' : Storage} {w w' : World}
    (h : Finished viem group built batch sender s s' w w') {i : ℕ} {action : Action} (haction : batch[i]? = some action)
    (hcreate : action.create = true) :
    Event.created i action.target (viem.keccak256 action.data) ∈ s'.log.drop s.log.length := by
  obtain ⟨steps, hmap, hdone, hlog⟩ := h.events
  rw [← hmap, List.getElem?_map, Option.map_eq_some_iff] at haction
  obtain ⟨⟨_, outcome⟩, hstep, rfl⟩ := haction
  have hthis := hdone _ (List.mem_of_getElem? hstep)
  rw [hlog]
  cases outcome with
  | created account size =>
    have haccount : account = _ := hthis.2.1
    rw [← haccount]
    exact List.mem_append_left _ (Nat.zero_add i ▸ mem_stepEvents hstep)
  | returned result => exact absurd (hthis.1.symm.trans hcreate) Bool.false_ne_true

/-- A batch that came to its end has told of its actions. -/
theorem Finished.executed {batch : List Action} {sender : Address} {s s' : Storage} {w w' : World}
    (h : Finished viem group built batch sender s s' w w') :
    Event.executed built.sequence (viem.keccak256 (encodeActions batch)) group.finish ∈ s'.log.drop s.log.length := by
  obtain ⟨steps, hmap, -, hlog⟩ := h.events
  rw [hlog, ← hmap]
  exact List.mem_append_right _ (List.mem_singleton_self _)

/-- What a request carries besides its data. -/
theorem encodeGroup_receipt (h : encodeGroup viem state group built safeExecution = .ok encoded) :
    encoded.receipt = ⟨built.executor, group.create, built.sequence, group.finish,
      viem.keccak256 (encodeActions (built.batch viem safeExecution)), built.outputs⟩ ∧
    encoded.target = if group.create then none else some built.executor := by
  rw [encodeGroup] at h
  dsimp only at h
  split at h
  next hcreate =>
    split at h <;> cases h
    exact ⟨rfl, (if_pos hcreate).symm⟩
  next hcreate =>
    cases h
    exact ⟨rfl, (if_neg hcreate).symm⟩

/-! ### Which outputs are expected -/

theorem Group.Planned.filter_expected (h : group.Planned) :
    group.actions.filter Call.expected = group.actions.filter Call.creates :=
  List.filter_congr fun call hcall ↦ h.expected call hcall

/-- The outputs are as many as the plan has, with different keys. -/
theorem Group.Planned.outputs (h : group.Planned)
    (hkeys : built.outputs.map GroupOutput.key = (group.actions.filter Call.creates).map Call.key) :
    built.outputs.length = (group.actions.filter Call.expected).length ∧
      (built.outputs.map GroupOutput.key).dedup.length = (group.actions.filter Call.expected).length := by
  rw [h.filter_expected, ← List.length_map (f := GroupOutput.key), hkeys, h.distinct.dedup, List.length_map]
  exact ⟨rfl, rfl⟩

/-- An output is the one its action has in the plan. -/
theorem Group.Planned.declared (h : group.Planned) {o : GroupOutput} {call : Call} (hcall : call ∈ group.actions)
    (hdeclares : call.Declares o) : call.output = some o.key ∧ call.outputArtifact = o.artifact := by
  have hexpected := h.expected call hcall
  rw [hdeclares.creates, Call.expected, Bool.and_eq_true, decide_eq_true_eq] at hexpected
  constructor
  · cases hkey : call.output with
    | none => exact absurd (by rw [hkey]; rfl) hexpected.1
    | some key => rw [hdeclares.key, Call.key, hkey, Option.getD_some]
  · rw [Call.outputArtifact, hdeclares.artifact]
    by_cases hsafe : call.special = some .safe
    · have hmethod := h.called call hcall hsafe
      rw [if_pos hsafe, if_neg (by simpa using Option.isSome_iff_ne_none.1 hmethod)]
    · have hcreates := hdeclares.creates
      rw [Call.creates, decide_eq_false hsafe, Bool.or_false] at hcreates
      rw [if_neg hsafe, if_pos hcreates]

/-- **What is confirmed.**  Of a batch that came to its end everything is found as it is looked for, except what the
accounts it has called and created decide. -/
theorem confirmGroup_iff {nonce : ℕ} (hbuilt : materializeGroup viem reads pinned state group (some nonce) = .ok built)
    (hencoded : encodeGroup viem state group built safeExecution = .ok encoded) (hplanned : group.Planned)
    {s s' : Storage} {w w' : World} (hself : w.self = encoded.receipt.executor)
    (h : Finished viem group built (built.batch viem safeExecution) state.deployer s s' w w')
    (artifacts : Artifacts) (addresses : Addresses) :
    confirmGroup viem artifacts state group ⟨state.deployer, nonce, encoded.target, encoded.receipt⟩
        (included group s s' w') = .ok addresses ↔
      addresses = built.addresses ∧ Reviewed artifacts encoded.receipt (included group s s' w') := by
  obtain ⟨hexecutor, hsound⟩ := materializeGroup_sound hbuilt
  obtain ⟨hreceipt, htarget⟩ := encodeGroup_receipt hencoded
  rw [hreceipt] at hself
  have hself' : w'.self = built.executor := h.performed.later.self.trans hself
  have hlogged {event : Event} (hevent : event ∈ s'.log.drop s.log.length) :
      Log.bootstrap built.executor event ∈ (included group s s' w').logs := by
    rw [← hself']
    exact List.mem_append_left _ (List.mem_map_of_mem hevent)
  have hcheck : checkExecutor viem state group ⟨state.deployer, nonce, encoded.target, encoded.receipt⟩
      (included group s s' w') = .ok () := by
    rw [checkExecutor_eq_ok, hreceipt, htarget]
    rw [executorOf] at hexecutor
    dsimp only [included]
    split at hexecutor
    next hcreate =>
      rw [if_pos hcreate, if_pos hcreate, hself']
      exact ⟨rfl, (Except.ok.inj hexecutor).symm⟩
    next hcreate =>
      rw [if_neg hcreate, if_neg hcreate]
      refine ⟨rfl, ?_⟩
      split at hexecutor
      next executor hstate => rw [hstate, Except.ok.inj hexecutor]
      next => cases hexecutor
  have hcreated : ∀ o ∈ built.outputs, ∀ hash, o.initHash = some hash →
      Event.created o.index o.address hash ∈ s'.log.drop s.log.length := by
    intro o ho hash hhash
    obtain ⟨action, haction, hby⟩ := hsound.created o ho
    obtain ⟨hcreate, haddress, rfl⟩ := hby hash hhash
    rw [← haddress]
    exact h.created (Built.getElem?_batch haction) hcreate
  rw [confirmGroup_eq_ok]
  constructor
  · rintro ⟨-, -, -, ⟨hruntime, -, -, -⟩, -, haccepted, hrecorded⟩
    refine ⟨?_, hruntime, fun o ho ↦ (haccepted o ho).code, fun o ho hnone factory hf singleton hs ↦ ?_⟩
    · rw [hrecorded, hreceipt]
      exact hsound.addresses.symm
    · obtain ⟨-, factory', singleton', hf', hs', hlog⟩ := (haccepted o ho).safe hnone
      obtain rfl := Option.mem_unique hf hf'
      obtain rfl := Option.mem_unique hs hs'
      exact hlog
  · rintro ⟨rfl, hreviewed⟩
    have hruntime := hreviewed.executor
    have hcode := hreviewed.code
    have hsafe := hreviewed.safe
    rw [hreceipt] at hruntime hcode hsafe
    refine ⟨by rw [hreceipt]; exact ⟨rfl, rfl⟩, hcheck, ?_, ?_, ?_, ?_, ?_⟩
    · rw [hreceipt]
      exact hlogged h.executed
    · rw [hreceipt]
      exact ⟨hruntime, h.owner, h.closed, h.sequence⟩
    · rw [hreceipt]
      exact hplanned.outputs hsound.keys
    · rw [hreceipt]
      intro o ho
      obtain ⟨call, hcall, hdeclares⟩ := hsound.declared o ho
      obtain ⟨houtput, hartifact⟩ := hplanned.declared (List.mem_of_getElem? hcall) hdeclares
      refine ⟨⟨call, hcall, houtput, hartifact⟩, fun hash hhash ↦ hlogged (hcreated o ho hash hhash), fun hnone ↦ ?_,
        hcode o ho⟩
      obtain ⟨hmethod, factory, singleton, hf, hs⟩ := hdeclares.safe hnone
      refine ⟨?_, factory, singleton, hf, hs, hsafe o ho hnone factory hf singleton hs⟩
      rw [hdeclares.artifact, if_neg (by simpa using Option.isSome_iff_ne_none.1 hmethod)]
    · rw [hreceipt]
      exact hsound.addresses

/-- **What was put together is what happens.**  Let a batch be put together with the nonce the executor has.  However
far it gets, the next creation goes to the account it was declared for, so that none is turned down for its address,
an action is put together from the addresses of the outputs before it, and those created have their code by then.  A
batch that creates anything comes to its end only if the executor's nonce was the one it was put together with.  And
one that comes to its end is confirmed, with the addresses that were computed, just when the code that stands there is
the reviewed one and the factories have told of their Safes. -/
theorem materializeGroup_predicts {nonce : ℕ}
    (hbuilt : materializeGroup viem reads pinned state group (some nonce) = .ok built)
    (hencoded : encodeGroup viem state group built safeExecution = .ok encoded) (hplanned : group.Planned)
    {s : Storage} {w : World} (hself : w.self = encoded.receipt.executor)
    (hsteps : s.executing = false → s.steps = [])
    (hfinish : group.create = true → group.finish = false ∧ built.sequence = s.sequence) :
    (w.nonce = firstNonce reads built.executor group → ∀ i s₁ w₁,
      (performAll viem.keccak256 0 ((built.batch viem safeExecution).take i)).run false
        (World.handle viem.getContractAddress) s w = (.ok (), s₁, w₁) →
      Reached viem (state.addresses.set group.executor built.executor) group built
        (built.batch viem safeExecution) i w₁) ∧
    ∀ sender s' w', (built.transaction viem group safeExecution sender).run false
        (World.handle viem.getContractAddress) s w = (.ok (), s', w') →
      (Distinct viem w.self → 0 < creations built.actions →
        w.nonce + creations (built.batch viem safeExecution) ≤ 2 ^ 64 →
        firstNonce reads built.executor group + creations (built.batch viem safeExecution) ≤ 2 ^ 64 →
        w.nonce = firstNonce reads built.executor group) ∧
      (sender = state.deployer → ∀ artifacts addresses,
        confirmGroup viem artifacts state group ⟨sender, nonce, encoded.target, encoded.receipt⟩
            (included group s s' w') = .ok addresses ↔
          addresses = built.addresses ∧ Reviewed artifacts encoded.receipt (included group s s' w')) := by
  obtain ⟨-, hsound⟩ := materializeGroup_sound hbuilt
  have hplaced : Placed viem built.executor (firstNonce reads built.executor group) (built.batch viem safeExecution) :=
    hsound.draft.placed.batch
  have hexecutor : w.self = built.executor := by rw [hself, (encodeGroup_receipt hencoded).1]
  constructor
  · intro hnonce i s₁ w₁ hrun
    have hperformed := run_performAll hrun
    constructor
    case next =>
      intro action haction hcreate
      rw [hplaced i action haction hcreate, hperformed.nonce, hperformed.later.self, hexecutor, hnonce]
    case sees =>
      intro call hcall
      obtain ⟨action, haction, hencodes⟩ := hsound.encoded i call hcall
      exact ⟨action, Built.getElem?_batch haction, hencodes⟩
    case stands =>
      intro o ho hsome hlt
      obtain ⟨hash, hhash⟩ := Option.isSome_iff_exists.1 hsome
      obtain ⟨action, haction, hcreated⟩ := hsound.created o ho
      obtain ⟨hcreate, htarget, -⟩ := hcreated hash hhash
      have hmem : ((built.batch viem safeExecution).take i)[o.index]? = some action := by
        rw [List.getElem?_take_of_lt hlt]
        exact Built.getElem?_batch haction
      rw [← htarget]
      exact (hperformed.placed o.index action hmem hcreate).2
  · intro sender s' w' hrun
    have hfinished := run_transaction hsteps hfinish hrun
    refine ⟨fun hdistinct hpos hle hle' ↦ ?_, ?_⟩
    · obtain ⟨action, hmem, hcreate⟩ := List.countP_pos_iff.1 hpos
      obtain ⟨i, haction⟩ := List.mem_iff_getElem?.1 hmem
      have hbatch : (built.batch viem safeExecution)[i]? = some action := Built.getElem?_batch haction
      have hsame := (hfinished.performed.placed i action hbatch hcreate).1.symm.trans
        (hplaced i action hbatch hcreate)
      rw [hexecutor] at hsame hdistinct
      have hlt := creations_take_lt hbatch hcreate
      exact Nat.add_right_cancel (hdistinct _ _ (by omega) (by omega) hsame)
    · rintro rfl
      exact confirmGroup_iff hbuilt hencoded hplanned hself hfinished

end Batch

/-! ### A wallet's first batch -/

/-- Encoders that write little: the number of an address, and the number of the arguments for anything else. -/
def sampleViem : Viem where
  keccak256 data := BitVec.ofNat 256 data.length
  getContractAddress account nonce := account + BitVec.ofNat 160 nonce
  getCreate2Address factory _ _ := factory + 1
  encodeDeployData _ args := 96 :: args.map fun | .address a => UInt8.ofNat a.toNat | _ => 0
  encodeFunctionData _ _ args := [args.length.toUInt8]
  encodeBootstrap _ actions := [actions.length.toUInt8]
  encodeExecute _ actions _ := [actions.length.toUInt8]

/-- `a(id)` -/
def recorded (id : String) (addresses : Addresses) : Except String Address :=
  match addresses id with
  | some address => .ok address
  | none => .error ("Missing completed deployment: " ++ id)

/-- The owner adapter, a proxy for it, a Safe the adapter owns, and a policy that is told both. -/
def sampleGroup : Group where
  create := true
  executor := "bootstrapL2"
  actions := [
    ⟨"L1Owners", fun a ↦ return [.address (← recorded "safeL1" a)], none, recorded "", some "adapter", none⟩,
    ⟨"Registry", fun _ ↦ return [], some "getOrCreateCrossChainProxy", fun _ ↦ return 5, none, none⟩,
    ⟨"SafeProxyFactory", fun a ↦ return [.address (← recorded "singletonL2" a), .bytes [1], .uint 3],
      some "createProxyWithNonce", recorded "factoryL2", some "safeL2", some .safe⟩,
    ⟨"TreasuryPolicy", fun a ↦ return [.address (← recorded "adapter" a), .address (← recorded "safeL2" a)], none,
      recorded "", some "policy", none⟩]
  finish := false

theorem sampleGroup_planned : sampleGroup.Planned := by
  constructor <;> decide +kernel

def sampleReads : Reads := ⟨fun _ ↦ 0, fun _ ↦ 0, fun _ ↦ false, fun _ ↦ 0, fun _ ↦ false, fun _ ↦ [4]⟩

def sampleState : State where
  deployer := 9
  addresses id :=
    if id = "safeL1" then some 6 else if id = "singletonL2" then some 7 else if id = "factoryL2" then some 20 else none

/-- The executor at 13 among a registry and a factory, which creates a proxy with metadata of its own. -/
def sampleWorld : World where
  self := 13
  nonce := 1
  code a := if a = 5 ∨ a = 20 then [1] else if a = 13 then [176] else []
  logs := []
  script := [.succeeds [7] [] [], .succeeds [] [] [],
    .succeeds [] [(21, [96, 254, 161, 1, 2, 3, 0, 4])] [.proxyCreation 20 21 7], .succeeds [8] [] []]

def sampleArtifacts : Artifacts := fun name ↦
  if name = "TreasuryBootstrap" then ⟨codeText [176], [], none⟩
  else if name = "SafeProxy" then ⟨codeText [96, 254, 162, 9, 9, 9, 0, 4], [], none⟩
  else if name = "L1Owners" then ⟨codeText [7], [], none⟩
  else ⟨codeText [0], [⟨0, 1⟩], none⟩

/-- What is put together for it. -/
def sampleBuilt : Built where
  executor := 13
  sequence := 0
  actions := [⟨true, 14, [96, 6], 0⟩, ⟨false, 5, [0], 0⟩, ⟨false, 20, [3], 0⟩, ⟨true, 15, [96, 14, 21], 0⟩]
  outputs := [⟨"adapter", 14, "L1Owners", 0, some 2, none, none⟩, ⟨"safeL2", 21, "SafeProxy", 2, none, some 20, some 7⟩,
    ⟨"policy", 15, "TreasuryPolicy", 3, some 3, none, none⟩]
  addresses := (((sampleState.addresses.set "bootstrapL2" 13).set "adapter" 14).set "safeL2" 21).set "policy" 15

theorem materializeGroup_predicts_sample : ∃ encoded s' w',
    materializeGroup sampleViem sampleReads none sampleState sampleGroup (some 4) = .ok sampleBuilt ∧
    encodeGroup sampleViem sampleState sampleGroup sampleBuilt none = .ok encoded ∧
    (sampleBuilt.transaction sampleViem sampleGroup none 9).run false (World.handle sampleViem.getContractAddress)
      .initial sampleWorld = (.ok (), s', w') ∧
    confirmGroup sampleViem sampleArtifacts sampleState sampleGroup ⟨9, 4, encoded.target, encoded.receipt⟩
      (included sampleGroup .initial s' w') = .ok sampleBuilt.addresses := by
  have hbuilt : materializeGroup sampleViem sampleReads none sampleState sampleGroup (some 4) = .ok sampleBuilt := rfl
  obtain ⟨encoded, s', w', hencoded, hrun, hself, hreviewed⟩ : ∃ encoded s' w',
      encodeGroup sampleViem sampleState sampleGroup sampleBuilt none = .ok encoded ∧
      (sampleBuilt.transaction sampleViem sampleGroup none 9).run false (World.handle sampleViem.getContractAddress)
        .initial sampleWorld = (.ok (), s', w') ∧
      sampleWorld.self = encoded.receipt.executor ∧
      Reviewed sampleArtifacts encoded.receipt (included sampleGroup .initial s' w') := by
    refine ⟨_, _, _, rfl, rfl, rfl, ⟨?_, ?_, ?_⟩⟩
    · decide +kernel
    · decide +kernel
    · intro o ho hnone factory hfactory singleton hsingleton
      have hmem : o ∈ sampleBuilt.outputs := ho
      rw [sampleBuilt, List.mem_cons, List.mem_cons, List.mem_singleton] at hmem
      rcases hmem with rfl | rfl | rfl
      · cases hnone
      · cases hfactory
        cases hsingleton
        decide +kernel
      · cases hnone
  have hpredicts := materializeGroup_predicts hbuilt hencoded sampleGroup_planned (s := .initial) hself (fun _ ↦ rfl)
    fun _ ↦ ⟨rfl, rfl⟩
  have hconfirmed := (hpredicts.2 9 s' w' hrun).2 rfl sampleArtifacts sampleBuilt.addresses
  exact ⟨encoded, s', w', hbuilt, hencoded, hrun, hconfirmed.2 ⟨rfl, hreviewed⟩⟩

end Deployment
