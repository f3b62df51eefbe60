import EezDashboard.Faucet.Refill

/-!
# What a request leaves

`request` is entered by anyone, at any time, and while the bridge is called anyone may claim, move tokens or make a
request again.  `faucet_discipline` is what a single frame keeps; a request that nobody interrupts is then followed
step by step.
-/

set_option autoImplicit false

namespace Faucet

open Contract Prog

variable (d : Deployment)

/-- The flag is up exactly in the frames below a delivery. -/
structure Ready (f : Frame) (w : World) : Prop where
  inv : Inv d w
  delivering : w.delivering = f.nested

/-- What a frame changes. -/
structure Keeps (w w' : World) : Prop where
  inv : Inv d w → Inv d w'
  delivering : w'.delivering = w.delivering
  created : w.delivering = true → w'.created = w.created

/-- What a request leaves that took `k` contracts. -/
structure Delivered (amount k : ℕ) (w w' : World) : Prop where
  created : w'.created = w.created + k
  faucet : w'.token.balance d.faucet + amount = stock d w k
  approval : w'.token.approval d.faucet d.bridge = 0
  delivering : w'.delivering = false

/-- The world in which the bridge is called: it may move the amount, and is asked to, once. -/
structure Asked (recipient : Address) (amount k : ℕ) (w called : World) : Prop where
  created : called.created = w.created + k
  faucet : called.token.balance d.faucet = stock d w k
  approval : called.token.approval d.faucet d.bridge = amount
  call : ∀ {W : Type} (handle : External → World → W → Option (List Word) × World × W) (s : W),
    (request d recipient amount true).run false handle w s =
      match handle (.bridgeTokens amount d.destinationRollup recipient) called s with
      | (some _, w', s') =>
        (.ok (), { w' with token := w'.token.approve d.faucet d.bridge 0, delivering := false }, s')
      | (none, w', s') => (.error .bubbled, w', s')

/-- A request made during a delivery is refused. -/
structure Refused (r : Record (Call d) World) : Prop where
  delivering : r.before.delivering = r.frame.nested
  request : r.frame.nested = true → ∀ recipient amount onL2, r.entry.entry = .request recipient amount onL2 →
    r.returned = false ∧ r.after = r.before

variable {d} {w w' : World} {a source target owner spender : Address} {value amount k : ℕ}

/-! ## The token's own operations -/

theorem Keeps.refl (w : World) : Keeps d w w := ⟨id, rfl, fun _ ↦ rfl⟩

theorem Keeps.trans {w₁ w₂ w₃ : World} (h : Keeps d w₁ w₂) (h' : Keeps d w₂ w₃) : Keeps d w₁ w₃ :=
  ⟨h'.inv ∘ h.inv, h'.delivering.trans h.delivering,
    fun hd ↦ (h'.created (h.delivering.trans hd)).trans (h.created hd)⟩

theorem claim_keeps (houtside : d.Outside a) (h : claim a w = .ok w') : Keeps d w w' := by
  obtain ⟨hnew, -, -, rfl⟩ := claim_eq_ok.1 h
  refine ⟨fun hinv ↦ ⟨hinv.supplied.grant hnew, hinv.room, fun n hn hlt hmem ↦ ?_, hinv.approvals⟩, rfl,
    fun _ ↦ rfl⟩
  rcases List.mem_append.1 hmem with hmem | hmem
  · exact hinv.fresh n hn hlt hmem
  · exact houtside.2 n hlt (List.mem_singleton.1 hmem).symm

/-- Moving tokens is harmless as long as the faucet approves nobody new. -/
theorem keeps_of_moves {token : Token Address} {touched : Address → Address → Prop}
    (hmoves : w.token.Moves token (shift source target value) touched)
    (happroval : ∀ s, w.token.approval d.faucet s = 0 → token.approval d.faucet s = 0) :
    Keeps d w { w with token } :=
  ⟨fun hinv ↦ ⟨hinv.supplied.moves hmoves, hinv.room, hinv.fresh,
    fun s hs ↦ happroval s (hinv.approvals s hs)⟩, rfl, fun _ ↦ rfl⟩

theorem transfer_keeps (h : transfer source target value w = .ok w') : Keeps d w w' := by
  obtain ⟨token, rfl, hmoves⟩ := transfer_eq_ok h
  exact keeps_of_moves hmoves fun s hs ↦ (hmoves.approval _ s id).trans hs

theorem approve_keeps (howner : owner ≠ d.faucet) (h : approve owner spender value w = .ok w') : Keeps d w w' := by
  obtain rfl := approve_eq_ok h
  have hmoves := Token.approve_moves w.token owner spender value
  rw [← shift_zero owner owner] at hmoves
  exact keeps_of_moves hmoves fun s hs ↦ (hmoves.approval _ s fun heq ↦ howner heq.1.symm).trans hs

/-- What nobody approved is not approved by a transfer. -/
theorem transferFrom_approval (h : transferFrom spender owner target value w = .ok w') {o s : Address}
    (hzero : w.token.approval o s = 0) : w'.token.approval o s = 0 := by
  rw [transferFrom] at h
  split at h
  · split at h
    · cases h
    · cases happrove : approve owner spender (w.token.approval owner spender - value) w with
      | error e =>
        rw [happrove] at h
        cases h
      | ok w₁ =>
        rw [happrove] at h
        obtain rfl := approve_eq_ok happrove
        obtain ⟨token, rfl, hmoves⟩ := transfer_eq_ok h
        refine (hmoves.approval o s id).trans ?_
        rw [Token.approve]
        dsimp only
        split
        next heq => rw [← heq.1, ← heq.2, hzero, Nat.zero_sub]
        next => exact hzero
  · obtain ⟨token, rfl, hmoves⟩ := transfer_eq_ok h
    exact (hmoves.approval o s id).trans hzero

theorem transferFrom_keeps (h : transferFrom spender owner target value w = .ok w') : Keeps d w w' := by
  obtain ⟨token, rfl, hmoves⟩ := transferFrom_eq_ok h
  exact keeps_of_moves hmoves fun s hs ↦ transferFrom_approval h hs

/-! ## A frame -/

/-- The flag is put up or down when the bridge has no approval. -/
theorem Inv.flag (h : Inv d w) (hbridge : w.token.approval d.faucet d.bridge = 0) (delivering : Bool) :
    Inv d { w with delivering } := by
  refine ⟨⟨h.supplied.claimed_iff, h.supplied.nodup, h.supplied.supply, h.supplied.total⟩, h.room, h.fresh,
    fun s _ ↦ ?_⟩
  by_cases hs : s = d.bridge
  · rw [hs]
    exact hbridge
  · exact h.approvals s fun heq ↦ absurd heq hs

/-- During a delivery the faucet may approve its bridge. -/
theorem Inv.approve (h : Inv d w) (hdelivering : w.delivering = true)
    (hok : approve d.faucet d.bridge value w = .ok w') : Inv d w' := by
  obtain rfl := approve_eq_ok hok
  have hmoves := Token.approve_moves w.token d.faucet d.bridge value
  rw [← shift_zero d.faucet d.faucet] at hmoves
  refine ⟨h.supplied.moves hmoves, h.room, h.fresh, fun s hs ↦ ?_⟩
  have hne : s ≠ d.bridge := fun heq ↦ Bool.noConfusion (hdelivering.symm.trans (hs heq))
  exact (hmoves.approval _ s fun heq ↦ hne heq.2).trans (h.approvals s fun heq ↦ absurd heq hne)

section Frames

variable {static : Bool} {Waits : External → World → Prop} {Rely : External → World → World → Prop}
  {post : Unit → World → Prop}

theorem wp_act {x : World → Result} :
    (act x : FaucetM Unit).wp static Waits Rely post w ↔ ∀ w', x w = .ok w' → static = false → post () w' := by
  rw [act, Prog.wp]
  cases hx : x w with
  | error e => exact ⟨fun _ ↦ nofun, fun _ ↦ trivial⟩
  | ok w₁ =>
    refine ⟨fun h w' hw' ↦ ?_, fun h ↦ h w₁ rfl⟩
    obtain rfl := Except.ok.inj hw'
    exact h

/-- A request puts the flag up, and down again. -/
theorem wp_request {f : Frame} (h : Ready d f w) (recipient : Address) (amount : ℕ) (onL2 : Bool) :
    (request d recipient amount onL2).wp f.static (fun _ ↦ Ready d (f.inner false)) (fun _ ↦ Keeps d)
      (fun _ w' ↦ f.nested = false ∧ Inv d w' ∧ w'.delivering = false) w := by
  simp only [request, wp_bind, wp_revertIf, wp_get, wp_modify, wp_act]
  intro _ hidle _ w₁ hrefill _
  have hnested : f.nested = false := by rwa [h.delivering, Bool.not_eq_true] at hidle
  have hclear : w.token.approval d.faucet d.bridge = 0 :=
    h.inv.approvals _ fun _ ↦ h.delivering.trans hnested
  obtain ⟨k, -, -, hrefilled⟩ := refilled_of_refill (h.inv.flag hclear true) hrefill
  cases onL2 with
  | false =>
    refine wp_act.2 fun w₂ htransfer _ _ ↦ ?_
    have hkeeps := transfer_keeps (d := d) htransfer
    obtain ⟨token, rfl, hmoves⟩ := transfer_eq_ok htransfer
    refine ⟨hnested, (hkeeps.inv hrefilled.inv).flag ?_ false, trivial⟩
    exact (hmoves.approval _ _ id).trans ((congrFun (congrFun hrefilled.approval _) _).trans hclear)
  | true =>
    simp only [if_true, wp_bind, wp_act]
    intro w₂ happrove _
    have hinv₂ := hrefilled.inv.approve hrefilled.delivering happrove
    have hdelivering₂ : w₂.delivering = true := by
      obtain rfl := approve_eq_ok happrove
      exact hrefilled.delivering
    refine wp_ask ⟨hinv₂, hdelivering₂⟩ fun _ w₃ hkeeps w₄ hrevoke _ _ ↦ ?_
    have hinv₄ := (hkeeps.inv hinv₂).approve (hkeeps.delivering.trans hdelivering₂) hrevoke
    obtain rfl := approve_eq_ok hrevoke
    exact ⟨hnested, hinv₄.flag (if_pos ⟨rfl, rfl⟩) false, trivial⟩

end Frames

/-- **One frame of the token or the faucet.** -/
theorem faucet_discipline : Discipline (code d) (Ready d) (fun _ ↦ Keeps d) (Refused d) where
  refl _ := Keeps.refl
  trans _ _ _ _ := Keeps.trans
  stable _ _ _ h hkeeps := ⟨hkeeps.inv h.inv, hkeeps.delivering.trans h.delivering⟩
  restrict_holds _ _ _ h := ⟨h.inv, h.delivering⟩
  restrict_keeps _ _ _ _ _ := id
  returned f e w h := by
    obtain ⟨sender, houtside, entry⟩ := e
    cases entry with
    | claim =>
      exact wp_act.2 fun _ hok _ ↦ ⟨claim_keeps houtside hok, h.delivering, fun _ _ _ _ ↦ nofun⟩
    | transfer target value =>
      exact wp_act.2 fun _ hok _ ↦ ⟨transfer_keeps hok, h.delivering, fun _ _ _ _ ↦ nofun⟩
    | approve spender value =>
      exact wp_act.2 fun _ hok _ ↦ ⟨approve_keeps houtside.1 hok, h.delivering, fun _ _ _ _ ↦ nofun⟩
    | transferFrom owner target value =>
      exact wp_act.2 fun _ hok _ ↦ ⟨transferFrom_keeps hok, h.delivering, fun _ _ _ _ ↦ nofun⟩
    | request recipient amount onL2 =>
      refine wp_mono (fun _ w' hpost ↦ ?_) (wp_request h recipient amount onL2)
      obtain ⟨hnested, hinv, hdown⟩ := hpost
      have hidle := h.delivering.trans hnested
      refine ⟨⟨fun _ ↦ hinv, hdown.trans hidle.symm, fun hup ↦ ?_⟩, h.delivering, fun hup ↦ ?_⟩
      · exact absurd (hidle.symm.trans hup) Bool.false_ne_true
      · exact absurd (hnested.symm.trans hup) Bool.false_ne_true
  failed _ _ _ h := ⟨h.delivering, fun _ _ _ _ _ ↦ ⟨rfl, rfl⟩⟩

/-! ## A request, step by step -/

section Run

variable {W : Type} {handle : External → World → W → Option (List Word) × World × W} {s : W} {recipient : Address}
  {onL2 : Bool}

theorem run_act_bind {β : Type} (x : World → Result) (g : Unit → FaucetM β) :
    run false handle (act x >>= g) w s =
      match x w with
      | .ok w' => run false handle (g ()) w' s
      | .error e => (.error e, w, s) := by
  rw [act, load_bind, run]
  cases x w <;> rfl

variable (d) in
/-- What `_request` does after the refill. -/
def delivery (recipient : Address) (amount : ℕ) (onL2 : Bool) : FaucetM Unit := do
  (if onL2 then do
    act (approve d.faucet d.bridge amount)
    ask (.bridgeTokens amount d.destinationRollup recipient) Abi.nothing
    act (approve d.faucet d.bridge 0)
  else act (transfer d.faucet recipient amount))
  modify fun w ↦ { w with delivering := false }

theorem run_request (hrecipient : recipient ≠ 0) (hself : recipient ≠ d.faucet) (hamount : 0 < amount)
    (hidle : w.delivering = false) :
    run false handle (request d recipient amount onL2) w s =
      match refill d amount (w.token.balance d.faucet) { w with delivering := true } with
      | .ok w' => run false handle (delivery d recipient amount onL2) w' s
      | .error e => (.error e, { w with delivering := true }, s) := by
  have hvalid : (revertIf (recipient = 0 ∨ recipient = d.faucet ∨ amount = 0) .invalidRequest : FaucetM Unit) =
      ret () := if_neg (not_or.2 ⟨hrecipient, not_or.2 ⟨hself, hamount.ne'⟩⟩)
  have hfirst : (revertIf (w.delivering = true) .reentered : FaucetM Unit) = ret () :=
    if_neg (by rw [hidle]; exact Bool.false_ne_true)
  rw [request, hvalid, ret_bind, run_get_bind, hfirst, ret_bind, run_modify_bind, run_act_bind]
  rfl

end Run

section Requests

variable {recipient : Address} (hrecipient : recipient ≠ 0) (hself : recipient ≠ d.faucet) (hamount : 0 < amount)
  (hinv : Inv d w) (hidle : w.delivering = false) (hneeded : Needed d amount w k)
include hrecipient hself hamount hinv hidle hneeded

/-- A faucet that cannot create the contracts refuses. -/
theorem run_refused (hroom : creations < w.created + k) (onL2 : Bool) {W : Type}
    (handle : External → World → W → Option (List Word) × World × W) (s : W) :
    ∃ e, (request d recipient amount onL2).run false handle w s = (.error e, { w with delivering := true }, s) := by
  have hflag := hinv.flag (hinv.approvals d.bridge fun _ ↦ hidle) true
  obtain ⟨e, hrefill⟩ := refill_refused hflag ⟨hneeded.enough, hneeded.short⟩ hroom
  refine ⟨e, ?_⟩
  rw [run_request hrecipient hself hamount hidle, hrefill]

/-- On L1 the recipient is paid by the faucet. -/
theorem run_l1 (hroom : w.created + k ≤ creations) :
    ∃ w', (∀ {W : Type} (handle : External → World → W → Option (List Word) × World × W) (s : W),
        (request d recipient amount false).run false handle w s = (.ok (), w', s)) ∧
      Delivered d amount k w w' ∧
      w'.token.balance recipient =
        (if ∃ i < k, recipient = d.deployed (w.created + i) then 0 else w.token.balance recipient) + amount := by
  have hclear := hinv.approvals d.bridge fun _ ↦ hidle
  obtain ⟨mid, hrefill, hrefilled⟩ := refill_ok (hinv.flag hclear true) ⟨hneeded.enough, hneeded.short⟩ hroom
  have hvalue : amount ≤ mid.token.balance d.faucet := hneeded.enough.trans_eq hrefilled.faucet.symm
  obtain ⟨w₂, htransfer⟩ := transfer_ok d.faucet_ne_zero hrecipient hvalue
  refine ⟨{ w₂ with delivering := false }, fun handle s ↦ ?_, ?_⟩
  · rw [run_request hrecipient hself hamount hidle, hrefill]
    dsimp only
    rw [delivery, if_neg Bool.false_ne_true, run_act_bind, htransfer]
    rfl
  · obtain ⟨token, rfl, hmoves⟩ := transfer_eq_ok htransfer
    have hfaucet := hmoves.balance d.faucet
    rw [shift_apply, if_neg hself.symm, if_pos rfl, hrefilled.faucet] at hfaucet
    have hpaid := hmoves.balance recipient
    rw [shift_apply, if_pos rfl, if_neg hself] at hpaid
    have hbefore : mid.token.balance recipient =
        if ∃ i < k, recipient = d.deployed (w.created + i) then 0 else w.token.balance recipient := by
      split
      next h =>
        obtain ⟨i, hi, rfl⟩ := h
        exact hrefilled.emptied i hi
      next h => exact hrefilled.others _ hself fun i hi heq ↦ h ⟨i, hi, heq⟩
    refine ⟨⟨hrefilled.created, ?_, ?_, rfl⟩, ?_⟩
    · have hsame : stock d { w with delivering := true } k = stock d w k := rfl
      rw [hsame] at hfaucet
      dsimp only
      omega
    · exact (hmoves.approval _ _ id).trans ((congrFun (congrFun hrefilled.approval _) _).trans hclear)
    · rw [← hbefore]
      dsimp only
      omega

/-- To L2 the bridge is asked. -/
theorem exists_asked (hroom : w.created + k ≤ creations) (time : ℕ) :
    ∃ called, Asked d recipient amount k w called ∧ Ready d ((Frame.top time).inner false) called := by
  have hclear := hinv.approvals d.bridge fun _ ↦ hidle
  obtain ⟨mid, hrefill, hrefilled⟩ := refill_ok (hinv.flag hclear true) ⟨hneeded.enough, hneeded.short⟩ hroom
  have happrove : ∀ n (w₁ : World), approve d.faucet d.bridge n w₁ =
      .ok { w₁ with token := w₁.token.approve d.faucet d.bridge n } := fun _ _ ↦
    approve_ok d.faucet_ne_zero d.bridge_ne_zero
  refine ⟨{ mid with token := mid.token.approve d.faucet d.bridge amount },
    ⟨hrefilled.created, hrefilled.faucet, if_pos ⟨rfl, rfl⟩, fun handle s ↦ ?_⟩,
    hrefilled.inv.approve hrefilled.delivering (happrove _ _), hrefilled.delivering⟩
  rw [run_request hrecipient hself hamount hidle, hrefill]
  dsimp only
  rw [delivery, if_pos rfl, run_bind, run_act_bind, happrove]
  dsimp only
  rw [ask, call_bind, run]
  rcases handle (.bridgeTokens amount d.destinationRollup recipient)
    { mid with token := mid.token.approve d.faucet d.bridge amount } s with ⟨_ | v, w', s'⟩
  · rfl
  · dsimp only [Abi.nothing]
    rw [ret_bind, act, run, happrove]
    rfl

end Requests

/-! ## Over any history -/

theorem inv_initial {creator : Address} (houtside : d.Outside creator) : Inv d (initial creator) :=
  ⟨Supplied.grant ⟨fun _ ↦ by simp, List.nodup_nil, rfl, Finset.sum_const_zero⟩ rfl, Nat.zero_le _,
    fun n _ hlt hmem ↦ houtside.2 n hlt (List.mem_singleton.1 hmem).symm, fun _ _ ↦ rfl⟩

/-- Between transactions the flag is down, and no request has returned during a delivery. -/
theorem history_keeps {creator : Address} (houtside : d.Outside creator) (depth : ℕ)
    (txs : List (ℕ × Act (Call d))) :
    Ready d (.top 0) (history (code d) depth txs (initial creator)).1 ∧
      ∀ r ∈ (history (code d) depth txs (initial creator)).2, Refused d r := by
  obtain ⟨hready, hrefused⟩ := faucet_discipline.history (fun _ _ _ h ↦ ⟨h.inv, h.delivering⟩) depth txs
    (initial creator) fun _ ↦ ⟨inv_initial houtside, rfl⟩
  exact ⟨hready 0, hrefused⟩

theorem body_request {call : Call d} {recipient : Address} {onL2 : Bool}
    (hentry : call.entry = .request recipient amount onL2) (f : Frame) :
    (code d).body f call = request d recipient amount onL2 := by
  obtain ⟨sender, houtside, entry⟩ := call
  obtain rfl := hentry
  rfl

/-- The bridge, when it moves what it was approved, completes the delivery, whatever else happens meanwhile. -/
theorem Asked.delivered {recipient : Address} {called : World} (h : Asked d recipient amount k w called) {time : ℕ}
    (hready : Ready d ((Frame.top time).inner false) called) (depth : ℕ) (call : Call d)
    (hentry : call.entry = .request recipient amount true) (acts : List (Act (Call d))) (answer : List Word)
    (replies : List (Reply (Call d)))
    (hmoved : (sequence (exec (code d) depth ((Frame.top time).inner false)) acts called).1.token.balance d.faucet +
      amount = called.token.balance d.faucet) :
    ∃ w' t, exec (code d) (depth + 1) (.top time) (.call call ((acts, some answer) :: replies)) w =
        (w', ⟨call, .top time, w, w', true⟩ :: t) ∧ Delivered d amount k w w' := by
  have hkeeps := (faucet_discipline.sequence (faucet_discipline.exec depth _) acts called hready).1
  have hrun := h.call (environment (fun f' ↦ sequence (exec (code d) depth f')) (code d).view (.top time))
    ((acts, some answer) :: replies, [])
  rw [← body_request hentry (.top time)] at hrun
  refine ⟨_, _, exec_call_ok hrun, ?_, ?_, if_pos ⟨rfl, rfl⟩, rfl⟩
  · exact (hkeeps.created hready.delivering).trans h.created
  · exact hmoved.trans h.faucet

/-- A request for more than the faucet can create contracts for changes nothing. -/
theorem exec_refused (hinv : Inv d w) (hidle : w.delivering = false) (hneeded : Needed d amount w k)
    (hroom : creations < w.created + k) {call : Call d} {recipient : Address} {onL2 : Bool}
    (hentry : call.entry = .request recipient amount onL2) (hrecipient : recipient ≠ 0)
    (hself : recipient ≠ d.faucet) (hamount : 0 < amount) (time depth : ℕ) (replies : List (Reply (Call d))) :
    ∃ t, exec (code d) (depth + 1) (.top time) (.call call replies) w =
      (w, ⟨call, .top time, w, w, false⟩ :: t) := by
  obtain ⟨e, hrun⟩ := run_refused hrecipient hself hamount hinv hidle hneeded hroom onL2
    (environment (fun f' ↦ sequence (exec (code d) depth f')) (code d).view (.top time)) (replies, [])
  rw [← body_request hentry (.top time)] at hrun
  exact ⟨_, exec_call_error hrun⟩

/-- **The faucet's requests.**  After any history the supply is one allocation for every account that has claimed,
each of them once, and no request returned during a delivery.  A request then takes the least number `k` of new
contracts that is enough, within the quotient of what is missing by the allocation, rounded up.  If the faucet can
create them the request is served: on L1 it pays the recipient, to L2 it has the bridge asked once, and it returns
when the bridge moves what it was approved, whatever else anybody does meanwhile.  Otherwise it changes nothing. -/
theorem request_served {creator : Address} (houtside : d.Outside creator) (depth : ℕ)
    (txs : List (ℕ × Act (Call d))) :
    let w := (history (code d) depth txs (initial creator)).1
    (w.claims.Nodup ∧ (∀ a, w.claimed a = true ↔ a ∈ w.claims) ∧
      w.totalSupply = setupFunds * (Finset.univ.filter fun a ↦ w.claimed a = true).card) ∧
    (∀ r ∈ (history (code d) depth txs (initial creator)).2, Refused d r) ∧
    ∀ (call : Call d) (recipient : Address) (amount : ℕ) (onL2 : Bool),
      call.entry = .request recipient amount onL2 → recipient ≠ 0 → recipient ≠ d.faucet → 0 < amount →
      ∃ k, Needed d amount w k ∧ k ≤ (amount - w.token.balance d.faucet + (setupFunds - 1)) / setupFunds ∧
        (creations < w.created + k → ∀ time below replies, ∃ t,
          exec (code d) (below + 1) (.top time) (.call call replies) w =
            (w, ⟨call, .top time, w, w, false⟩ :: t)) ∧
        (w.created + k ≤ creations → onL2 = false → ∃ w', Delivered d amount k w w' ∧
          w'.token.balance recipient =
            (if ∃ i < k, recipient = d.deployed (w.created + i) then 0 else w.token.balance recipient) + amount ∧
          ∀ time below replies, exec (code d) (below + 1) (.top time) (.call call replies) w =
            (w', [⟨call, .top time, w, w', true⟩])) ∧
        (w.created + k ≤ creations → onL2 = true → ∃ called, Asked d recipient amount k w called ∧
          ∀ time below acts answer replies,
            (sequence (exec (code d) below ((Frame.top time).inner false)) acts called).1.token.balance d.faucet +
              amount = called.token.balance d.faucet →
            ∃ w' t, exec (code d) (below + 1) (.top time) (.call call ((acts, some answer) :: replies)) w =
              (w', ⟨call, .top time, w, w', true⟩ :: t) ∧ Delivered d amount k w w') := by
  intro w
  obtain ⟨⟨hinv, hidle⟩, hrefused⟩ := history_keeps houtside depth txs
  refine ⟨⟨hinv.supplied.nodup, hinv.supplied.claimed_iff, hinv.supplied.card⟩, hrefused,
    fun call recipient amount onL2 hentry hrecipient hself hamount ↦ ?_⟩
  obtain ⟨k, hneeded⟩ := exists_needed d amount w
  refine ⟨k, hneeded, hneeded.le, fun hroom time below replies ↦ ?_, fun hroom hl1 ↦ ?_, fun hroom hl2 ↦ ?_⟩
  · exact exec_refused hinv hidle hneeded hroom hentry hrecipient hself hamount time below replies
  · subst hl1
    obtain ⟨w', hrun, hdelivered, hpaid⟩ := run_l1 hrecipient hself hamount hinv hidle hneeded hroom
    refine ⟨w', hdelivered, hpaid, fun time below replies ↦ ?_⟩
    have hrun' := hrun (environment (fun f' ↦ sequence (exec (code d) below f')) (code d).view (.top time))
      (replies, [])
    rw [← body_request hentry (.top time)] at hrun'
    exact exec_call_ok hrun'
  · subst hl2
    obtain ⟨called, hasked, hready⟩ := exists_asked hrecipient hself hamount hinv hidle hneeded hroom 0
    refine ⟨called, hasked, fun time below acts answer replies hmoved ↦ ?_⟩
    have hready' : Ready d ((Frame.top time).inner false) called := ⟨hready.inv, hready.delivering⟩
    exact hasked.delivered hready' below call hentry acts answer replies hmoved

/-! ## A faucet of its own -/

/-- The bridge can take what it was approved. -/
theorem Asked.moved {recipient : Address} {called : World} (h : Asked d recipient amount k w called)
    (henough : amount ≤ stock d w k) (houtside : d.Outside d.bridge) (time below : ℕ) :
    (sequence (exec (code d) (below + 1) ((Frame.top time).inner false))
        [.call ⟨d.bridge, houtside, .transferFrom d.faucet d.bridge amount⟩ []] called).1.token.balance d.faucet +
      amount = called.token.balance d.faucet := by
  obtain ⟨w', hok⟩ := transferFrom_ok d.faucet_ne_zero d.bridge_ne_zero d.bridge_ne_zero h.approval.ge
    (henough.trans_eq h.faucet.symm)
  have hrun : ((code d).body ((Frame.top time).inner false)
        ⟨d.bridge, houtside, .transferFrom d.faucet d.bridge amount⟩).run ((Frame.top time).inner false).static
      (environment (fun f' ↦ sequence (exec (code d) below f')) (code d).view ((Frame.top time).inner false)) called
      ([], []) = (.ok (), w', [], []) := by
    dsimp only [code]
    rw [act, run, hok]
    rfl
  rw [Contract.sequence, exec_call_ok hrun, Contract.sequence]
  obtain ⟨token, rfl, hmoves⟩ := transferFrom_eq_ok hok
  have hfaucet := hmoves.balance d.faucet
  rw [shift_apply, if_neg houtside.1.symm, if_pos rfl] at hfaucet
  dsimp only
  omega

theorem address_ne {m n : ℕ} (hm : m < 2 ^ 160) (hn : n < 2 ^ 160) (hne : m ≠ n) :
    (BitVec.ofNat 160 m : Address) ≠ BitVec.ofNat 160 n := fun heq ↦ by
  have hnat := congrArg BitVec.toNat heq
  rw [BitVec.toNat_ofNat, BitVec.toNat_ofNat, Nat.mod_eq_of_lt hm, Nat.mod_eq_of_lt hn] at hnat
  exact hne hnat

def sample : Deployment where
  faucet := 1
  bridge := 2
  destinationRollup := 1
  deployed n := BitVec.ofNat 160 (n + 10)
  faucet_ne_zero := by decide
  bridge_ne_zero := by decide
  injective m hm n hn heq := by
    rw [creations] at hm hn
    by_contra hne
    exact address_ne (by omega) (by omega) (fun h ↦ hne (by omega)) heq
  deployed_ne_zero n hn := by
    rw [creations] at hn
    exact address_ne (n := 0) (by omega) (by decide) (by omega)
  deployed_ne_faucet n hn := by
    rw [creations] at hn
    exact address_ne (n := 1) (by omega) (by decide) (by omega)

theorem outside_sample {n : ℕ} (hn : n ≠ 1) (hlt : n < 10) : sample.Outside (BitVec.ofNat 160 n) := by
  refine ⟨address_ne (n := 1) (by omega) (by decide) hn, fun m hm ↦ ?_⟩
  rw [creations] at hm
  exact address_ne (by omega) (by omega) (by omega)

theorem outside_three : sample.Outside 3 := outside_sample (n := 3) (by decide) (by decide)

theorem outside_bridge : sample.Outside 2 := outside_sample (n := 2) (by decide) (by decide)

/-- A request for the creator of the token. -/
def sampleCall (amount : ℕ) (onL2 : Bool) : Call sample := ⟨3, outside_three, .request 3 amount onL2⟩

/-- A bridge that takes what it was approved. -/
def sampleReply (amount : ℕ) : Reply (Call sample) :=
  ([.call ⟨2, outside_bridge, .transferFrom 1 2 amount⟩ []], some [])

/-- A faucet that has nothing makes one contract for one unit, and delivers the unit on L1 and to L2. -/
theorem request_served_sample :
    (∃ w', exec (code sample) 1 (.top 0) (.call (sampleCall 1 false) []) (initial 3) =
        (w', [⟨sampleCall 1 false, .top 0, initial 3, w', true⟩]) ∧
      Delivered sample 1 1 (initial 3) w' ∧ w'.token.balance 3 = 450000001) ∧
    ∃ w' t, exec (code sample) 2 (.top 0) (.call (sampleCall 1 true) [sampleReply 1]) (initial 3) =
        (w', ⟨sampleCall 1 true, .top 0, initial 3, w', true⟩ :: t) ∧
      Delivered sample 1 1 (initial 3) w' := by
  obtain ⟨-, -, hrequests⟩ := request_served outside_three 0 []
  have hone : ∀ {k : ℕ}, Needed sample 1 (initial 3) k →
      k ≤ (1 - (initial 3).token.balance sample.faucet + (setupFunds - 1)) / setupFunds → k = 1 := by
    intro k hneeded hle
    have henough := hneeded.enough
    have hle' : k ≤ 1 := hle
    rcases Nat.le_one_iff_eq_zero_or_eq_one.1 hle' with rfl | rfl
    · rw [stock_zero] at henough
      exact absurd henough (by decide)
    · rfl
  constructor
  · obtain ⟨k, hneeded, hle, -, hserved, -⟩ :=
      hrequests (sampleCall 1 false) 3 1 false rfl (by decide) (by decide) (by decide)
    obtain rfl := hone hneeded hle
    obtain ⟨w', hdelivered, hpaid, hexec⟩ := hserved (by decide) rfl
    refine ⟨w', hexec 0 0 [], hdelivered, hpaid.trans ?_⟩
    rw [if_neg]
    · rfl
    · rintro ⟨i, hi, heq⟩
      exact outside_three.2 _ (hi.trans (by decide)) ((Nat.zero_add i) ▸ heq)
  · obtain ⟨k, hneeded, hle, -, -, hserved⟩ :=
      hrequests (sampleCall 1 true) 3 1 true rfl (by decide) (by decide) (by decide)
    obtain rfl := hone hneeded hle
    obtain ⟨called, hasked, hexec⟩ := hserved (by decide) rfl
    obtain ⟨w', t, hexec', hdelivered⟩ :=
      hexec 0 1 _ [] [] (hasked.moved hneeded.enough outside_bridge 0 0)
    exact ⟨w', t, hexec', hdelivered⟩

/-- Nobody is served the greatest amount there is: the faucet cannot create so many contracts. -/
theorem request_greatest : ∃ t,
    exec (code sample) 1 (.top 0) (.call (sampleCall (2 ^ 256 - 1) false) []) (initial 3) =
      (initial 3, ⟨sampleCall (2 ^ 256 - 1) false, .top 0, initial 3, initial 3, false⟩ :: t) := by
  obtain ⟨k, hneeded⟩ := exists_needed sample (2 ^ 256 - 1) (initial 3)
  have hbound : ∀ a, (initial 3).token.balance a ≤ setupFunds := fun a ↦ by
    dsimp only [initial, World.grant, Token.mint]
    split
    · exact (Nat.zero_add _).le
    · exact Nat.zero_le _
  have hstock : stock sample (initial 3) k ≤ setupFunds + k * (setupFunds + setupFunds) := by
    rw [stock]
    refine Nat.add_le_add (hbound _) ?_
    calc ∑ i ∈ Finset.range k, forwarded sample (initial 3) ((initial 3).created + i)
        ≤ ∑ _i ∈ Finset.range k, (setupFunds + setupFunds) :=
          Finset.sum_le_sum fun i _ ↦ Nat.add_le_add_left (hbound _) _
      _ = k * (setupFunds + setupFunds) := by rw [Finset.sum_const, Finset.card_range, smul_eq_mul]
  have hmany : creations < (initial 3).created + k := by
    have henough := hneeded.enough.trans hstock
    rw [setupFunds] at henough
    rw [creations]
    omega
  exact exec_refused (inv_initial outside_three) rfl hneeded hmany rfl (by decide) (by decide) (by decide) 0 0 []

end Faucet
