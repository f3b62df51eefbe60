import EezDashboard.Blob.Semantic
import EezDashboard.Codec.Brackets

/-!
# The messages of the stream

A `Message` is one message with its fields read, and `Step` says what it does to the state of the
loop: one constructor for each message, with the checks that the decoder makes as its hypotheses.
The bytes are gone from it, and what the decoder does with a stream is what `Steps` does with the
messages the stream spells (`messageLoop_eq_ok`).

Calls and returns, and snapshots and reverts, are two kinds of brackets.  `Tracks` says that the
three stacks of the loop are one stack of open brackets, and `Steps.tracks` that the checks on
depths make every bracket close one of its own kind.
-/

set_option autoImplicit false

open Codec Brackets

namespace BlobDecoder

/-! ## Messages -/

inductive Kind
  | call | region
  deriving DecidableEq, Repr

/-- What an opening bracket carries. -/
abbrev Opening : Kind → Type
  | .call => CallFields
  | .region => Unit

/-- What a closing bracket carries. -/
abbrev Closing : Kind → Type
  | .call => ReturnFields
  | .region => Unit

inductive Message
  | initiate (origin : ℕ) (txData : Bytes)
  | bracket (b : Bracket Opening Closing)
  | finish

@[match_pattern] abbrev Message.call (c : CallFields) : Message := .bracket (.opening .call c)

@[match_pattern] abbrev Message.ret (r : ReturnFields) : Message := .bracket (.closing .call r)

@[match_pattern] abbrev Message.snapshot : Message := .bracket (.opening .region ())

@[match_pattern] abbrev Message.revert : Message := .bracket (.closing .region ())

def Mode.type : Mode → ℕ
  | .call => 4
  | .staticCall => 5

def Outcome.type : Outcome → ℕ
  | .returnSuccess => 6
  | .returnFail => 7

/-- The byte a message starts with. -/
def Message.type : Message → ℕ
  | .initiate _ _ => 3
  | .call c => c.mode.type
  | .ret r => r.outcome.type
  | .snapshot => 8
  | .revert => 9
  | .finish => 10

/-- A little-endian number of `size` bytes. -/
def SpellsNumber (size n : ℕ) (bs : Bytes) : Prop := bs.length = size ∧ ofLittle bs = n

/-- The value of a call; a static call has none and spells none. -/
def SpellsValue : Mode → ℕ → Bytes → Prop
  | .call, value, bs => SpellsNumber 32 value bs
  | .staticCall, value, bs => value = 0 ∧ bs = []

/-- What follows the type byte of a message. -/
def Message.SpellsFields : Message → Bytes → Prop
  | .initiate origin txData, bs =>
    ∃ raw tail, SpellsNumber 8 origin raw ∧ SpellsBytes txData tail ∧ bs = raw ++ tail
  | .call c, bs => ∃ target value gas tail, SpellsNumber 8 c.target target ∧
      c.fromAddress.length = 20 ∧ c.toAddress.length = 20 ∧ SpellsValue c.mode c.value value ∧
      SpellsNumber 8 c.gas gas ∧ SpellsBytes c.data tail ∧
      bs = target ++ (c.fromAddress ++ (c.toAddress ++ (value ++ (gas ++ tail))))
  | .ret r, bs => SpellsBytes r.data bs
  | .snapshot, bs => bs = []
  | .revert, bs => bs = []
  | .finish, bs => bs = []

/-- The bytes `bs` are this message. -/
def Message.Spells (m : Message) (bs : Bytes) : Prop :=
  ∃ fields, m.SpellsFields fields ∧ bs = UInt8.ofNat m.type :: fields

/-- The bytes `bs` are these messages, one after the other. -/
inductive SpellsAll : List Message → Bytes → Prop
  | nil : SpellsAll [] []
  | cons {m : Message} {ms : List Message} {bs rest : Bytes} (h : m.Spells bs)
      (hs : SpellsAll ms rest) : SpellsAll (m :: ms) (bs ++ rest)

/-! ## Steps -/

/-- What one message does to the state, and when it may come. -/
inductive Step : State → Message → State → Prop
  | initiate {st : State} {origin : ℕ} {txData : Bytes} (hcur : st.current = none)
      (hctx : st.contexts = []) : Step st (.initiate origin txData) (st.initiate origin txData)
  | call {st : State} {t : SemanticTransaction} {c : CallFields} (hcur : st.current = some t)
      (hctx : st.contexts ≠ []) (hdepth : st.contexts.length < 64) (hgas : c.gas = 0) :
      Step st (.call c) (st.call t c)
  | ret {st : State} {t : SemanticTransaction} {r : ReturnFields} (hcur : st.current = some t)
      (hopen : st.openCalls ≠ []) (hctx : 2 ≤ st.contexts.length)
      (hsnap : ∀ s ∈ st.snapshots.head?, s.contextDepth ≠ st.contexts.length) :
      Step st (.ret r) (st.ret t r)
  | snapshot {st : State} {t : SemanticTransaction} (hcur : st.current = some t)
      (hdepth : st.snapshots.length < 64) : Step st .snapshot (st.snapshot t)
  | revert {st : State} {t : SemanticTransaction} {s : Snapshot} {below : List Snapshot}
      (hcur : st.current = some t) (hsnap : st.snapshots = s :: below)
      (hctx : s.contextDepth = st.contexts.length) (hopen : s.callDepth = st.openCalls.length)
      (hpos : s.firstCallIndex < t.calls.length)
      (hfree : ∀ call ∈ t.calls.drop s.firstCallIndex, call.rollbackRegion = none) :
      Step st .revert (st.revert t s)
  | finish {st : State} {t : SemanticTransaction} (hcur : st.current = some t)
      (hctx : st.contexts.length = 1) (hopen : st.openCalls = []) (hsnap : st.snapshots = [])
      (hcalls : t.calls ≠ []) : Step st .finish (st.finish t)

inductive Steps : State → List Message → State → Prop
  | nil {st : State} : Steps st [] st
  | cons {st st₁ st' : State} {m : Message} {ms : List Message} (h : Step st m st₁)
      (hs : Steps st₁ ms st') : Steps st (m :: ms) st'

theorem steps_nil_iff {st st' : State} : Steps st [] st' ↔ st' = st := by
  constructor
  · rintro ⟨⟩
    rfl
  · rintro rfl
    exact .nil

theorem steps_cons_iff {st st' : State} {m : Message} {ms : List Message} :
    Steps st (m :: ms) st' ↔ ∃ st₁, Step st m st₁ ∧ Steps st₁ ms st' := by
  constructor
  · rintro (_ | ⟨h, hs⟩)
    exact ⟨_, h, hs⟩
  · rintro ⟨st₁, h, hs⟩
    exact .cons h hs

theorem steps_append_iff {st st' : State} {ms ns : List Message} :
    Steps st (ms ++ ns) st' ↔ ∃ st₁, Steps st ms st₁ ∧ Steps st₁ ns st' := by
  induction ms generalizing st with
  | nil => simp [steps_nil_iff]
  | cons m ms ih =>
    simp only [List.cons_append, steps_cons_iff, ih]
    constructor
    · rintro ⟨st₁, h, st₂, hs, hs'⟩
      exact ⟨st₂, ⟨st₁, h, hs⟩, hs'⟩
    · rintro ⟨st₂, ⟨st₁, h, hs⟩, hs'⟩
      exact ⟨st₁, h, st₂, hs, hs'⟩

/-- **What every step keeps holds of every state reached.** -/
theorem Steps.invariant {P : State → Prop} (hstep : ∀ {st m st'}, Step st m st' → P st → P st')
    {st st' : State} {ms : List Message} (h : Steps st ms st') (hP : P st) : P st' := by
  induction h with
  | nil => exact hP
  | cons h _ ih => exact ih (hstep h hP)

/-! ## The branches of the loop -/

variable {stream : Bytes} {p q : ℕ} {st st' : State}

theorem onInitiate_eq_ok :
    onInitiate stream p st = .ok (st', q) ↔ ∃ origin txData bs,
      (Message.initiate origin txData).SpellsFields bs ∧ Span stream p q bs ∧
        Step st (.initiate origin txData) st' := by
  simp only [onInitiate, Except.bind_eq_ok, raiseIf_eq_ok, Except.pure_eq_ok, exists_and_left,
    exists_const, Prod.exists, fixed_eq_ok, messageBytes_eq_ok, Prod.mk.injEq, not_or, ne_eq,
    not_not]
  constructor
  · rintro ⟨⟨hcur, hctx⟩, raw, m, ⟨hlen, hraw⟩, txData, m', ⟨bs, hbs, hspan⟩, rfl, rfl⟩
    exact ⟨_, txData, raw ++ bs, ⟨raw, bs, ⟨hlen, rfl⟩, hbs, rfl⟩, hraw.append hspan,
      .initiate hcur hctx⟩
  · rintro ⟨origin, txData, _, ⟨raw, tail, ⟨hlen, rfl⟩, htail, rfl⟩, hspan, hstep⟩
    obtain ⟨hcur, hctx⟩ | _ := hstep
    obtain ⟨m, hraw, hrest⟩ := span_append_iff.mp hspan
    exact ⟨⟨hcur, hctx⟩, raw, m, ⟨hlen, hraw⟩, txData, q, ⟨tail, htail, hrest⟩, rfl, rfl⟩

theorem callValue_eq_ok {mode : Mode} {value : ℕ} (hp : p ≤ stream.length) :
    callValue mode stream p = .ok (value, q) ↔
      ∃ bs, SpellsValue mode value bs ∧ Span stream p q bs := by
  cases mode with
  | call =>
    simp only [callValue, Except.bind_eq_ok, Prod.exists, fixed_eq_ok, Except.pure_eq_ok,
      Prod.mk.injEq, SpellsValue, SpellsNumber]
    constructor
    · rintro ⟨raw, m, ⟨hlen, hspan⟩, rfl, rfl⟩
      exact ⟨raw, ⟨hlen, rfl⟩, hspan⟩
    · rintro ⟨bs, ⟨hlen, rfl⟩, hspan⟩
      exact ⟨bs, q, ⟨hlen, hspan⟩, rfl, rfl⟩
  | staticCall =>
    simp only [callValue, Except.pure_eq_ok, Prod.mk.injEq, SpellsValue]
    constructor
    · rintro ⟨rfl, rfl⟩
      exact ⟨[], ⟨rfl, rfl⟩, Span.nil hp⟩
    · rintro ⟨bs, ⟨rfl, rfl⟩, hspan⟩
      exact ⟨rfl, (span_nil_iff.mp hspan).1⟩

theorem onCall_eq_ok {mode : Mode} :
    onCall mode stream p st = .ok (st', q) ↔ ∃ c bs, c.mode = mode ∧
      (Message.call c).SpellsFields bs ∧ Span stream p q bs ∧ Step st (.call c) st' := by
  cases hcur : st.current with
  | none =>
    simp only [onCall, hcur]
    constructor
    · intro h
      cases h
    · rintro ⟨call, bs, -, -, -, hstep⟩
      cases hstep with
      | call hcur' => rw [hcur] at hcur'; cases hcur'
  | some t =>
    simp only [onCall, hcur, Except.bind_eq_ok, raiseIf_eq_ok, Except.pure_eq_ok, exists_and_left,
      exists_const, Prod.exists, fixed_eq_ok, messageBytes_eq_ok, Prod.mk.injEq, not_le, ge_iff_le,
      ne_eq, not_not]
    constructor
    · rintro ⟨hctx, hdepth, target, p₁, ⟨htlen, ht⟩, fromA, p₂, ⟨hflen, hf⟩, toA, p₃, ⟨holen, ho⟩,
        value, p₄, hvalue, gas, p₅, ⟨hglen, hg⟩, hgas, data, p₆, ⟨tail, htail, hd⟩, rfl, rfl⟩
      obtain ⟨vbs, hv, hvspan⟩ := (callValue_eq_ok ho.le).mp hvalue
      refine ⟨⟨mode, ofLittle target, fromA, toA, value, ofLittle gas, data⟩, rfl, _,
        ⟨target, vbs, gas, tail, ⟨htlen, rfl⟩, hflen, holen, hv, ⟨hglen, rfl⟩, htail, rfl⟩, ?_,
        .call hcur hctx hdepth hgas⟩
      exact ht.append (hf.append (ho.append (hvspan.append (hg.append hd))))
    · rintro ⟨⟨_, _, fromA, toA, value, _, data⟩, rfl, _, ⟨target, vbs, gas, tail, ⟨htlen, rfl⟩,
        hflen, holen, hv, ⟨hglen, rfl⟩, htail, rfl⟩, hspan, hstep⟩
      cases hstep with
      | call hcur' hctx hdepth hgas =>
        rw [hcur, Option.some_inj] at hcur'
        subst hcur'
        obtain ⟨p₁, ht, hspan⟩ := span_append_iff.mp hspan
        obtain ⟨p₂, hf, hspan⟩ := span_append_iff.mp hspan
        obtain ⟨p₃, ho, hspan⟩ := span_append_iff.mp hspan
        obtain ⟨p₄, hvspan, hspan⟩ := span_append_iff.mp hspan
        obtain ⟨p₅, hg, hd⟩ := span_append_iff.mp hspan
        exact ⟨hctx, hdepth, target, p₁, ⟨htlen, ht⟩, fromA, p₂, ⟨hflen, hf⟩, toA, p₃, ⟨holen, ho⟩,
          value, p₄, (callValue_eq_ok ho.le).mpr ⟨vbs, hv, hvspan⟩, gas, p₅, ⟨hglen, hg⟩, hgas,
          data, q, ⟨tail, htail, hd⟩, rfl, rfl⟩

private theorem head_ne_iff {snapshots : List Snapshot} {n : ℕ} :
    (¬(snapshots.head?.any fun snapshot ↦ snapshot.contextDepth = n) = true) ↔
      ∀ s ∈ snapshots.head?, s.contextDepth ≠ n := by
  cases snapshots <;> simp

theorem onReturn_eq_ok {outcome : Outcome} :
    onReturn outcome stream p st = .ok (st', q) ↔ ∃ r bs, r.outcome = outcome ∧
      (Message.ret r).SpellsFields bs ∧ Span stream p q bs ∧ Step st (.ret r) st' := by
  cases hcur : st.current with
  | none =>
    simp only [onReturn, hcur]
    constructor
    · intro h
      cases h
    · rintro ⟨r, bs, -, -, -, hstep⟩
      cases hstep with
      | ret hcur' => rw [hcur] at hcur'; cases hcur'
  | some t =>
    simp only [onReturn, hcur, Except.bind_eq_ok, raiseIf_eq_ok, Except.pure_eq_ok, exists_and_left,
      exists_const, Prod.exists, messageBytes_eq_ok, Prod.mk.injEq, not_or, not_lt]
    constructor
    · rintro ⟨⟨hopen, hctx⟩, hsnap, data, m, ⟨bs, hbs, hspan⟩, rfl, rfl⟩
      exact ⟨⟨outcome, data⟩, rfl, bs, hbs, hspan, .ret hcur hopen hctx (head_ne_iff.mp hsnap)⟩
    · rintro ⟨⟨_, data⟩, rfl, bs, hbs, hspan, hstep⟩
      cases hstep with
      | ret hcur' hopen hctx hsnap =>
        rw [hcur, Option.some_inj] at hcur'
        subst hcur'
        exact ⟨⟨hopen, hctx⟩, head_ne_iff.mpr hsnap, data, q, ⟨bs, hbs, hspan⟩, rfl, rfl⟩

theorem onSnapshot_eq_ok : onSnapshot st = .ok st' ↔ Step st .snapshot st' := by
  cases hcur : st.current with
  | none =>
    simp only [onSnapshot, hcur]
    constructor
    · intro h
      cases h
    · rintro ⟨⟩
      simp_all
  | some t =>
    simp only [onSnapshot, hcur, Except.bind_eq_ok, raiseIf_eq_ok, Except.pure_eq_ok,
      exists_and_left, exists_const, not_le, ge_iff_le]
    constructor
    · rintro ⟨hdepth, rfl⟩
      exact .snapshot hcur hdepth
    · intro hstep
      cases hstep with
      | snapshot hcur' hdepth =>
        rw [hcur, Option.some_inj] at hcur'
        subst hcur'
        exact ⟨hdepth, rfl⟩

theorem onRevert_eq_ok : onRevert st = .ok st' ↔ Step st .revert st' := by
  constructor
  · intro h
    rw [onRevert] at h
    split at h
    · next t s below hcur hsnap =>
      simp only [Except.bind_eq_ok, raiseIf_eq_ok, Except.pure_eq_ok, exists_and_left,
        exists_const, not_or, ne_eq, not_not] at h
      obtain ⟨⟨hctx, hopen⟩, hpos, hfree, rfl⟩ := h
      refine .revert hcur hsnap hctx hopen (by omega) ?_
      simpa using hfree
    · cases h
  · intro hstep
    cases hstep with
    | revert hcur hsnap hctx hopen hpos hfree =>
      simp only [onRevert, hcur, hsnap, Except.bind_eq_ok, raiseIf_eq_ok, Except.pure_eq_ok,
        exists_and_left, exists_const, not_or, ne_eq, not_not]
      exact ⟨⟨hctx, hopen⟩, by omega, by simpa using hfree, trivial⟩

theorem onFinish_eq_ok : onFinish st = .ok st' ↔ Step st .finish st' := by
  cases hcur : st.current with
  | none =>
    simp only [onFinish, hcur]
    constructor
    · intro h
      cases h
    · intro hstep
      cases hstep with
      | finish hcur' => rw [hcur] at hcur'; cases hcur'
  | some t =>
    simp only [onFinish, hcur, Except.bind_eq_ok, raiseIf_eq_ok, Except.pure_eq_ok,
      exists_and_left, exists_const, not_or, ne_eq, not_not]
    constructor
    · rintro ⟨⟨hctx, hopen⟩, hsnap, hcalls, rfl⟩
      exact .finish hcur hctx hopen hsnap hcalls
    · intro hstep
      cases hstep with
      | finish hcur' hctx hopen hsnap hcalls =>
        rw [hcur, Option.some_inj] at hcur'
        subst hcur'
        exact ⟨⟨hctx, hopen⟩, hsnap, hcalls, rfl⟩

/-- A branch whose message has no fields reads nothing. -/
private theorem bare_eq_ok {x : Decoded State} (hp : p ≤ stream.length) :
    (do return (← x, p)) = Except.ok (st', q) ↔ x = .ok st' ∧ Span stream p q [] := by
  rw [Except.bind_eq_ok]
  simp only [Except.pure_eq_ok, Prod.mk.injEq, span_nil_iff, hp, and_true]
  constructor
  · rintro ⟨_, h, rfl, rfl⟩
    exact ⟨h, rfl⟩
  · rintro ⟨h, rfl⟩
    exact ⟨_, h, rfl, rfl⟩

/-- **One round of the loop reads one message and takes its step.** -/
theorem onMessage_eq_ok {type : ℕ} (hp : p ≤ stream.length) :
    onMessage type stream p st = .ok (st', q) ↔ ∃ m bs, m.type = type ∧ m.SpellsFields bs ∧
      Span stream p q bs ∧ Step st m st' := by
  constructor
  · intro h
    unfold onMessage at h
    split at h
    · obtain ⟨origin, txData, bs, hbs, hspan, hstep⟩ := onInitiate_eq_ok.mp h
      exact ⟨_, bs, rfl, hbs, hspan, hstep⟩
    · obtain ⟨c, bs, hc, hbs, hspan, hstep⟩ := onCall_eq_ok.mp h
      exact ⟨.call c, bs, by rw [Message.type, hc]; rfl, hbs, hspan, hstep⟩
    · obtain ⟨c, bs, hc, hbs, hspan, hstep⟩ := onCall_eq_ok.mp h
      exact ⟨.call c, bs, by rw [Message.type, hc]; rfl, hbs, hspan, hstep⟩
    · obtain ⟨r, bs, hr, hbs, hspan, hstep⟩ := onReturn_eq_ok.mp h
      exact ⟨.ret r, bs, by rw [Message.type, hr]; rfl, hbs, hspan, hstep⟩
    · obtain ⟨r, bs, hr, hbs, hspan, hstep⟩ := onReturn_eq_ok.mp h
      exact ⟨.ret r, bs, by rw [Message.type, hr]; rfl, hbs, hspan, hstep⟩
    · obtain ⟨h, hspan⟩ := (bare_eq_ok hp).mp h
      exact ⟨.snapshot, [], rfl, rfl, hspan, onSnapshot_eq_ok.mp h⟩
    · obtain ⟨h, hspan⟩ := (bare_eq_ok hp).mp h
      exact ⟨.revert, [], rfl, rfl, hspan, onRevert_eq_ok.mp h⟩
    · obtain ⟨h, hspan⟩ := (bare_eq_ok hp).mp h
      exact ⟨.finish, [], rfl, rfl, hspan, onFinish_eq_ok.mp h⟩
    · cases h
  · rintro ⟨m, bs, rfl, hbs, hspan, hstep⟩
    rcases m with ⟨origin, txData⟩ | ⟨⟨k, a⟩ | ⟨k, b⟩⟩ | _
    · exact onInitiate_eq_ok.mpr ⟨origin, txData, bs, hbs, hspan, hstep⟩
    · cases k with
      | call =>
        cases hmode : a.mode with
        | call =>
          rw [Message.type, hmode]
          exact onCall_eq_ok.mpr ⟨a, bs, hmode, hbs, hspan, hstep⟩
        | staticCall =>
          rw [Message.type, hmode]
          exact onCall_eq_ok.mpr ⟨a, bs, hmode, hbs, hspan, hstep⟩
      | region =>
        obtain rfl : bs = [] := hbs
        exact (bare_eq_ok hp).mpr ⟨onSnapshot_eq_ok.mpr hstep, hspan⟩
    · cases k with
      | call =>
        cases houtcome : b.outcome with
        | returnSuccess =>
          rw [Message.type, houtcome]
          exact onReturn_eq_ok.mpr ⟨b, bs, houtcome, hbs, hspan, hstep⟩
        | returnFail =>
          rw [Message.type, houtcome]
          exact onReturn_eq_ok.mpr ⟨b, bs, houtcome, hbs, hspan, hstep⟩
      | region =>
        obtain rfl : bs = [] := hbs
        exact (bare_eq_ok hp).mpr ⟨onRevert_eq_ok.mpr hstep, hspan⟩
    · obtain rfl : bs = [] := hbs
      exact (bare_eq_ok hp).mpr ⟨onFinish_eq_ok.mpr hstep, hspan⟩

/-! ## The loop -/

/-- Nothing is open. -/
structure State.Idle (st : State) : Prop where
  current : st.current = none
  contexts : st.contexts = []
  openCalls : st.openCalls = []
  snapshots : st.snapshots = []

/-- The state after `CloseBlobStream`. -/
def State.close (st : State) : State := { st with messages := st.messages ++ [.closeBlobStream] }

theorem onClose_eq_ok : onClose st = .ok st' ↔ st.Idle ∧ st' = st.close := by
  simp only [onClose, Except.bind_eq_ok, raiseIf_eq_ok, Except.pure_eq_ok, exists_and_left,
    exists_const, not_or, ne_eq, not_not]
  constructor
  · rintro ⟨⟨hcur, hctx, hopen, hsnap⟩, rfl⟩
    exact ⟨⟨hcur, hctx, hopen, hsnap⟩, rfl⟩
  · rintro ⟨⟨hcur, hctx, hopen, hsnap⟩, rfl⟩
    exact ⟨⟨hcur, hctx, hopen, hsnap⟩, rfl⟩

theorem Message.type_bounds (m : Message) : 3 ≤ m.type ∧ m.type ≤ 10 := by
  rcases m with ⟨origin, txData⟩ | ⟨⟨k, a⟩ | ⟨k, b⟩⟩ | _
  · exact ⟨Nat.le_refl 3, by simp [Message.type]⟩
  · cases k with
    | call => rw [Message.type]; cases a.mode <;> decide
    | region => simp [Message.type]
  · cases k with
    | call => rw [Message.type]; cases b.outcome <;> decide
    | region => simp [Message.type]
  · exact ⟨by simp [Message.type], Nat.le_refl 10⟩

/-- **What the loop accepts**: messages whose steps lead from the state to one in which nothing is
open, and `CloseBlobStream` behind them. -/
theorem messageLoop_eq_ok {fuel : ℕ} (hfuel : stream.length < fuel + p) (hp : p ≤ stream.length) :
    messageLoop stream fuel p st = .ok (st', q) ↔ ∃ ms bs st₁, SpellsAll ms bs ∧
      Span stream p q (bs ++ [1]) ∧ Steps st ms st₁ ∧ st₁.Idle ∧ st' = st₁.close := by
  induction fuel generalizing p st with
  | zero => omega
  | succ fuel ih =>
    rw [messageLoop]
    cases hbyte : stream[p]? with
    | none =>
      constructor
      · intro h
        cases h
      · rintro ⟨ms, bs, st₁, -, hspan, -⟩
        obtain ⟨m, -, hlast⟩ := span_append_iff.mp hspan
        have := hspan.le
        have := hspan.len
        rw [List.length_append, List.length_singleton] at this
        rw [List.getElem?_eq_none_iff] at hbyte
        omega
    | some byte =>
      have hlt : p < stream.length := (List.getElem?_eq_some_iff.mp hbyte).1
      dsimp only
      constructor
      · intro h
        split at h
        · next h1 =>
          subst h1
          simp only [Except.bind_eq_ok, Except.pure_eq_ok, Prod.mk.injEq, onClose_eq_ok] at h
          obtain ⟨_, ⟨hidle, rfl⟩, rfl, rfl⟩ := h
          exact ⟨[], [], st, .nil, span_singleton_iff.mpr ⟨hbyte, rfl⟩, .nil, hidle, rfl⟩
        split at h
        · cases h
        split at h
        · cases h
        · simp only [Except.bind_eq_ok, Prod.exists] at h
          obtain ⟨st₀, p₀, hmsg, hloop⟩ := h
          obtain ⟨m, bs, htype, hbs, hspan, hstep⟩ := (onMessage_eq_ok hlt).mp hmsg
          have hstart := hspan.start_le
          obtain ⟨ms, rest, st₁, hms, hrest, hsteps, hidle, rfl⟩ :=
            (ih (by omega) hspan.le).mp hloop
          refine ⟨m :: ms, _, st₁, .cons ⟨bs, hbs, rfl⟩ hms, ?_, .cons hstep hsteps, hidle, rfl⟩
          rw [List.append_assoc, List.cons_append, htype, UInt8.ofNat_toNat, span_cons_iff]
          exact ⟨hbyte, hspan.append hrest⟩
      · rintro ⟨ms, bs, st₁, hms, hspan, hsteps, hidle, rfl⟩
        cases hms with
        | nil =>
          obtain rfl := steps_nil_iff.mp hsteps
          obtain ⟨h1, rfl⟩ := span_singleton_iff.mp hspan
          rw [hbyte, Option.some_inj] at h1
          rw [if_pos h1]
          simp only [Except.bind_eq_ok, Except.pure_eq_ok, Prod.mk.injEq, onClose_eq_ok]
          exact ⟨_, ⟨hidle, rfl⟩, rfl, trivial⟩
        | @cons m ms bs rest hm hms =>
          obtain ⟨fields, hfields, rfl⟩ := hm
          obtain ⟨st₀, hstep, hsteps⟩ := steps_cons_iff.mp hsteps
          rw [List.append_assoc, List.cons_append] at hspan
          obtain ⟨htype, hspan⟩ := span_cons_iff.mp hspan
          rw [hbyte, Option.some_inj] at htype
          have hbounds := m.type_bounds
          have htoNat : byte.toNat = m.type := by
            rw [htype, UInt8.toNat_ofNat']
            omega
          have hne : ∀ k : UInt8, k.toNat < 3 → byte ≠ k := by
            rintro k hk rfl
            omega
          rw [if_neg (hne 1 (by decide)), if_neg (hne 0 (by decide)), if_neg (hne 2 (by decide))]
          obtain ⟨p₀, hhead, hrest⟩ := span_append_iff.mp hspan
          have hstart := hhead.start_le
          simp only [Except.bind_eq_ok, Prod.exists]
          exact ⟨st₀, p₀, (onMessage_eq_ok hlt).mpr ⟨m, fields, htoNat.symm, hfields, hhead, hstep⟩,
            (ih (by omega) hhead.le).mpr ⟨ms, rest, st₁, hms, hrest, hsteps, hidle, rfl⟩⟩

/-! ## One stack -/

/-- The depths at which snapshots were taken, from the brackets that are open. -/
def snapshotDepths : List Kind → List ℕ
  | [] => []
  | .call :: below => snapshotDepths below
  | .region :: below => below.count .call :: snapshotDepths below

theorem snapshotDepths_le {stack : List Kind} {d : ℕ} (h : d ∈ snapshotDepths stack) :
    d ≤ stack.count .call := by
  induction stack with
  | nil => cases h
  | cons k below ih =>
    cases k with
    | call =>
      have := ih h
      rw [List.count_cons_self]
      omega
    | region =>
      rw [snapshotDepths, List.mem_cons] at h
      rw [List.count_cons_of_ne (by decide)]
      rcases h with rfl | h
      · exact Nat.le_refl _
      · exact ih h

/-- The three stacks of the loop are one stack of brackets. -/
structure State.Tracks (st : State) (stack : List Kind) : Prop where
  openCalls : st.openCalls.length = stack.count .call
  contexts : st.contexts.length = stack.count .call + 1
  callDepths : st.snapshots.map Snapshot.callDepth = snapshotDepths stack
  contextDepths : ∀ s ∈ st.snapshots, s.contextDepth = s.callDepth + 1

variable {stack : List Kind}

/-- What is on top when the state allows a return. -/
theorem State.Tracks.exists_call (h : st.Tracks stack) (hopen : st.openCalls ≠ [])
    (hsnap : ∀ s ∈ st.snapshots.head?, s.contextDepth ≠ st.contexts.length) :
    ∃ below, stack = .call :: below := by
  have hlen := h.openCalls
  rcases stack with _ | ⟨_ | _, below⟩
  · exact absurd (List.length_eq_zero_iff.mp hlen) hopen
  · exact ⟨below, rfl⟩
  · -- a snapshot on top was taken at the present depth
    have hdepths := h.callDepths
    cases hst : st.snapshots with
    | nil => simp [hst, snapshotDepths] at hdepths
    | cons s rest =>
      rw [hst, List.map_cons, snapshotDepths, List.cons.injEq] at hdepths
      refine absurd ?_ (hsnap s (by rw [hst]; rfl))
      rw [h.contextDepths s (by rw [hst]; exact List.mem_cons_self ..), h.contexts, hdepths.1,
        List.count_cons_of_ne (by decide)]

/-- What is on top when the state allows a revert. -/
theorem State.Tracks.exists_region (h : st.Tracks stack) {s : Snapshot} {rest : List Snapshot}
    (hst : st.snapshots = s :: rest) (hopen : s.callDepth = st.openCalls.length) :
    ∃ below, stack = .region :: below := by
  have hdepths := h.callDepths
  rcases stack with _ | ⟨_ | _, below⟩
  · simp [hst, snapshotDepths] at hdepths
  · have hmem : s.callDepth ∈ snapshotDepths below := by
      rw [← snapshotDepths, ← hdepths, hst]
      exact List.mem_cons_self ..
    have := snapshotDepths_le hmem
    rw [hopen, h.openCalls, List.count_cons_self] at this
    omega
  · exact ⟨below, rfl⟩

/-- **Every bracket closes one of its own kind.** -/
theorem Step.tracks {b : Bracket Opening Closing} (hstep : Step st (.bracket b) st')
    (h : st.Tracks stack) : ∃ stack', track stack b = some stack' ∧ st'.Tracks stack' := by
  cases hstep with
  | call hcur hctx hdepth hgas =>
    refine ⟨.call :: stack, rfl, ?_, ?_, h.callDepths, h.contextDepths⟩
    · rw [List.count_cons_self, ← h.openCalls]
      rfl
    · rw [List.count_cons_self, ← h.contexts]
      rfl
  | ret hcur hopen hctx hsnap =>
    obtain ⟨below, rfl⟩ := h.exists_call hopen hsnap
    have hlen := h.openCalls
    have hlen' := h.contexts
    rw [List.count_cons_self] at hlen hlen'
    refine ⟨below, rfl, ?_, ?_, h.callDepths, h.contextDepths⟩
    · rw [State.ret, State.record, List.length_tail]
      omega
    · rw [State.ret, State.record, List.length_tail]
      omega
  | snapshot hcur hdepth =>
    refine ⟨.region :: stack, rfl, ?_, ?_, ?_, ?_⟩
    · rw [List.count_cons_of_ne (by decide)]
      exact h.openCalls
    · rw [List.count_cons_of_ne (by decide)]
      exact h.contexts
    · rw [snapshotDepths, ← h.callDepths, ← h.openCalls]
      rfl
    · refine List.forall_mem_cons.mpr ⟨?_, h.contextDepths⟩
      rw [State.snapshotHere, h.contexts, h.openCalls]
  | revert hcur hst hctx hopen hpos hfree =>
    obtain ⟨below, rfl⟩ := h.exists_region hst hopen
    have hlen := h.openCalls
    have hlen' := h.contexts
    have hdepths := h.callDepths
    have hctxs := h.contextDepths
    rw [List.count_cons_of_ne (by decide)] at hlen hlen'
    rw [hst, List.map_cons, snapshotDepths, List.cons.injEq] at hdepths
    rw [hst, List.forall_mem_cons] at hctxs
    refine ⟨below, rfl, hlen, hlen', ?_, ?_⟩
    · rw [State.revert, State.record, hst]
      exact hdepths.2
    · rw [State.revert, State.record, hst]
      exact hctxs.2

/-- Nothing is open but the transaction itself. -/
theorem State.Tracks.eq_nil (h : st.Tracks stack) (hctx : st.contexts.length = 1)
    (hsnap : st.snapshots = []) : stack = [] := by
  have hlen := h.contexts
  have hdepths := h.callDepths
  rcases stack with _ | ⟨_ | _, below⟩
  · rfl
  · rw [List.count_cons_self] at hlen
    omega
  · simp [hsnap, snapshotDepths] at hdepths

theorem Steps.tracks {w : List (Bracket Opening Closing)} (hsteps : Steps st (w.map .bracket) st')
    (h : st.Tracks stack) : ∃ stack', trackAll stack w = some stack' ∧ st'.Tracks stack' := by
  induction w generalizing st stack with
  | nil =>
    obtain rfl := steps_nil_iff.mp hsteps
    exact ⟨stack, rfl, h⟩
  | cons b w ih =>
    obtain ⟨st₁, hstep, hrest⟩ := steps_cons_iff.mp hsteps
    obtain ⟨stack₁, htrack, h₁⟩ := hstep.tracks h
    obtain ⟨stack', htracks, h'⟩ := ih hrest h₁
    refine ⟨stack', ?_, h'⟩
    rw [trackAll, List.foldlM_cons, htrack]
    exact htracks

end BlobDecoder
