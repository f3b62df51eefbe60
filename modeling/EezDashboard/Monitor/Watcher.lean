import EezDashboard.Codec.Except
import EezDashboard.Js.Hex
import EezDashboard.Js.Json
import EezDashboard.Monitor.Delivery

/-!
# Watching the heads of a chain

`HeadWatcher.observe` passes every new head to the feed, and wakes the worker that reads the whole network when
the head may not be the next one of the chain.  It decides that from the number and the parent alone, while the
feed does not publish a head of which any quantity is missing.
-/

set_option autoImplicit false

namespace Monitor

open Js

/-! ## Reading a head -/

/-- The blanks of Unicode 15 beyond ASCII. -/
def unicodeSpaces : List ℕ :=
  [0x85, 0xa0, 0x1680] ++ List.range' 0x2000 11 ++ [0x2028, 0x2029, 0x202f, 0x205f, 0x3000]

/-- The zeros among the decimal digits of Unicode 15 beyond ASCII; the other nine digits follow each of them. -/
def decimalZeros : List ℕ :=
  [0x660, 0x6f0, 0x7c0, 0x966, 0x9e6, 0xa66, 0xae6, 0xb66, 0xbe6, 0xc66, 0xce6, 0xd66, 0xde6, 0xe50, 0xed0, 0xf20, 0x1040,
   0x1090, 0x17e0, 0x1810, 0x1946, 0x19d0, 0x1a80, 0x1a90, 0x1b50, 0x1bb0, 0x1c40, 0x1c50, 0xa620, 0xa8d0, 0xa900,
   0xa9d0, 0xa9f0, 0xaa50, 0xabf0, 0xff10, 0x104a0, 0x10d30, 0x11066, 0x110f0, 0x11136, 0x111d0, 0x112f0, 0x11450,
   0x114d0, 0x11650, 0x116c0, 0x11730, 0x118e0, 0x11950, 0x11c50, 0x11d50, 0x11da0, 0x11f50, 0x16a60, 0x16ac0, 0x16b50,
   0x1d7ce, 0x1d7d8, 0x1d7e2, 0x1d7ec, 0x1d7f6, 0x1e140, 0x1e2f0, 0x1e4f0, 0x1e950, 0x1fbf0]

/-- The ASCII character that `int` reads in place of a blank or a digit; there is none for any other. -/
def toAscii (c : Char) : Char :=
  if c.toNat < 128 then c
  else if c.toNat ∈ unicodeSpaces then ' '
  else
    match decimalZeros.find? fun first ↦ decide (first ≤ c.toNat ∧ c.toNat < first + 10) with
    | some first => Char.ofNat ('0'.toNat + (c.toNat - first))
    | none => '?'

/-- The blanks that may stand around a number: of the ASCII ones neither the separators nor NUL. -/
def isBlank (c : Char) : Bool := c = ' ' || (9 ≤ c.toNat && c.toNat ≤ 13)

/-- Hexadecimal digits, in groups with an underscore between them. -/
def groups16 (ds : List Char) : Option ℕ :=
  if (ds.splitOn '_').all fun group ↦ group ≠ [] ∧ group.all isHexDigit then
    some (hexValue (ds.filter (· ≠ '_')))
  else none

/-- The digits may stand behind a prefix. -/
def unsigned16 : List Char → Option ℕ
  | '0' :: 'x' :: '_' :: ds | '0' :: 'X' :: '_' :: ds | '0' :: 'x' :: ds | '0' :: 'X' :: ds | ds => groups16 ds

/-- `int(text, 16)` of Python -/
def int16 (text : String) : Option ℤ :=
  match ((text.toList.map toAscii).dropWhile isBlank).rdropWhile isBlank with
  | '-' :: ds => (unsigned16 ds).map fun n ↦ -(n : ℤ)
  | '+' :: ds | ds => (unsigned16 ds).map Int.ofNat

example : int16 "\u00a0-0xF_f\x0c" = some (-255) ∧ int16 "0x\u0661\uff12" = some 18 := by decide +kernel

/-- What `quantity` of `publish_head` reads, before it looks at the range. -/
def prefixed16 (raw : Option Json) : Option ℤ :=
  ((string? raw).filter fun t ↦ ['0', 'x'].isPrefixOf t.toList).bind int16

/-- A head as `publish_head` reads it. -/
def headerOf (head : Json) : Header where
  number := prefixed16 (get (some head) "number")
  hash := string? (get (some head) "hash")
  parentHash := string? (get (some head) "parentHash")
  timestamp := prefixed16 (get (some head) "timestamp")
  gasUsed := prefixed16 (get (some head) "gasUsed")
  gasLimit := prefixed16 (get (some head) "gasLimit")

/-- The number as `observe` reads it: without looking for a prefix. -/
def numberOf (head : Json) : Option ℤ := (string? (get (some head) "number")).bind int16

def parentOf (head : Json) : Option String := string? (get (some head) "parentHash")

/-- The hash of a head that is not refused. -/
def acceptedHash (head : Json) : Except String String :=
  match head with
  | .obj _ =>
    match string? (get (some head) "hash") with
    | none => .error "head must have a block hash"
    | some hash => do
      raiseIf (hash.length ≠ 66) "head must have a block hash"
      let digits := String.ofList (hash.toList.drop 2)
      raiseIf (int16 digits = none) s!"invalid literal for int() with base 16: '{digits}'"
      raiseIf (['0', 'x'].isPrefixOf hash.toList = false) "head must have a hex block hash"
      return hash
  | _ => .error "head must be an object"

/-! ## The watcher -/

/-- What a `HeadWatcher` remembers. -/
structure Watcher where
  name : Name
  lastHash : Option String
  lastNumber : Option ℤ

namespace Watcher

/-- `HeadWatcher.__init__` -/
def init (name : Name) : Watcher := ⟨name, none, none⟩

/-- `number is None or self.last_number is None or number <= self.last_number` -/
def notHigher (watcher : Watcher) (head : Json) : Bool :=
  match numberOf head, watcher.lastNumber with
  | some number, some lastNumber => number ≤ lastNumber
  | _, _ => true

/-- Whether the network is to be read again: after any head of L1, and any of L2 but the next. -/
def reconcile (watcher : Watcher) (head : Json) : Bool :=
  watcher.name = .l1 || watcher.lastHash.isNone || watcher.notHigher head ||
    parentOf head ≠ watcher.lastHash

end Watcher

/-- The feed, and one watcher for each chain. -/
structure Watch (Row Snapshot : Type) where
  system : System Row Snapshot
  watchers : Name → Watcher

inductive WatchOp (Row Snapshot : Type)
  /-- a node reports a head -/
  | observe (name : Name) (head : Json) (receivedAt : ℤ)
  /-- the worker starts to read the network -/
  | clear
  | feed (op : Op Row Snapshot)

namespace Watch

variable {Row Snapshot : Type}

def init : Watch Row Snapshot := ⟨System.init, Watcher.init⟩

/-- `wake.set()` or `wake.clear()` -/
def setWake (s : Watch Row Snapshot) (wake : Bool) : Watch Row Snapshot :=
  { s with system := { s.system with feed := { s.system.feed with wake := wake } } }

/-- What `observe` does with a head whose hash is new. -/
def observeNew (s : Watch Row Snapshot) (name : Name) (head : Json) (hash : String) (receivedAt : ℤ) :
    Watch Row Snapshot :=
  let watcher := s.watchers name
  let published : Watch Row Snapshot :=
    { system := s.system.step (.publishHead name (headerOf head) receivedAt)
      watchers := Function.update s.watchers name { watcher with lastHash := hash, lastNumber := numberOf head } }
  if watcher.reconcile head then published.setWake true else published

/-- `observe` -/
def observe (s : Watch Row Snapshot) (name : Name) (head : Json) (receivedAt : ℤ) :
    Except String Unit × Watch Row Snapshot :=
  match acceptedHash head with
  | .error e => (.error e, s)
  | .ok hash =>
    if (s.watchers name).lastHash = some hash then (.ok ⟨⟩, s)
    else (.ok ⟨⟩, s.observeNew name head hash receivedAt)

def step (s : Watch Row Snapshot) : WatchOp Row Snapshot → Watch Row Snapshot
  | .observe name head receivedAt => (s.observe name head receivedAt).2
  | .clear => s.setWake false
  | .feed op => { s with system := s.system.step op }

def run (ops : List (WatchOp Row Snapshot)) : Watch Row Snapshot := ops.foldl step init

end Watch

/-! ## What becomes of a head -/

section Noticed

variable {Row Snapshot : Type}

/-- A head that is accepted and new, at one step of a run and while the feed runs. -/
structure Seen (ops : List (WatchOp Row Snapshot)) (name : Name) (head : Json) (hash : String)
    (before after : Watch Row Snapshot) : Prop where
  step : ∃ earlier receivedAt later, ops = earlier ++ .observe name head receivedAt :: later ∧
    before = Watch.run earlier ∧ after = before.step (.observe name head receivedAt)
  running : before.system.feed.stopped = false
  accepted : acceptedHash head = .ok hash
  new : (before.watchers name).lastHash ≠ some hash

/-- The head is published, or the network is read again. -/
def Noticed (name : Name) (hash : String) (before after : Watch Row Snapshot) : Prop :=
  (after.system.feed.version = before.system.feed.version + 1 ∧
    (after.system.feed.heads name).map (fun h ↦ h.block.hash) = some hash) ∨
  after.system.feed.wake = true

/-- The head is the child of the one that was observed before it. -/
def Extends (watcher : Watcher) (head : Json) : Prop :=
  watcher.lastHash.isSome = true ∧ parentOf head = watcher.lastHash ∧
    ∃ number lastNumber, numberOf head = some number ∧ watcher.lastNumber = some lastNumber ∧ lastNumber < number

/-- The header can be published; or the head is not just the next one of L2; or the network is about to be read
again anyway. -/
def Covered (name : Name) (head : Json) (before : Watch Row Snapshot) : Prop :=
  (Feed.headerBlock (headerOf head)).isSome = true ∨ ¬(name = .l2 ∧ Extends (before.watchers name) head) ∨
    before.system.feed.wake = true

variable {s : Watch Row Snapshot} {name : Name} {head : Json} {hash : String} {receivedAt : ℤ}

/-- A watcher keeps its chain. -/
theorem Watch.step_name (h : ∀ n, (s.watchers n).name = n) (op : WatchOp Row Snapshot) (n : Name) :
    ((s.step op).watchers n).name = n := by
  cases op with
  | clear => exact h n
  | feed op => exact h n
  | observe name head receivedAt =>
    rw [Watch.step, Watch.observe]
    split
    · exact h n
    · split
      · exact h n
      · rw [Watch.observeNew]
        have hupdate : ∀ watcher : Watcher, watcher.name = name →
            (Function.update s.watchers name watcher n).name = n := by
          intro watcher hname
          by_cases hn : n = name
          · rw [hn, Function.update_self, hname]
          · rw [Function.update_of_ne hn, h n]
        split
        · exact hupdate _ (h name)
        · exact hupdate _ (h name)

theorem Watch.run_name (ops : List (WatchOp Row Snapshot)) (n : Name) : ((Watch.run ops).watchers n).name = n :=
  List.foldlRecOn ops Watch.step (motive := fun s ↦ ∀ n, (s.watchers n).name = n) (fun _ ↦ rfl)
    (fun _ h op _ ↦ step_name h op) n

/-- The network is not read again for just the next head of L2. -/
theorem Watcher.reconcile_iff {watcher : Watcher} :
    watcher.reconcile head = true ↔ ¬(watcher.name = .l2 ∧ Extends watcher head) := by
  rw [Watcher.reconcile, Extends, Watcher.notHigher]
  have hname : watcher.name = .l1 ↔ ¬watcher.name = .l2 := by cases watcher.name <;> decide
  rcases numberOf head with _ | number
  · simp
  rcases watcher.lastNumber with _ | lastNumber
  · simp
  rcases watcher.lastHash with _ | lastHash
  · simp
  simp [hname]
  tauto

theorem acceptedHash_hash (h : acceptedHash head = .ok hash) : (headerOf head).hash = some hash := by
  unfold acceptedHash at h
  split at h
  · split at h
    · cases h
    · rename_i hhash
      simp only [Except.bind_eq_ok, Except.pure_eq_ok] at h
      obtain ⟨_, -, _, -, _, -, rfl⟩ := h
      exact hhash
  · cases h

/-- The block of a header has its hash. -/
theorem headerBlock_hash {header : Header} {block : Block} (h : Feed.headerBlock header = some block) :
    header.hash = some block.hash := by
  simp only [Feed.headerBlock, Option.bind_eq_bind, Option.bind_eq_some_iff, Option.some.injEq] at h
  obtain ⟨_, -, hash, hhash, _, -, _, -, _, -, rfl⟩ := h
  exact hhash

/-- Observing a new head publishes it if its header is complete, and wakes the worker as the watcher decides. -/
theorem Watch.observe_new (haccepted : acceptedHash head = .ok hash)
    (hnew : (s.watchers name).lastHash ≠ some hash) :
    s.step (.observe name head receivedAt) = s.observeNew name head hash receivedAt := by
  rw [Watch.step, Watch.observe, haccepted]
  exact congrArg Prod.snd (if_neg hnew)

theorem Watch.observeNew_feed : (s.observeNew name head hash receivedAt).system.feed =
    { s.system.feed.publishHead name (headerOf head) receivedAt with
      wake := (s.watchers name).reconcile head || s.system.feed.wake } := by
  have hwake : (s.system.feed.publishHead name (headerOf head) receivedAt).wake = s.system.feed.wake := by
    rw [Feed.publishHead]
    split
    · rfl
    · split <;> rfl
  rw [Watch.observeNew]
  split
  · rename_i h
    rw [h, Bool.true_or]
    rfl
  · rename_i h
    rw [Bool.not_eq_true] at h
    rw [h, Bool.false_or, ← hwake]
    rfl

theorem noticed_iff (hrunning : s.system.feed.stopped = false) (haccepted : acceptedHash head = .ok hash)
    (hname : (s.watchers name).name = name) :
    Noticed name hash s (s.observeNew name head hash receivedAt) ↔ Covered name head s := by
  rw [Noticed, Covered, Watch.observeNew_feed]
  dsimp only
  rw [Bool.or_eq_true, Watcher.reconcile_iff, hname]
  refine or_congr_left ?_
  rw [Feed.publishHead]
  cases hblock : Feed.headerBlock (headerOf head) with
  | none => simp
  | some block =>
    have hhash := (headerBlock_hash hblock).symm.trans (acceptedHash_hash haccepted)
    rw [Option.some.injEq] at hhash
    simp [hrunning, hhash]

end Noticed

/-- In every run, each new head is noticed exactly if its step is covered; and whatever does not extend the head
before it wakes the worker. -/
theorem run_noticed_iff {Row Snapshot : Type} (ops : List (WatchOp Row Snapshot)) :
    ((∀ name head hash before after, Seen ops name head hash before after → Noticed name hash before after) ↔
      ∀ name head hash before after, Seen ops name head hash before after → Covered name head before) ∧
    ∀ name head hash before after, Seen ops name head hash before after →
      ¬Extends (before.watchers name) head → after.system.feed.wake = true := by
  have hstep : ∀ {name head hash before after}, Seen ops name head hash before after →
      (Noticed name hash before after ↔ Covered name head before) ∧
        (¬Extends (before.watchers name) head → after.system.feed.wake = true) := by
    rintro name head hash before after ⟨⟨earlier, receivedAt, later, -, rfl, rfl⟩, hrunning, haccepted, hnew⟩
    rw [Watch.observe_new haccepted hnew]
    refine ⟨noticed_iff hrunning haccepted (Watch.run_name earlier name), fun hextends ↦ ?_⟩
    rw [Watch.observeNew_feed]
    exact Bool.or_eq_true_iff.2 (.inl (Watcher.reconcile_iff.2 fun h ↦ hextends h.2))
  refine ⟨⟨fun h name head hash before after hseen ↦ ?_, fun h name head hash before after hseen ↦ ?_⟩, ?_⟩
  · exact (hstep hseen).1.1 (h name head hash before after hseen)
  · exact (hstep hseen).1.2 (h name head hash before after hseen)
  · exact fun name head hash before after hseen ↦ (hstep hseen).2

/-- A head of L2 as its node reports it, except that the gas used may be missing. -/
def sampleHead (number hash parentHash : String) (gasUsed : List (String × Json)) : Json :=
  .obj ([("number", .str number), ("hash", .str hash), ("parentHash", .str parentHash),
    ("timestamp", .str "0x65"), ("gasLimit", .str "0x1c9c380")] ++ gasUsed)

def hashA : String := "0xaaaaaaaaaaaaaaaaaaaaaaaaaaaaaaaaaaaaaaaaaaaaaaaaaaaaaaaaaaaaaaaa"

def hashB : String := "0xbbbbbbbbbbbbbbbbbbbbbbbbbbbbbbbbbbbbbbbbbbbbbbbbbbbbbbbbbbbbbbbb"

/-- The worker has read the network when the next head comes, without the gas used. -/
def sampleWatch : List (WatchOp ℕ ℕ) :=
  [.observe .l2 (sampleHead "0xc" hashA hashB [("gasUsed", .str "0x0")]) 0, .clear,
    .observe .l2 (sampleHead "0xd" hashB hashA []) 1]

/-- That head is neither published nor does the worker wake. -/
theorem not_noticed_incomplete :
    ¬∀ name head hash before after, Seen sampleWatch name head hash before after →
      Noticed name hash before after := by
  intro h
  have hseen : Seen sampleWatch .l2 (sampleHead "0xd" hashB hashA []) hashB (Watch.run (sampleWatch.take 2))
      (Watch.run sampleWatch) :=
    ⟨⟨sampleWatch.take 2, 1, [], rfl, rfl, rfl⟩, by decide +kernel, by decide +kernel, by decide +kernel⟩
  have hnoticed := h _ _ _ _ _ hseen
  rw [Noticed] at hnoticed
  revert hnoticed
  decide +kernel

end Monitor
