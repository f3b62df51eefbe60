import Mathlib

/-!
# The live feed

`SnapshotFeed` holds one slot for each chain's newest head, one for each chain's newest block window and
one for the newest snapshot.  Every publication raises `version` and overwrites a slot; a client that waits
with an older version is served one frame with what the slots hold, however much it has missed.

The slots are compared with the list of everything published.  The `n`-th publication raises the version
to `n`, so that a version says how long the list was, and what a slot holds is the newest of its kind.
-/

set_option autoImplicit false

namespace Monitor

inductive Name
  | l1
  | l2
  deriving DecidableEq, Repr

/-- A header as a node reports it.  A quantity is what its text reads as, when it is `0x` text. -/
structure Header where
  number : Option ℤ
  hash : Option String
  parentHash : Option String
  timestamp : Option ℤ
  gasUsed : Option ℤ
  gasLimit : Option ℤ

/-- The block of a published head. -/
structure Block where
  number : ℕ
  hash : String
  parentHash : Option String
  timestamp : ℕ
  gasUsed : ℕ
  gasLimit : ℕ
  deriving DecidableEq, Repr

structure Head where
  block : Block
  sequence : ℕ
  receivedAt : ℤ
  deriving DecidableEq, Repr

/-- What `publish` stores of a snapshot. -/
structure Details (Snapshot : Type) where
  event : String
  snapshot : Snapshot
  sources : Name → String

/-- A frame as a client receives it; without details its type is `heads`. -/
structure Frame (Row Snapshot : Type) where
  sequence : ℕ
  /-- the snapshot and its `collectionStartedSequence` -/
  details : Option (Details Snapshot × ℕ)
  heads : Name → Option Head
  blocks : Name → Option (List Row)

structure Feed (Row Snapshot : Type) where
  clients : ℕ
  version : ℕ
  frame : Option (Details Snapshot)
  updatedAt : ℤ
  stateVersion : ℕ
  collectionStartedSequence : ℕ
  heads : Name → Option Head
  blocks : Name → Option (List Row)
  sources : Name → String
  active : Bool
  wake : Bool
  stopped : Bool

namespace Feed

variable {Row Snapshot : Type}

/-- `SnapshotFeed.__init__` -/
def init : Feed Row Snapshot where
  clients := 0
  version := 0
  frame := none
  updatedAt := 0
  stateVersion := 0
  collectionStartedSequence := 0
  heads _ := none
  blocks _ := none
  sources _ := "connecting"
  active := false
  wake := false
  stopped := false

/-- `MAX_CLIENTS` -/
def maxClients : ℕ := 16

/-- `source` -/
def source (feed : Feed Row Snapshot) (name : Name) (status : String) : Feed Row Snapshot :=
  if feed.sources name ≠ status then
    { feed with sources := Function.update feed.sources name status, wake := true }
  else feed

/-- `attach`: a client starts at -1 when there is a recent snapshot to send at once. -/
def attach (feed : Feed Row Snapshot) (now refreshSeconds : ℤ) : Feed Row Snapshot × Option ℤ :=
  if feed.clients ≥ maxClients ∨ feed.stopped then (feed, none)
  else
    let recent := feed.frame.isSome && decide (now - feed.updatedAt ≤ refreshSeconds)
    ({ feed with clients := feed.clients + 1, active := true, wake := true },
      some (if recent then -1 else feed.version))

/-- `detach` -/
def detach (feed : Feed Row Snapshot) : Feed Row Snapshot :=
  { feed with
    clients := feed.clients - 1
    active := if feed.clients - 1 = 0 then false else feed.active }

/-- `wait`, once something is new or the time is up. -/
def wait (feed : Feed Row Snapshot) (version : ℤ) : ℤ × Option (Frame Row Snapshot) :=
  if (feed.version : ℤ) = version then (feed.version, none)
  else
    let details := if (feed.stateVersion : ℤ) > version then
        feed.frame.map fun d ↦ (d, feed.collectionStartedSequence)
      else none
    (feed.version, some ⟨feed.version, details, feed.heads, feed.blocks⟩)

/-- The critical section of `hydrate_blocks`. -/
def publishBlocks (feed : Feed Row Snapshot) (name : Name) (rows : List Row) : Feed Row Snapshot :=
  { feed with
    blocks := Function.update feed.blocks name (some rows)
    version := feed.version + 1 }

/-- A quantity a browser represents exactly. -/
def quantity (raw : Option ℤ) : Option ℕ :=
  (raw.filter fun v ↦ decide (0 ≤ v ∧ v ≤ 2 ^ 53 - 1)).map Int.toNat

/-- The block of a header that has all of its fields. -/
def headerBlock (head : Header) : Option Block := do
  let number ← quantity head.number
  let hash ← head.hash
  let timestamp ← quantity head.timestamp
  let gasUsed ← quantity head.gasUsed
  let gasLimit ← quantity head.gasLimit
  some ⟨number, hash, head.parentHash, timestamp, gasUsed, gasLimit⟩

/-- `publish_head`: a malformed header is not published. -/
def publishHead (feed : Feed Row Snapshot) (name : Name) (head : Header) (receivedAt : ℤ) :
    Feed Row Snapshot :=
  match headerBlock head with
  | none => feed
  | some block =>
    if feed.stopped then feed
    else
      { feed with
        version := feed.version + 1
        heads := Function.update feed.heads name (some ⟨block, feed.version + 1, receivedAt⟩) }

/-- `publish` -/
def publish (feed : Feed Row Snapshot) (snapshot : Snapshot) (event : String)
    (startedSequence : Option ℕ) (now : ℤ) : Feed Row Snapshot :=
  { feed with
    collectionStartedSequence := startedSequence.getD feed.version
    version := feed.version + 1
    stateVersion := feed.version + 1
    frame := some ⟨event, snapshot, feed.sources⟩
    updatedAt := now }

/-- `stop` -/
def stop (feed : Feed Row Snapshot) : Feed Row Snapshot :=
  { feed with stopped := true, active := true, wake := true }

end Feed

/-! ## What has been published -/

inductive Publication (Row Snapshot : Type)
  | head (name : Name) (head : Head)
  | window (name : Name) (rows : List Row)
  | snapshot (details : Details Snapshot) (startedSequence : ℕ)

section Newest

variable {Row Snapshot : Type}

/-- The newest head of a chain. -/
def newestHead (name : Name) (log : List (Publication Row Snapshot)) : Option Head :=
  log.reverse.findSome? fun
    | .head n h => if n = name then some h else none
    | _ => none

/-- The newest block window of a chain. -/
def newestWindow (name : Name) (log : List (Publication Row Snapshot)) : Option (List Row) :=
  log.reverse.findSome? fun
    | .window n rows => if n = name then some rows else none
    | _ => none

/-- The newest snapshot, with the sequence at which its collection started. -/
def newestSnapshot (log : List (Publication Row Snapshot)) : Option (Details Snapshot × ℕ) :=
  log.reverse.findSome? fun
    | .snapshot d started => some (d, started)
    | _ => none

end Newest

/-! ## Clients -/

/-- A frame with what had been published when it was received. -/
structure Delivery (Row Snapshot : Type) where
  frame : Frame Row Snapshot
  published : List (Publication Row Snapshot)

/-- A connection of `serve_websocket`: how much had been published when it was attached, what `attach`
returned, and what it has been sent, the latest first. -/
structure Conn (Row Snapshot : Type) where
  attached : ℕ
  start : ℤ
  cursor : ℤ
  received : List (Delivery Row Snapshot)

/-- The feed, its clients and the publications so far. -/
structure System (Row Snapshot : Type) where
  feed : Feed Row Snapshot
  conns : ℕ → Option (Conn Row Snapshot)
  next : ℕ
  log : List (Publication Row Snapshot)

/-- What the threads and the clients do; each is one critical section. -/
inductive Op (Row Snapshot : Type)
  | source (name : Name) (status : String)
  | publishHead (name : Name) (head : Header) (receivedAt : ℤ)
  | publishBlocks (name : Name) (rows : List Row)
  | publish (snapshot : Snapshot) (event : String) (startedSequence : Option ℕ) (now : ℤ)
  | attach (now refreshSeconds : ℤ)
  | wait (client : ℕ)
  | detach (client : ℕ)
  | stop

namespace System

variable {Row Snapshot : Type}

def init : System Row Snapshot := ⟨Feed.init, fun _ ↦ none, 0, []⟩

/-- One operation.  What it publishes is recorded. -/
def step (s : System Row Snapshot) : Op Row Snapshot → System Row Snapshot
  | .source name status => { s with feed := s.feed.source name status }
  | .publishHead name head receivedAt =>
    { s with
      feed := s.feed.publishHead name head receivedAt
      log := s.log ++ if s.feed.stopped then [] else
        ((Feed.headerBlock head).map fun block ↦
          .head name ⟨block, s.feed.version + 1, receivedAt⟩).toList }
  | .publishBlocks name rows =>
    { s with feed := s.feed.publishBlocks name rows, log := s.log ++ [.window name rows] }
  | .publish snapshot event startedSequence now =>
    { s with
      feed := s.feed.publish snapshot event startedSequence now
      log := s.log ++
        [.snapshot ⟨event, snapshot, s.feed.sources⟩ (startedSequence.getD s.feed.version)] }
  | .attach now refreshSeconds =>
    match s.feed.attach now refreshSeconds with
    | (feed, none) => { s with feed := feed }
    | (feed, some start) =>
      { s with
        feed := feed
        conns := Function.update s.conns s.next (some ⟨s.log.length, start, start, []⟩)
        next := s.next + 1 }
  | .wait client =>
    match s.conns client with
    | none => s
    | some conn =>
      let (cursor, frame) := s.feed.wait conn.cursor
      { s with
        conns := Function.update s.conns client (some
          { conn with
            cursor := cursor
            received := (frame.map fun f ↦ ⟨f, s.log⟩).toList ++ conn.received }) }
  | .detach client =>
    match s.conns client with
    | none => s
    | some _ => { s with feed := s.feed.detach, conns := Function.update s.conns client none }
  | .stop => { s with feed := s.feed.stop }

/-- Any interleaving of operations. -/
def run (ops : List (Op Row Snapshot)) : System Row Snapshot := ops.foldl step init

end System

end Monitor
