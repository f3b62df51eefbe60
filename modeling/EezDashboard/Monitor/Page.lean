import EezDashboard.Monitor.Dashboard

/-!
# A page and the server it talks to

The feed, the thread that collects snapshots for it, the cache that this thread shares with the HTTP
requests, and one page with its socket and its request.  `get` holds the lock of the cache while it
collects, so collections do not overlap; heads are published meanwhile.

Each collection is kept with the version of the feed at which it started, which nothing reads: it says
which heads a snapshot is younger than.
-/

set_option autoImplicit false

namespace Monitor

/-- What `_chain` reads. -/
structure ChainReading where
  latest : BlockRow
  safe : Option BlockRow
  finalized : Option BlockRow
  blocks : List BlockRow
  deriving DecidableEq, Repr

/-- What a collection reads; a component that raises reads nothing. -/
structure Collection where
  /-- the version of the feed when it started -/
  start : ℕ
  recentBlockWindows : Name → Option ℕ
  recentBlockWindow : Option ℕ
  chains : Name → Option ChainReading
  /-- whether there is a settlement history -/
  history : Option Bool

/-- The part of a chain in `collect`. -/
def ChainView.ofReading : Option ChainReading → ChainView
  | some reading => ⟨true, some reading.latest, reading.safe, reading.finalized, reading.blocks⟩
  | none => .empty

/-- `collect` -/
def Collection.collect (collection : Collection) : Snapshot where
  stale := false
  recentBlockWindows := collection.recentBlockWindows
  recentBlockWindow := collection.recentBlockWindow
  failed name := (collection.chains name).isNone
  historyFailed := collection.history.isNone
  historyAvailable := collection.history.getD false
  chains name := .ofReading (collection.chains name)
  reconciliation _ := none

/-- A value of the cache: a collection, or the last one after a collection that failed. -/
structure CachedSnapshot where
  collection : Collection
  stale : Bool

/-- `{**previous, "stale": True}`, of a stale one -/
def CachedSnapshot.snapshot (served : CachedSnapshot) : Snapshot :=
  { served.collection.collect with stale := served.stale }

/-- A frame as it is read by a page. -/
def Frame.read (frame : Frame BlockRow (Option CachedSnapshot)) : Frame BlockRow (Option Snapshot) :=
  { frame with
    details := frame.details.map fun (details, startedSequence) ↦
      (⟨details.event, details.snapshot.map CachedSnapshot.snapshot, details.sources⟩, startedSequence) }

/-- Who calls `get`: the thread of the feed, the page's request, or somebody else's. -/
inductive Caller
  | worker
  | page
  | other
  deriving DecidableEq, Repr

/-- `SnapshotCache`; `holder` has the lock, with the version at which its collection started. -/
structure Cache where
  value : Option CachedSnapshot
  holder : Option (Caller × ℕ)

/-- Where the thread of `run` stands: it has read the version and calls `get`, or is about to publish. -/
inductive Worker
  | idle
  | started (sequence : ℕ)
  | publishing (sequence : ℕ) (result : Option CachedSnapshot)

/-- The server's side of a page's socket, with the frames under way. -/
structure Link where
  cursor : ℤ
  sent : List (Frame BlockRow (Option CachedSnapshot))

/-- The server and the page.  `answer` is the answer to the page's request, once there is one;
`collections` are the collections so far. -/
structure World where
  feed : Feed BlockRow (Option CachedSnapshot)
  cache : Cache
  worker : Worker
  page : Dashboard
  link : Option Link
  answer : Option (Option CachedSnapshot)
  collections : List Collection

/-- What happens next. -/
inductive Act
  | source (name : Name) (status : String)
  | publishHead (name : Name) (head : Header) (receivedAt : ℤ)
  | publishBlocks (name : Name) (rows : List BlockRow)
  /-- another viewer comes or goes -/
  | attach (now refreshSeconds : ℤ)
  | detach
  | stopFeed
  /-- the thread of the feed goes on to collect a snapshot -/
  | start
  /-- a call of `get` takes the lock; `expired` says whether the cached value is too old -/
  | enter (caller : Caller) (expired : Bool)
  /-- the collection under way ends; it raises, if there is no result -/
  | collected (result : Option Collection)
  | publish (now : ℤ)
  /-- `connectLive` is called -/
  | connect
  | accept (now refreshSeconds : ℤ)
  /-- the server has something for the page, or its time is up -/
  | send
  /-- the next frame arrives -/
  | receive
  /-- the socket is closed, or could not be opened -/
  | close
  /-- the timer calls `refresh` -/
  | tick
  /-- the answer to the request arrives -/
  | respond
  /-- the request fails or takes too long -/
  | abort
  | hide
  | unhide

namespace World

def init : World := ⟨.init, ⟨none, none⟩, .idle, .init, none, none, []⟩

variable (w : World)

/-- The result of `get` goes to its caller. -/
def deliver (caller : Caller) (result : Option CachedSnapshot) : World :=
  match caller, w.worker with
  | .worker, .started sequence => { w with worker := .publishing sequence result }
  | .page, _ => { w with answer := some result }
  | _, _ => w

/-- Whether a caller is about to call `get`. -/
def isCalling : Caller → Bool
  | .worker => match w.worker with
    | .started _ => true
    | _ => false
  | .page => w.page.loading.isSome && w.answer.isNone
  | .other => true

/-- `get`, up to the collection; the thread of the feed forces one. -/
def enter (caller : Caller) (expired : Bool) : World :=
  if w.cache.holder.isSome ∨ w.isCalling caller = false then w
  else if caller = .worker ∨ w.cache.value.isNone ∨ expired then
    { w with cache := { w.cache with holder := some (caller, w.feed.version) } }
  else w.deliver caller w.cache.value

/-- The rest of `get`. -/
def collected (result : Option Collection) : World :=
  match w.cache.holder with
  | none => w
  | some (caller, start) =>
    match result with
    | some collection =>
      let collection := { collection with start := start }
      let value : Option CachedSnapshot := some ⟨collection, false⟩
      { w with cache := ⟨value, none⟩, collections := collection :: w.collections }.deliver caller value
    | none =>
      let value := w.cache.value.map fun served ↦ { served with stale := true }
      { w with cache := ⟨value, none⟩ }.deliver caller value

/-- The publication in `run`. -/
def publish (now : ℤ) : World :=
  match w.worker with
  | .publishing sequence (some served) =>
    { w with worker := .idle, feed := w.feed.publish (some served) "snapshot" (some sequence) now }
  | .publishing sequence none =>
    { w with worker := .idle, feed := w.feed.publish none "unavailable" (some sequence) now }
  | _ => w

/-- `connectLive`: a new connection starts without heads and marks. -/
def connect : World :=
  if w.page.stopped ∨ w.page.socket.isSome then w
  else
    { w with
      page := { w.page with
        socket := some ⟨false, []⟩
        heads := fun _ ↦ none
        headHistory := fun _ ↦ []
        pendingChains := fun _ ↦ none } }

/-- The server accepts the socket. -/
def accept (now refreshSeconds : ℤ) : World :=
  if w.page.socket.isNone ∨ w.link.isSome then w
  else
    match w.feed.attach now refreshSeconds with
    | (feed, some cursor) => { w with feed := feed, link := some ⟨cursor, []⟩ }
    | (feed, none) => { w with feed := feed }

/-- One round of `serve_websocket`. -/
def send : World :=
  match w.link with
  | none => w
  | some link =>
    let (cursor, frame) := w.feed.wait link.cursor
    { w with link := some ⟨cursor, link.sent ++ frame.toList⟩ }

/-- The request a page makes is new to the server. -/
def withPage (page : Dashboard) : World :=
  { w with page := page, answer := if w.page.loading.isSome then w.answer else none }

/-- `onmessage`; a page that has closed its socket gets no more frames. -/
def receive : World :=
  match w.link, w.page.socket with
  | some ⟨cursor, frame :: sent⟩, some socket =>
    if socket.closing ∨ w.page.stopped then w
    else
      let w := { w with link := some ⟨cursor, sent⟩ }
      match w.page.handle frame.read with
      | (page, true) =>
        w.withPage { page with socket := some { socket with received := socket.received ++ [frame.read] } }
      | (page, false) => w.withPage { page with socket := some { socket with closing := true } }
  | _, _ => w

/-- The server notices that a page is gone. -/
def unlink : World :=
  match w.link with
  | some _ => { w with feed := w.feed.detach, link := none }
  | none => w

/-- `onclose`, and `reconnectLive` up to its timer -/
def close : World :=
  match w.page.socket with
  | none => w
  | some _ =>
    let page := { w.page with socket := none }
    w.unlink.withPage (if page.stopped then page else page.startPolling.refresh)

/-- The end of a request; the server may still be collecting for it. -/
def finish (snapshot : Option Snapshot) : World :=
  { w with
    page := w.page.finishRefresh snapshot
    answer := none
    cache := { w.cache with
      holder := w.cache.holder.map fun (caller, start) ↦ (if caller = .page then .other else caller, start) } }

/-- `stop`, of a page -/
def hide : World :=
  w.unlink.withPage { w.page with stopped := true, polling := false, socket := none }

def step : Act → World
  | .source name status => { w with feed := w.feed.source name status }
  | .publishHead name head receivedAt => { w with feed := w.feed.publishHead name head receivedAt }
  | .publishBlocks name rows => { w with feed := w.feed.publishBlocks name rows }
  | .attach now refreshSeconds => { w with feed := (w.feed.attach now refreshSeconds).1 }
  | .detach => { w with feed := w.feed.detach }
  | .stopFeed => { w with feed := w.feed.stop }
  | .start => match w.worker with
    | .idle => { w with worker := .started w.feed.version }
    | _ => w
  | .enter caller expired => w.enter caller expired
  | .collected result => w.collected result
  | .publish now => w.publish now
  | .connect => w.connect
  | .accept now refreshSeconds => w.accept now refreshSeconds
  | .send => w.send
  | .receive => w.receive
  | .close => w.close
  | .tick => if w.page.polling then w.withPage w.page.refresh else w
  | .respond => match w.answer with
    | some answer => w.finish (answer.map CachedSnapshot.snapshot)
    | none => w
  | .abort => w.finish none
  | .hide => w.hide
  | .unhide => { w with page := { w.page with stopped := false } }.connect

/-- Any interleaving. -/
def run (acts : List Act) : World := acts.foldl step init

end World

end Monitor
