import Mathlib

/-!
# The decode jobs

`JobStore` of the trace decoder's service.  A client is a lease on an entry; an entry is one decode, shared
by the clients that asked for the same transaction.  `pump` starts queued entries while there is a free
slot, and what it starts is a chain of promises that settles later, in any order.

Entries are objects, and outlive their removal from `entries` when a job still refers to them: `heap` maps
the address of an entry to its fields.  A promise chain is given by the address of its entry and by where
it stands.  Identifiers are counters, as `randomUUID` never repeats one.
-/

set_option autoImplicit false

namespace JobStore

/-- The options of the constructor. -/
structure Config where
  concurrency : ℕ := 2
  maxJobs : ℕ := 16
  maxClients : ℕ := 64
  leaseMs : ℤ := 45000
  cacheMs : ℤ := 30000
  partialCacheMs : ℤ := 5000
  maxResultBytes : ℕ := 8 * 1024 * 1024
  maxCacheBytes : ℕ := 32 * 1024 * 1024

structure ChainIds where
  l1 : String
  l2 : String

structure Request where
  hash : String
  chain : String
  chainIds : ChainIds
  refresh : Bool

def Request.key (request : Request) : String :=
  ":".intercalate [request.hash.toLower, request.chain, request.chainIds.l1, request.chainIds.l2]

inductive State
  | queued
  | running
  | complete
  | failed
  | cancelled
  deriving DecidableEq, Repr

/-- `["queued", "running"].includes(state)` -/
def State.active : State → Bool
  | queued | running => true
  | complete | failed | cancelled => false

/-- What the runner returned. -/
structure Handle where
  cancelled : Bool
  deriving DecidableEq

def Handle.cancel (_ : Handle) : Handle := ⟨true⟩

structure Entry where
  key : String
  request : Request
  state : State
  progress : String
  error : Option String
  errorCode : Option String
  clients : List ℕ
  handle : Option Handle
  json : Option String
  bytes : ℕ
  /-- `none` is `Infinity` -/
  expires : Option ℤ

/-- A queued entry, as `create` makes it. -/
def Entry.new (request : Request) : Entry where
  key := request.key
  request := request
  state := .queued
  progress := "Waiting for a decoder"
  error := none
  errorCode := none
  clients := []
  handle := none
  json := none
  bytes := 0
  expires := none

/-- `entry.expires <= now` -/
def Entry.expired (entry : Entry) (now : ℤ) : Bool :=
  entry.expires.any fun t ↦ decide (t ≤ now)

structure Lease where
  entry : ℕ
  touched : ℤ

/-- Where a promise chain stands: before the runner is called, waiting for its promise, on the way to
`catch`, on the way to `finally`. -/
inductive Phase
  | starting
  | awaiting
  | thrown (code : Option String)
  | settled
  deriving DecidableEq

structure Store where
  heap : ℕ → Entry
  nextEntry : ℕ
  entries : List ℕ
  byKey : String → Option ℕ
  lease : ℕ → Lease
  nextClient : ℕ
  clients : List ℕ
  running : ℕ
  closed : Bool
  /-- the entries whose promise chain is not done -/
  started : List ℕ
  phase : ℕ → Phase

/-- The readings of the clock in one sweep, and the next one after it. -/
structure Clock where
  leases : ℕ → ℤ
  entries : ℕ → ℤ
  now : ℤ

structure Error where
  message : String
  status : ℕ
  deriving DecidableEq, Repr

structure Status where
  id : ℕ
  state : State
  progress : String
  error : Option String
  errorCode : Option String
  deriving DecidableEq, Repr

/-- The result of a runner. -/
structure Result where
  json : String
  isPartial : Bool

def publicError (code : String) : String :=
  match code with
  | "timeout" => "Decoding exceeded the time limit. Retry or inspect a smaller transaction."
  | "pending" => "The transaction is still pending. Retry after it is included in a block."
  | "not-found" => "Transaction not found on the selected network."
  | "network-mismatch" => "The decoder and dashboard are configured for different networks."
  | "rpc-limit" => "This trace exceeded the request limit."
  | "response-limit" => "An upstream response exceeded the size limit."
  | "result-limit" => "This trace is too large to display."
  | "capacity" => "The decoder is busy. Try again shortly."
  | "cancelled" => "Trace request cancelled."
  | _ => "The trace could not be decoded. Check the configured RPC and trace endpoints, then retry."

/-- `error.code || "decode-failed"` -/
def errorCode (code : Option String) : String :=
  (code.filter (· ≠ "")).getD "decode-failed"

namespace Store

/-- An address that no entry has is as good as one that is gone. -/
def init : Store where
  heap _ := { Entry.new ⟨"", "", ⟨"", ""⟩, false⟩ with state := .cancelled }
  nextEntry := 0
  entries := []
  byKey _ := none
  lease _ := ⟨0, 0⟩
  nextClient := 0
  clients := []
  running := 0
  closed := false
  started := []
  phase _ := .settled

/-- Assign to the fields of an entry. -/
def modify (s : Store) (e : ℕ) (f : Entry → Entry) : Store :=
  { s with heap := Function.update s.heap e (f (s.heap e)) }

def setPhase (s : Store) (e : ℕ) (phase : Phase) : Store :=
  { s with phase := Function.update s.phase e phase }

def remove (s : Store) (e : ℕ) : Store :=
  { s with
    entries := s.entries.filter (· ≠ e)
    byKey := if s.byKey (s.heap e).key = some e then
        Function.update s.byKey (s.heap e).key none
      else s.byKey }

/-- The lease is dropped and the entry forgets the client. -/
def dropLease (s : Store) (id : ℕ) : Store :=
  { s with clients := s.clients.filter (· ≠ id) }.modify (s.lease id).entry fun entry ↦
    { entry with clients := entry.clients.filter (· ≠ id) }

/-- An entry that nobody waits for. -/
def cancel (s : Store) (e : ℕ) : Store :=
  (s.modify e fun entry ↦
    { entry with state := .cancelled, handle := entry.handle.map Handle.cancel }).remove e

def release (s : Store) (id : ℕ) : Store :=
  if id ∉ s.clients then s
  else
    let e := (s.lease id).entry
    let s := s.dropLease id
    if (s.heap e).clients = [] ∧ (s.heap e).state.active then s.cancel e else s

/-- No client, and not on its way. -/
def unused (s : Store) (e : ℕ) : Bool :=
  (s.heap e).clients.isEmpty && !(s.heap e).state.active

def sweepLeases (c : Config) (clock : Clock) (s : Store) : Store :=
  s.clients.foldl (fun s id ↦
    if clock.leases id - (s.lease id).touched > c.leaseMs then s.release id else s) s

def sweepEntries (clock : Clock) (s : Store) : Store :=
  s.entries.foldl (fun s e ↦
    if s.unused e && (s.heap e).expired (clock.entries e) then s.remove e else s) s

def sweep (c : Config) (clock : Clock) (s : Store) : Store :=
  (s.sweepLeases c clock).sweepEntries clock

/-- `pump` starts an entry: a slot is taken and a promise chain begins. -/
def start (s : Store) (e : ℕ) : Store :=
  { s.modify e fun entry ↦
      { entry with state := .running, progress := "Reading transaction and network information" } with
    running := s.running + 1
    started := s.started ++ [e]
    phase := Function.update s.phase e .starting }

def pumpLoop (c : Config) : List ℕ → Store → Store
  | [], s => s
  | e :: rest, s =>
    if s.running ≥ c.concurrency then s
    else if (s.heap e).state ≠ .queued ∨ (s.heap e).clients = [] then pumpLoop c rest s
    else pumpLoop c rest (s.start e)

def pump (c : Config) (s : Store) : Store :=
  if s.closed then s else pumpLoop c s.entries s

/-- `client`: the entry of a lease, which is touched. -/
def client (c : Config) (clock : Clock) (s : Store) (id : ℕ) : Store × Except Error ℕ :=
  let s := s.sweep c clock
  if id ∉ s.clients then (s, .error ⟨"Trace request expired. Please retry.", 404⟩)
  else
    ({ s with lease := Function.update s.lease id { s.lease id with touched := clock.now } },
      .ok (s.lease id).entry)

def status (c : Config) (clock : Clock) (s : Store) (id : ℕ) : Store × Except Error Status :=
  let (s, entry) := s.client c clock id
  (s, entry.map fun e ↦
    let entry := s.heap e
    ⟨id, entry.state, entry.progress, entry.error, entry.errorCode⟩)

def result (c : Config) (clock : Clock) (s : Store) (id : ℕ) : Store × Except Error (Option String) :=
  let (s, entry) := s.client c clock id
  (s, entry.bind fun e ↦
    if (s.heap e).state ≠ .complete then .error ⟨"The trace is not ready.", 409⟩
    else .ok (s.heap e).json)

/-- The entry under the request's key, unless it is over and may not be served again. -/
def lookup (s : Store) (request : Request) (now : ℤ) : Option ℕ :=
  (s.byKey request.key).filter fun e ↦
    let entry := s.heap e
    entry.state.active || !(request.refresh || entry.state = .failed || entry.expired now)

/-- Unused entries make room for a new one. -/
def evictLoop (c : Config) : List ℕ → Store → Store
  | [], s => s
  | e :: rest, s =>
    let s := if s.unused e then s.remove e else s
    if s.entries.length < c.maxJobs then s else evictLoop c rest s

def evict (c : Config) (s : Store) : Store :=
  if s.entries.length ≥ c.maxJobs then evictLoop c s.entries s else s

def insert (s : Store) (request : Request) : Store :=
  { s with
    heap := Function.update s.heap s.nextEntry (Entry.new request)
    entries := s.entries ++ [s.nextEntry]
    byKey := Function.update s.byKey request.key (some s.nextEntry)
    nextEntry := s.nextEntry + 1 }

/-- A new lease on an entry. -/
def attach (s : Store) (e : ℕ) (now : ℤ) : Store :=
  { s.modify e fun entry ↦ { entry with clients := entry.clients ++ [s.nextClient] } with
    clients := s.clients ++ [s.nextClient]
    lease := Function.update s.lease s.nextClient ⟨e, now⟩
    nextClient := s.nextClient + 1 }

/-- `create`: `cached` is the reading a cached entry's expiry is compared with, and `clock'` belongs to the
final `status`. -/
def create (c : Config) (clock : Clock) (cached : ℤ) (clock' : Clock) (s : Store) (request : Request) :
    Store × Except Error Status :=
  let s := s.sweep c clock
  if s.closed ∨ s.clients.length ≥ c.maxClients then
    (s, .error ⟨"Decoder is busy. Try again shortly.", 429⟩)
  else
    match s.lookup request cached with
    | some e => ((s.attach e clock.now).pump c).status c clock' s.nextClient
    | none =>
      let s := s.evict c
      if s.entries.length ≥ c.maxJobs then
        (s, .error ⟨"Decoder queue is full. Try again shortly.", 429⟩)
      else (((s.insert request).attach s.nextEntry clock.now).pump c).status c clock' s.nextClient

def close (s : Store) : Store :=
  { s.clients.foldl release { s with closed := true } with entries := [], byKey := fun _ ↦ none }

/-! ### The promise chain of a started entry -/

/-- The first callback: `this.run` throws, or returns a handle.  An entry that is not running any more goes
on with no result. -/
def launch (s : Store) (e : ℕ) (returns : Except (Option String) Unit) : Store :=
  if (s.heap e).state ≠ .running then s.setPhase e .settled
  else
    match returns with
    | .error code => s.setPhase e (.thrown code)
    | .ok _ => (s.modify e fun entry ↦ { entry with handle := some ⟨false⟩ }).setPhase e .awaiting

/-- What the runner reports meanwhile. -/
def progress (s : Store) (e : ℕ) (message : String) : Store :=
  if (s.heap e).state = .running then
    s.modify e fun entry ↦ { entry with progress := String.ofList (message.toList.take 200) }
  else s

/-- The bytes of all entries. -/
def used (s : Store) : ℕ := (s.entries.map fun e ↦ (s.heap e).bytes).sum

/-- Cached results that nobody holds make room for `bytes` more. -/
def makeRoom (c : Config) (e bytes : ℕ) : List ℕ → Store → ℤ → Store × ℤ
  | [], s, used => (s, used)
  | cached :: rest, s, used =>
    if used + bytes ≤ c.maxCacheBytes then (s, used)
    else if cached ≠ e ∧ (s.heap cached).clients = [] ∧ (s.heap cached).state = .complete then
      makeRoom c e bytes rest (s.remove cached) (used - (s.heap cached).bytes)
    else makeRoom c e bytes rest s used

/-- The second callback, with a result. -/
def deliver (c : Config) (s : Store) (e : ℕ) (result : Result) (now : ℤ) : Store :=
  if (s.heap e).state ≠ .running then s.setPhase e .settled
  else
    let bytes := result.json.utf8ByteSize
    if bytes > c.maxResultBytes then s.setPhase e (.thrown (some "result-limit"))
    else
      let (s, used) := makeRoom c e bytes s.entries s s.used
      if used + bytes > c.maxCacheBytes then s.setPhase e (.thrown (some "capacity"))
      else
        (s.modify e fun entry ↦
          { entry with
            json := some result.json
            bytes := bytes
            state := .complete
            progress := if result.isPartial then
                "Available trace data decoded; some evidence is missing"
              else "Trace decoded"
            expires := some (now + if result.isPartial then c.partialCacheMs else c.cacheMs) }).setPhase
          e .settled

/-- `catch` -/
def fail (c : Config) (s : Store) (e : ℕ) (code : Option String) (now : ℤ) : Store :=
  (if (s.heap e).state ≠ .running then s
  else
    s.modify e fun entry ↦
      { entry with
        state := .failed
        errorCode := some (errorCode code)
        error := some (publicError (errorCode code))
        expires := some (now + c.partialCacheMs) }).setPhase e .settled

/-- `finally` -/
def finish (c : Config) (s : Store) (e : ℕ) : Store :=
  { s with running := s.running - 1, started := s.started.filter (· ≠ e) }.pump c

end Store

/-! ## Runs -/

/-- The calls, and the callbacks of the promise chains. -/
inductive Op
  | create (request : Request) (clock : Clock) (cached : ℤ) (clock' : Clock)
  | status (id : ℕ) (clock : Clock)
  | result (id : ℕ) (clock : Clock)
  | release (id : ℕ)
  | sweep (clock : Clock)
  | close
  | launch (e : ℕ) (returns : Except (Option String) Unit)
  | progress (e : ℕ) (message : String)
  | deliver (e : ℕ) (result : Result) (now : ℤ)
  | reject (e : ℕ) (code : Option String)
  | fail (e : ℕ) (now : ℤ)
  | finish (e : ℕ)

/-- One call, or one callback whose turn it is. -/
def Store.step (c : Config) (s : Store) : Op → Store
  | .create request clock cached clock' => (s.create c clock cached clock' request).1
  | .status id clock => (s.status c clock id).1
  | .result id clock => (s.result c clock id).1
  | .release id => s.release id
  | .sweep clock => s.sweep c clock
  | .close => s.close
  | .launch e returns => if e ∈ s.started ∧ s.phase e = .starting then s.launch e returns else s
  | .progress e message => s.progress e message
  | .deliver e result now =>
    if e ∈ s.started ∧ s.phase e = .awaiting then s.deliver c e result now else s
  | .reject e code =>
    if e ∈ s.started ∧ s.phase e = .awaiting then s.setPhase e (.thrown code) else s
  | .fail e now =>
    match s.phase e with
    | .thrown code => if e ∈ s.started then s.fail c e code now else s
    | _ => s
  | .finish e => if e ∈ s.started ∧ s.phase e = .settled then s.finish c e else s

/-- Any order of calls and callbacks. -/
def Store.run (c : Config) (ops : List Op) : Store := ops.foldl (Store.step c) Store.init

end JobStore
