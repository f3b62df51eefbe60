import EezDashboard.Finite.Keyed
import EezDashboard.Js.Hex
import Mathlib.Data.List.Sort

/-!
# The verification queue

`VerificationWorker` keeps a bounded number of jobs, each an object that its map has and a file in its directory.
A request is enqueued at once, also while a tick awaits the network for its job, which it changes and saves in the
meantime.  Objects are numbered, as the map and a tick may have the same one.
-/

set_option autoImplicit false

namespace Verification

open Js

/-! ## Jobs -/

structure Request where
  build : String
  chainId : ℤ
  transactionHash : String
  deriving DecidableEq, Repr, Inhabited

inductive Status
  | queued
  | retrying
  | pending
  | verified
  | reverted
  | notApplicable
  | sourceUnavailable
  | sourcifyVerified
  deriving DecidableEq, Repr, Inhabited

/-- A job; `X` is what it has of a contract. -/
structure Job (X : Type) where
  id : String
  request : Request
  status : Status
  attempts : ℕ
  nextAttempt : ℕ
  updatedAt : Option ℕ
  contracts : List X
  blockHash : Option String
  blockNumber : Option String
  error : Option String
  deriving Inhabited

/-- Completed results are a bounded cache, not unfinished work. -/
def Status.Completed (status : Status) : Prop := status = .verified ∨ status = .reverted ∨ status = .notApplicable

instance (status : Status) : Decidable status.Completed := inferInstanceAs (Decidable (_ ∨ _ ∨ _))

/-- What the worker is made with; `hash` is the SHA-256 of a request. -/
structure Worker where
  builds : String → Bool
  networks : ℤ → Bool
  hash : Request → String
  capacity : ℕ
  pos : 0 < capacity

/-- `/^[\da-f]{64}$/` -/
def buildId (text : String) : Bool :=
  text.length = 64 && text.toList.all fun c ↦ c.isDigit || ('a' ≤ c && c ≤ 'f')

/-- `validate(r)`, if it does not throw -/
def Worker.validate (w : Worker) (r : Request) : Bool :=
  buildId r.build && hexOfLength 64 r.transactionHash &&
    decide (0 < r.chainId ∧ r.chainId ≤ 9007199254740991) && w.builds r.build && w.networks r.chainId

/-! ## The state -/

/-- The worker and its directory.  `jobs` has the number of the object of each id, `files` what was saved under it;
`ticks` are the numbers of the objects that ticks work on. -/
structure State (X : Type) where
  objects : ℕ → Job X
  next : ℕ
  jobs : List (String × ℕ)
  files : List (String × Job X)
  active : Bool
  processing : Option String
  ticks : List ℕ

variable {X : Type}

/-- The worker that is made in a directory, each of whose files has the id of its job as its name. -/
def start (files : List (String × Job X)) : State X where
  objects i := (files.map Prod.snd).getD i default
  next := files.length
  jobs := files.zipIdx.map fun (file, i) ↦ (file.2.id, i)
  files := files
  active := false
  processing := none
  ticks := []

namespace State

variable (s : State X)

/-- The object is changed. -/
def modify (ref : ℕ) (f : Job X → Job X) : State X :=
  { s with objects := Function.update s.objects ref (f (s.objects ref)) }

/-- A file is written beside and renamed, so that it is put as a whole. -/
def save (ref now : ℕ) : State X :=
  let s := s.modify ref fun job ↦ { job with updatedAt := some now }
  let job := s.objects ref
  { s with files := Keyed.put Prod.fst s.files (job.id, job), jobs := Keyed.put Prod.fst s.jobs (job.id, ref) }

/-- The time of the last update, or 0. -/
def updated (ref : ℕ) : ℕ := (s.objects ref).updatedAt.getD 0

/-- What may be evicted. -/
def Evictable (ref : ℕ) : Prop :=
  some (s.objects ref).id ≠ s.processing ∧ (s.objects ref).status.Completed

instance (ref : ℕ) : Decidable (s.Evictable ref) := inferInstanceAs (Decidable (_ ∧ _))

/-- The completed jobs, the oldest update first. -/
def completed : List ℕ :=
  ((s.jobs.map Prod.snd).filter fun ref ↦ s.Evictable ref).mergeSort fun a b ↦ s.updated a ≤ s.updated b

def remove (id : String) : State X :=
  { s with files := Keyed.others Prod.fst id s.files, jobs := Keyed.others Prod.fst id s.jobs }

/-- The loop that makes room; it ends when the completed jobs do. -/
def evict (capacity : ℕ) (s : State X) : List ℕ → State X
  | [] => s
  | old :: rest => if capacity ≤ s.jobs.length then evict capacity (s.remove (s.objects old).id) rest else s

/-- A new object. -/
def create (id : String) (r : Request) : State X :=
  { s with
    objects := Function.update s.objects s.next ⟨id, r, .queued, 0, 0, none, [], none, none, none⟩
    next := s.next + 1 }

end State

/-! ## Steps -/

namespace Worker

variable (w : Worker) (s : State X)

/-- The request of a job. -/
def normal (request : Request) : Request := { request with transactionHash := lowerCase request.transactionHash }

/-- The id of the job for a request. -/
def idOf (request : Request) : String := w.hash (normal request)

def enqueue (request : Request) (now : ℕ) : Except String ℕ × State X :=
  if w.validate request then
    let r := normal request
    let id := w.hash r
    match Keyed.find Prod.fst id s.jobs with
    | some (_, ref) => (.ok ref, s)
    | none =>
      let s := s.evict w.capacity s.completed
      if w.capacity ≤ s.jobs.length then (.error "Verification queue is full", s)
      else (.ok s.next, (s.create id r).save s.next now)
  else (.error "Unknown build, network or transaction", s)

/-- The jobs that are due, the earliest first; each is looked at at a time of its own. -/
def due (now : ℕ → ℕ) : List ℕ :=
  ((s.jobs.map Prod.snd).filter fun ref ↦ (s.objects ref).nextAttempt ≤ now ref &&
    w.builds (s.objects ref).request.build && w.networks (s.objects ref).request.chainId).mergeSort
    fun a b ↦ (s.objects a).nextAttempt ≤ (s.objects b).nextAttempt

/-- A call of `tick`, until it awaits the network for its job. -/
def tick (now : ℕ → ℕ) : State X :=
  if s.active then s
  else
    match (due w s now).head? with
    | none => { s with active := false, processing := none }
    | some ref =>
      let s := { s with active := true, processing := some (s.objects ref).id, ticks := s.ticks ++ [ref] }
      s.modify ref fun job ↦ { job with attempts := job.attempts + 1 }

/-- How long a job rests. -/
def rest (job : Job X) : ℕ :=
  if job.status.Completed ∨ job.status = .sourceUnavailable then 24 * 60 * 60000
  else min (60 * 60000) (15000 * 2 ^ min (job.attempts - 1) 8)

/-- The job is retried when `process` has thrown. -/
def caught (ref : ℕ) (failed : Option String) : State X :=
  match failed with
  | some message => s.modify ref fun job ↦ { job with status := .retrying, error := some message }
  | none => s

/-- The end of a tick, when `process` has returned or thrown. -/
def finish (ref : ℕ) (failed : Option String) (now saved : ℕ) : State X :=
  let s := caught s ref failed
  let s := s.modify ref fun job ↦ { job with nextAttempt := now + rest job }
  let s := s.save ref saved
  { s with processing := none, active := false, ticks := s.ticks.erase ref }

end Worker

/-- A step of the worker.  Between two awaits `process` changes its job, and it may save it. -/
inductive Step (w : Worker) (s : State X) : State X → Prop
  | enqueue (request : Request) (now : ℕ) : Step w s (w.enqueue s request now).2
  | tick (now : ℕ → ℕ) : Step w s (w.tick s now)
  | change (ref : ℕ) (href : ref ∈ s.ticks) (status : Status) (contracts : List X)
      (blockHash blockNumber error : Option String) :
      Step w s (s.modify ref fun job ↦ { job with status, contracts, blockHash, blockNumber, error })
  | save (ref : ℕ) (href : ref ∈ s.ticks) (now : ℕ) : Step w s (s.save ref now)
  | finish (ref : ℕ) (href : ref ∈ s.ticks) (failed : Option String) (now saved : ℕ) :
      Step w s (Worker.finish s ref failed now saved)

/-- Steps, one after the other. -/
inductive Run (w : Worker) (s₀ : State X) : State X → Prop
  | nil : Run w s₀ s₀
  | step {s s' : State X} (h : Run w s₀ s) (hstep : Step w s s') : Run w s₀ s'

end Verification
