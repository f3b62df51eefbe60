import EezDashboard.Codec.Except
import EezDashboard.Remote.Pool

/-!
# Batched requests

`rpc.batch` posts its parameter sets in batches of a hundred, and puts the replies back into order by their ids.
A server that refuses batches is asked one by one, by up to eight workers, and is remembered.  The ids are those
of all calls of one client, so that other calls take some of them at any time.
-/

set_option autoImplicit false

namespace Rpc

/-! ## Replies -/

/-- What is read of an error object: its code, if that is an integer, and whether its message is a text. -/
structure ErrorBody where
  code : Option ℤ
  message : Option String
  deriving DecidableEq, Repr

/-- What is read of a reply; an id that is not a number is none. -/
structure Reply (R : Type) where
  jsonrpc : Bool
  id : Option ℕ
  error : Option ErrorBody
  result : Option R
  deriving DecidableEq, Repr

inductive Body (R : Type)
  | array (replies : List (Reply R))
  | object (reply : Reply R)

/-- What comes of a post: a body, or an error that has a code or not. -/
inductive Response (R : Type)
  | body (body : Body R)
  | failed (code : Option ℤ)

/-- An error that is thrown. -/
structure Failure where
  code : Option ℤ
  message : String
  deriving DecidableEq, Repr

variable {P R : Type}

/-- `result(body, method)` -/
def result (reply : Reply R) : Except Failure R :=
  match reply.error with
  | some error =>
    match error.code, error.message with
    | some code, some message => throw ⟨some code, message⟩
    | _, _ => throw ⟨none, "malformed JSON-RPC error"⟩
  | none =>
    match reply.result with
    | some r => pure r
    | none => throw ⟨none, "missing JSON-RPC result"⟩

/-- What `rpc` makes of the response to its request; an array has no result. -/
def rpc (response : Response R) : Except Failure R :=
  match response with
  | .failed code => throw ⟨code, "transport"⟩
  | .body (.array _) => throw ⟨none, "missing JSON-RPC result"⟩
  | .body (.object reply) => result reply

structure Request (P : Type) where
  id : ℕ
  params : P
  deriving DecidableEq, Repr

/-- The loop over the replies of a batch; `replies` maps the ids to results. -/
def collect (expected : List ℕ) (replies : List (ℕ × R)) : List (Reply R) → Except Failure (List (ℕ × R))
  | [] => pure replies
  | reply :: rest =>
    match reply.id with
    | some id =>
      if reply.jsonrpc ∧ id ∈ expected ∧ id ∉ replies.map Prod.fst then do
        let r ← result reply
        collect expected (replies ++ [(id, r)]) rest
      else throw ⟨none, "invalid JSON-RPC batch IDs"⟩
    | none => throw ⟨none, "invalid JSON-RPC batch IDs"⟩

/-- The results of a batch, in the order of its requests. -/
def receive (requests : List (Request P)) (replies : List (Reply R)) : Except Failure (List (Option R)) :=
  if replies.length = requests.length then do
    let replies ← collect (requests.map Request.id) [] replies
    pure (requests.map fun r ↦ replies.lookup r.id)
  else throw ⟨none, "incomplete JSON-RPC batch"⟩

inductive Received (R : Type)
  | results (results : List (Option R))
  | refused
  | thrown (e : Failure)

/-- A server that refuses batches is told by the code of its error. -/
def caught (e : Failure) : Received R := if e.code = some (-32600) then .refused else .thrown e

/-- What comes of a batch that was posted. -/
def answered (requests : List (Request P)) (response : Response R) : Received R :=
  match response with
  | .failed code => caught ⟨code, "transport"⟩
  | .body (.object reply) =>
    match reply.error, result reply with
    | some _, .error e => caught e
    | _, _ => .thrown ⟨none, "incomplete JSON-RPC batch"⟩
  | .body (.array replies) =>
    match receive requests replies with
    | .ok results => .results results
    | .error e => .thrown e

/-! ## The call -/

/-- Where a call of `rpc.batch` waits. -/
inductive Phase (P R : Type)
  | loop
  | posted (requests : List (Request P))
  /-- `mapConcurrent`; `ids` has the ids of the requests, by index. -/
  | mapping (pool : Pool R) (ids : ℕ → ℕ)
  | returned
  | thrown (e : Failure)

/-- A post that was answered. -/
inductive Exchange (P R : Type)
  | batch (requests : List (Request P)) (response : Response R)
  | call (request : Request P) (response : Response R)

/-- A call of `rpc.batch`, with what it shares with other calls; `log` is what has been answered to it. -/
structure Call (P R : Type) where
  id : ℕ
  noBatch : Bool
  start : ℕ
  results : List (Option R)
  phase : Phase P R
  log : List (Exchange P R)

def chunkOf (params : List P) (start : ℕ) : List P := (params.drop start).take 100

/-- `chunk.map(p => ({ id: ++id, params: p }))` -/
def requestsOf (id : ℕ) (chunk : List P) : List (Request P) := chunk.zipIdx.map fun (p, i) ↦ ⟨id + 1 + i, p⟩

/-- The workers of `mapConcurrent` take their first items, each with an id. -/
def Call.map (s : Call P R) (chunk : List P) : Call P R :=
  let pool := Pool.start 8 chunk.length
  { s with id := s.id + pool.next, phase := .mapping pool fun i ↦ s.id + 1 + i }

/-- Go on after a chunk. -/
def Call.push (s : Call P R) (results : List (Option R)) : Call P R :=
  { s with start := s.start + 100, results := s.results ++ results, phase := .loop }

/-- The head of the loop over the chunks. -/
def Call.advance (params : List P) (s : Call P R) : Call P R :=
  if s.start < params.length then
    let chunk := chunkOf params s.start
    if s.noBatch then s.map chunk
    else { s with id := s.id + chunk.length, phase := .posted (requestsOf s.id chunk) }
  else { s with phase := .returned }

/-- The batch that was posted is answered. -/
def Call.answer (params : List P) (s : Call P R) (requests : List (Request P)) (response : Response R) : Call P R :=
  let s := { s with log := s.log ++ [Exchange.batch requests response] }
  match answered requests response with
  | .results results => s.push results
  | .refused => { s with noBatch := true }.map (chunkOf params s.start)
  | .thrown e => { s with phase := .thrown e }

/-- The worker `w` gets the response to its request for the item `i`. -/
def Call.settle (s : Call P R) (pool : Pool R) (ids : ℕ → ℕ) (w i : ℕ) (p : P) (response : Response R) : Call P R :=
  let s := { s with log := s.log ++ [Exchange.call ⟨ids i, p⟩ response] }
  match rpc response with
  | .error e => { s with phase := .thrown e }
  | .ok r =>
    let pool' := pool.settle w i r
    if pool'.Done then s.push pool'.results
    else if pool.next < pool.count then
      { s with id := s.id + 1, phase := .mapping pool' (Function.update ids pool.next (s.id + 1)) }
    else { s with phase := .mapping pool' ids }

/-- A step of the call. -/
inductive Step (params : List P) : Call P R → Call P R → Prop
  | advance (s : Call P R) (hphase : s.phase = .loop) : Step params s (s.advance params)
  | answer (s : Call P R) (requests : List (Request P)) (hphase : s.phase = .posted requests)
      (response : Response R) : Step params s (s.answer params requests response)
  | settle (s : Call P R) (pool : Pool R) (ids : ℕ → ℕ) (hphase : s.phase = .mapping pool ids) (w i : ℕ) (p : P)
      (hw : pool.workers[w]? = some (some i)) (hp : (chunkOf params s.start)[i]? = some p) (response : Response R) :
      Step params s (s.settle pool ids w i p response)

/-- A call that begins, when others have taken `id` ids. -/
def Call.begin (id : ℕ) (noBatch : Bool) : Call P R := ⟨id, noBatch, 0, [], .loop, []⟩

/-- A run of the call, of `n` steps of its own.  In between others take ids, and find out that the server refuses
batches. -/
inductive Run (params : List P) (s₀ : Call P R) : ℕ → Call P R → Prop
  | nil : Run params s₀ 0 s₀
  | step {n : ℕ} {s s' : Call P R} (h : Run params s₀ n s) (hstep : Step params s s') : Run params s₀ (n + 1) s'
  | others {n : ℕ} {s : Call P R} (h : Run params s₀ n s) (id : ℕ) (noBatch : Bool) (hid : s.id ≤ id)
      (hnoBatch : s.noBatch → noBatch) : Run params s₀ n { s with id, noBatch }

end Rpc
