import EezDashboard.Contract.Execution
import EezDashboard.Contract.Abi

/-!
# The bootstrap executor

`TreasuryBootstrap`, the wallet-owned executor a test treasury is created and finished with: the
constructor, which carries the first batch, and `execute`, which carries the others.  The accounts
the actions create and call appear only as calls whose answers nothing is assumed of.

While the constructor runs the account has no code yet, so a call into it runs nothing: `deploy` is
run among accounts that leave the storage alone, and only `bootstrap`, the code it leaves behind, can
be entered.
-/

set_option autoImplicit false

namespace Bootstrap

open Contract Prog

/-! ## Storage, events, errors and calls -/

/-- `TreasuryBootstrap.Action` -/
structure Action where
  create : Bool
  target : Address
  data : List UInt8
  returnHash : Word
  deriving DecidableEq, Repr

inductive Event
  | created (index : ℕ) (target : Address) (initHash : Word)
  | executed (sequence : ℕ) (actionsHash : Word) (closed : Bool)
  deriving DecidableEq, Repr

/-- What was seen of one action: the account a creation answered with the size of its code, or the
data a call returned. -/
inductive Outcome
  | created (account : Address) (size : ℕ)
  | returned (result : List UInt8)
  deriving DecidableEq, Repr

/-- One action with what was seen of it. -/
structure Step where
  action : Action
  outcome : Outcome
  deriving DecidableEq, Repr

/-- A batch that came to its end. -/
structure Batch where
  sequence : ℕ
  steps : List Step
  finish : Bool
  deriving DecidableEq, Repr

/-- The storage with the events emitted; the immutable `owner` is kept with it.  `steps` and `batches`
are no variables of the contract: they keep what was seen of the batch under way and of those that
came to their end, and a revert takes them back with the rest. -/
structure Storage where
  owner : Address
  sequence : ℕ
  closed : Bool
  executing : Bool
  log : List Event
  steps : List Step
  batches : List Batch
  deriving DecidableEq, Repr

/-- The storage the constructor starts with. -/
def Storage.initial : Storage := ⟨0, 0, false, false, [], [], []⟩

inductive BootstrapError
  | unauthorized
  | invalidSequence
  | unavailable
  | invalidAction (index : ℕ)
  | failedAction (index : ℕ) (reason : List UInt8)
  deriving DecidableEq, Repr

/-- What a batch asks of other accounts: a `create`, the size of an account's code, a low-level
`call`. -/
inductive External
  | create (initcode : List UInt8)
  | codeSize (account : Address)
  | call (target : Address) (data : List UInt8)
  deriving DecidableEq, Repr

def External.view : External → Bool
  | .codeSize _ => true
  | .create _ | .call .. => false

/-- The answer of a low-level call: whether it succeeded, then its returndata, one byte a word. -/
def lowLevel : List Word → Option (Bool × List UInt8)
  | [] => none
  | success :: result => some (success ≠ 0, result.map fun w ↦ UInt8.ofNat w.toNat)

/-- Code of the executor. -/
abbrev BootstrapM := Prog Storage External BootstrapError

/-! ## `abi.encode(actions)` -/

/-- A word, most significant byte first. -/
def encodeWord (n : ℕ) : List UInt8 := (List.range 32).map fun i ↦ UInt8.ofNat (n / 256 ^ (31 - i))

/-- `bytes`: the length, then the data, padded to whole words. -/
def encodeBytes (data : List UInt8) : List UInt8 :=
  encodeWord data.length ++ data ++ List.replicate ((32 - data.length % 32) % 32) 0

/-- One action: three static fields and the place of `data`, then `data`. -/
def encodeAction (action : Action) : List UInt8 :=
  encodeWord action.create.toNat ++ encodeWord action.target.toNat ++ encodeWord 128 ++
    encodeWord action.returnHash.toNat ++ encodeBytes action.data

/-- The places of the elements, the first one at `place`, then the elements. -/
def encodeElements : ℕ → List (List UInt8) → List UInt8 × List UInt8
  | _, [] => ([], [])
  | place, e :: es =>
    let rest := encodeElements (place + e.length) es
    (encodeWord place ++ rest.1, e ++ rest.2)

def encodeActions (actions : List Action) : List UInt8 :=
  let elements := encodeElements (32 * actions.length) (actions.map encodeAction)
  encodeWord 32 ++ encodeWord actions.length ++ elements.1 ++ elements.2

/-! ## The code -/

section Code

variable (keccak256 : List UInt8 → Word)

/-- The body of the loop over the actions. -/
def perform (i : ℕ) (action : Action) : BootstrapM Unit := do
  revertIf (action.target = 0) (.invalidAction i)
  if action.create = true then do
    revertIf (action.data.length = 0 ∨ action.data.length > 49152 ∨ action.returnHash ≠ 0)
      (.invalidAction i)
    let initcode := action.data
    let created ← ask (.create initcode) Abi.address
    revertIf (created ≠ action.target) (.invalidAction i)
    let size ← ask (.codeSize created) Abi.uint256
    revertIf (size = 0) (.invalidAction i)
    modify fun s ↦ { s with
      log := s.log ++ [.created i created (keccak256 initcode)]
      steps := s.steps ++ [⟨action, .created created size⟩] }
  else do
    let size ← ask (.codeSize action.target) Abi.uint256
    revertIf (size = 0) (.invalidAction i)
    let (success, result) ← ask (.call action.target action.data) lowLevel
    revertIf (success = false) (.failedAction i result)
    revertIf (action.returnHash ≠ 0 ∧ keccak256 result ≠ action.returnHash) (.invalidAction i)
    modify fun s ↦ { s with steps := s.steps ++ [⟨action, .returned result⟩] }

/-- The loop, from index `i` on. -/
def performAll : ℕ → List Action → BootstrapM Unit
  | _, [] => pure ()
  | i, action :: actions => do
    perform keccak256 i action
    performAll (i + 1) actions

/-- `_execute` -/
def executeBatch (actions : List Action) (finish : Bool) : BootstrapM Unit := do
  let s ← get
  revertIf (s.closed = true ∨ s.executing = true) .unavailable
  revertIf (actions.length = 0) (.invalidAction 0)
  modify fun s ↦ { s with executing := true }
  let current := s.sequence
  let next ← checkedAdd current 1
  modify fun s ↦ { s with sequence := next }
  performAll keccak256 0 actions
  modify fun s ↦ { s with closed := finish }
  modify fun s ↦ { s with executing := false }
  modify fun s ↦ { s with
    log := s.log ++ [.executed current (keccak256 (encodeActions actions)) finish]
    steps := []
    batches := s.batches ++ [⟨current, s.steps, finish⟩] }

/-- `constructor` -/
def construct (sender : Address) (actions : List Action) : BootstrapM Unit := do
  modify fun s ↦ { s with owner := sender }
  executeBatch keccak256 actions false

/-- `execute` -/
def execute (sender : Address) (expectedSequence : ℕ) (actions : List Action) (finish : Bool) :
    BootstrapM Unit := do
  let s ← get
  revertIf (sender ≠ s.owner) .unauthorized
  revertIf (expectedSequence ≠ s.sequence) .invalidSequence
  executeBatch keccak256 actions finish

/-- A call of `execute`. -/
structure Entry where
  sender : Address
  expectedSequence : ℕ
  actions : List Action
  finish : Bool
  deriving DecidableEq, Repr

/-- The code of the account once it is deployed. -/
def bootstrap : Code Storage External BootstrapError Entry where
  body _ e := execute keccak256 e.sender e.expectedSequence e.actions e.finish
  view := External.view

/-- The deployment: the storage the constructor leaves, `none` if it reverts. -/
def deploy (sender : Address) (actions : List Action) (replies : List (Reply Entry)) :
    Option Storage :=
  match (construct keccak256 sender actions).run false
      (environment (fun _ _ s ↦ (s, [])) External.view (.top 0)) .initial (replies, []) with
  | (.ok _, s, _, _) => some s
  | (.error _, _, _, _) => none

end Code

end Bootstrap
