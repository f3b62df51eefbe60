import Mathlib.Data.List.Sort
import EezDashboard.Finite.Multimap
import EezDashboard.Js.Hex

/-!
# Decoded events

The events of both managers as the views of a bundle read them.  Of the arguments those are kept that are
read; what an event says of an action is of a type of its own, as only its hash and its display are used.
-/

set_option autoImplicit false

namespace Bundles

inductive Chain
  | l1
  | l2
  deriving DecidableEq, Repr

inductive EventName
  | rollupCreated
  | stateUpdated
  | verificationKeyUpdated
  | ownershipTransferred
  | crossChainProxyCreated
  | l2ExecutionPerformed
  | executionConsumed
  | crossChainCallExecuted
  | l2TXExecuted
  | batchPosted
  | executionTableLoaded
  | incomingCrossChainCallExecuted
  deriving DecidableEq, Repr

def EventName.text : EventName → String
  | rollupCreated => "RollupCreated"
  | stateUpdated => "StateUpdated"
  | verificationKeyUpdated => "VerificationKeyUpdated"
  | ownershipTransferred => "OwnershipTransferred"
  | crossChainProxyCreated => "CrossChainProxyCreated"
  | l2ExecutionPerformed => "L2ExecutionPerformed"
  | executionConsumed => "ExecutionConsumed"
  | crossChainCallExecuted => "CrossChainCallExecuted"
  | l2TXExecuted => "L2TXExecuted"
  | batchPosted => "BatchPosted"
  | executionTableLoaded => "ExecutionTableLoaded"
  | incomingCrossChainCallExecuted => "IncomingCrossChainCallExecuted"

structure StateDelta where
  rollupId : String
  newState : String
  deriving DecidableEq, Repr

/-- An entry of an execution table. -/
structure Entry (Action : Type) where
  actionHash : String
  nextAction : Option Action
  stateDeltas : List StateDelta := []

/-- An event, with the arguments that are read. -/
structure EventRecord (Action : Type) where
  id : String
  chain : Chain
  eventName : EventName
  blockNumber : ℕ
  logIndex : ℕ
  transactionHash : String
  actionHash : Option String := none
  entries : Option (List (Entry Action)) := none
  action : Option Action := none
  sourceAddress : Option String := none
  proxy : Option String := none
  destination : Option String := none
  rollupId : Option String := none
  initialState : Option String := none
  owner : Option String := none
  newState : Option String := none
  newStateRoot : Option String := none

def ZERO_HASH : String := "0x0000000000000000000000000000000000000000000000000000000000000000"

variable {Action : Type}

/-- By block, and by log in a block. -/
def EventRecord.before (a b : EventRecord Action) : Bool :=
  if a.blockNumber ≠ b.blockNumber then a.blockNumber < b.blockNumber else a.logIndex ≤ b.logIndex

/-- `[...new Set(l)]` -/
def distinct {α : Type} [DecidableEq α] (l : List α) : List α := l.foldl Multimap.insert []

end Bundles
