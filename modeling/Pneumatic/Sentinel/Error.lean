import Pneumatic.Core.Errors

/-!
# The Sentinel's errors

`sentinel_error.rs`, with the data each text is built from in place of the text.
One case is not an error of the source: `deadlocked` stands for a call that
takes a shard lock its own thread already holds and never returns.
-/

namespace Pneumatic

/-- What a Sentinel's `Registry` error reports. -/
inductive SentinelRegistryFault where
  | core (fault : RegistryFault)
  | invalidBinding
  | alreadyRegistered (key : Bytes) (nodeType : NodeRegistryType)
  | insufficientStake (key : Bytes) (nodeType : NodeRegistryType)
  | unassignedConfirmation (key : Bytes) (txId : String)
  | confirmationNotFinalizing (txId : String)
  | unassignedRejection (key : Bytes) (txId : String)
  | noAlternativeFinalizer (txId : String)
  | unreadableForReassignment (txId : String)
  | noTransactionInState (txId : String)
  | unreadableSaltToken
  | notFinalizer (key : Bytes)
deriving DecidableEq

/-- What a Sentinel's `Routing` error reports. -/
inductive SentinelRoutingFault where
  | noSnapshot (epochNumber : Nat)
  | emptyStakeSet
  | noStakedFinalizer (epochNumber staked registered : Nat) (txId : String)
  | selectedNone
  | zeroStake
  | noExecutorSet (epochNumber : Nat)
  | emptyExecutorSet
  | emptyShard
deriving DecidableEq

inductive SentinelError where
  | encoding
  | data
  | registry (fault : SentinelRegistryFault)
  | transactionAlreadyExists (txId : String)
  | transactionInTerminalState (txId : String)
  | noTarget (nodeType : NodeRegistryType)
  | unknownAction (action : String)
  | routing (fault : SentinelRoutingFault)
  | emptySender
  | unauthenticatedSubmitter
  | invalidSenderSignature (providerFailed : Bool)
  | validation (error : PneumaticError)
  | deadlocked (txId : String)
deriving DecidableEq

end Pneumatic
