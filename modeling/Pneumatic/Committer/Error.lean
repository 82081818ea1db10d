import Pneumatic.Core.Transactions
import Pneumatic.Core.Errors

/-!
# The Committer's errors

`CommitterError` of `committer_error.rs`. Where the source builds a text from
what went wrong, the constructor carries what the text is built from.
-/

namespace Pneumatic

/-- What a `PoolState` error reports. -/
inductive PoolFault where
  | corrupt
  | leafCount (recorded actual : Nat)
  | leaves
  | root (rebuilt recorded : Bytes32)
  | nullifiers
  | doubleSpend (block : Bytes)
  | leafEncoding (block : Bytes)
  | postRoot (block : Bytes)
  | rollbackRoot
deriving DecidableEq

/-- The step of `apply_update` that refused a shielded block. -/
inductive ShieldedRefusal where
  | recheck (e : PneumaticError)
  | mark (e : PneumaticError)
  | leaf (e : PneumaticError)
deriving DecidableEq

/-- The snapshot a `SnapshotPersist` error names. -/
inductive SnapshotKind where
  | stake
  | executor
deriving DecidableEq

/-- `CommitterError`, the variants of the modelled paths. `notSelf` is the text
of `UnauthorizedRole` for an action only the node itself may send. The last
constructor is not one of the source's: it stands for a panic of the handler's
thread. -/
inductive CommitterError where
  | deserialization
  | internalSerialization
  | tokenNotFound (tokenId : Bytes) (absentFromStore : Bool)
  | transactionNotInFinalizing (txId : String)
  | transactionPayloadMismatch (txId : String)
  | environmentMismatch (expected got : String)
  | invalidBlockHash
  | invalidFinalizerSignature
  | signaturePayloadMismatch (txId : String) (claimed derived : Bytes)
  | transactionAlreadyCommitted (txId : String) (bookedHash : Bytes)
  | blockCommit (cause : BlockValidationError)
  | unauthenticatedSender (publicKey : Bytes)
  | unauthorizedRole (publicKey : Bytes) (roles : List NodeRegistryType)
  | notSelf (publicKey : Bytes)
  | core (cause : PneumaticError)
  | gasDeduction (sender : Bytes) (txId : String) (gasUsed : Nat)
  | loserDiscarded
  | tokenPersist (tokenId : Bytes)
  | snapshotPersist (epoch : Nat) (kind : SnapshotKind)
  | routing (fault : RoutingFault)
  | shieldedProofInvalid (txId : String) (cause : ShieldedRefusal)
  | poolState (fault : PoolFault)
  | poolPersist
  | poolPersistUnreverted (revert : CommitterError)
  | poolRollback (block : Bytes)
  | panicked
deriving DecidableEq

end Pneumatic
