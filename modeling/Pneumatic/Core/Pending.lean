import Pneumatic.Core.Errors
import Pneumatic.Core.Transactions

/-!
# Pending transactions

The state machine a transaction goes through in a role's registry, and the
registry itself. A lock count keeps an entry from being collected while a
stage works on it; `Committed` and `Failed` are terminal and take no new lock.
-/

namespace Pneumatic

inductive TransactionState where
  | pending
  | preloaded (transaction : Transaction)
  | validated (transaction : Transaction) (validation : TransactionValidationResult)
  | executing (transaction : Transaction)
  | finalizing (transaction : Transaction) (finalizerKey : Bytes)
  | committed (transaction : Transaction) (blockHash : Bytes)
  | failed (transaction : Transaction) (reasons : List ValidationFailureReason)
deriving DecidableEq

/-- The transaction of a state that still leads to a block. -/
def TransactionState.live : TransactionState → Option Transaction
  | .preloaded tx => some tx
  | .validated tx _ => some tx
  | .executing tx => some tx
  | .finalizing tx _ => some tx
  | _ => none

structure PendingTransaction where
  state : TransactionState
  lockCount : Nat
deriving DecidableEq

namespace PendingTransaction

def new (state : TransactionState) : PendingTransaction where
  state := state
  lockCount := 0

/-- `PendingTransaction::acquire`; `none` on a terminal state. -/
def acquire (entry : PendingTransaction) : Option PendingTransaction :=
  match entry.state with
  | .failed _ _ => none
  | .committed _ _ => none
  | _ => some { entry with lockCount := entry.lockCount + 1 }

/-- `PendingTransaction::release`: the entry, and whether it is to be
removed. -/
def release (entry : PendingTransaction) : PendingTransaction × Bool :=
  let entry := { entry with lockCount := entry.lockCount - 1 }
  (entry, entry.lockCount == 0 &&
    match entry.state with
    | .failed _ _ => true
    | .committed _ _ => true
    | _ => false)

end PendingTransaction

/-- The transactions of a `PendingTransactionRegistry`. -/
abbrev PendingRegistry := Finmap (fun _ : String => PendingTransaction)

/-- An assignment through `get_transaction_mut`: the entry's state is replaced
where there is one. -/
def PendingRegistry.setState (registry : PendingRegistry) (txId : String)
    (state : TransactionState) : PendingRegistry :=
  match registry.lookup txId with
  | none => registry
  | some entry => registry.insert txId { entry with state := state }

theorem PendingRegistry.lookup_setState {registry : PendingRegistry}
    {txId id : String} {state : TransactionState} {entry : PendingTransaction}
    (h : (registry.setState txId state).lookup id = some entry) :
    registry.lookup id = some entry ∨ (id = txId ∧ entry.state = state) := by
  unfold setState at h
  split at h
  · exact .inl h
  · rcases Finmap.lookup_insert_cases h with ⟨rfl, rfl⟩ | hold
    · exact .inr ⟨rfl, rfl⟩
    · exact .inl hold

end Pneumatic
