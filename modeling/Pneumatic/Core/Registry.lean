import Pneumatic.Core.Pending
import Pneumatic.Core.TransactionPool
import Pneumatic.Lib.Handler

/-!
# The pending-transaction registry

`PendingTransactionRegistry` of `registry/pending.rs`: beside the transactions
the queue a leader takes from, the gas of each transaction, the nonces that were
admitted and the shielded transfers. The roles of one host share it.

An insertion comes before the test whether the id was there, so a pending
transaction that is registered twice is replaced although the call fails.
-/

namespace Pneumatic

open Handler HandlerM

structure PendingTransactionRegistry where
  transactions : PendingRegistry
  pool : TransactionPool
  gasTracker : GasMap
  usedNonces : Finset (Bytes × Bytes × Nat)
  shieldedTransactions : Finmap (fun _ : String => ShieldedTransaction)

abbrev RegistryM := HandlerM PendingTransactionRegistry RegistryFault

def TransactionState.isTerminal : TransactionState → Bool
  | .failed _ _ => true
  | .committed _ _ => true
  | _ => false

namespace PendingTransactionRegistry

def new : PendingTransactionRegistry where
  transactions := ∅
  pool := .new
  gasTracker := ∅
  usedNonces := ∅
  shieldedTransactions := ∅

def recordGasUsed (registry : PendingTransactionRegistry) (txId : String)
    (gasUsed : Nat) : PendingTransactionRegistry :=
  { registry with gasTracker := registry.gasTracker.insert txId gasUsed }

def setState (registry : PendingTransactionRegistry) (txId : String)
    (state : TransactionState) : PendingTransactionRegistry :=
  { registry with transactions := registry.transactions.setState txId state }

def isRequestedFinalizer (registry : PendingTransactionRegistry) (txId : String)
    (expectedKey : Bytes) : Bool :=
  if expectedKey.isEmpty then false
  else
    match registry.transactions.lookup txId with
    | none => false
    | some entry =>
      match entry.state with
      | .finalizing _ finalizerKey => finalizerKey == expectedKey
      | .validated _ validation =>
        !validation.finalizerPublicKey.isEmpty && validation.finalizerPublicKey == expectedKey
      | _ => false

end PendingTransactionRegistry

def addTransaction (txId : String) (entry : PendingTransaction) : RegistryM Unit := do
  let registry ← getState
  update fun registry =>
    { registry with transactions := registry.transactions.insert txId entry }
  require (txId ∉ registry.transactions) (.alreadyExists txId)

def registerPending (txId : String) : RegistryM Unit := addTransaction txId (.new .pending)

def removeTransaction (txId : String) : RegistryM Unit := do
  let registry ← getState
  update fun registry =>
    { registry with transactions := registry.transactions.erase txId }
  require (txId ∈ registry.transactions) (.notFound txId)

/-- `register_shielded`: a held transfer is put back. -/
def registerShielded (stx : ShieldedTransaction) : RegistryM Unit := do
  let registry ← getState
  require (stx.id ∉ registry.shieldedTransactions) (.alreadyExists stx.id)
  update fun registry =>
    { registry with
      shieldedTransactions := registry.shieldedTransactions.insert stx.id stx }

def acquireTransaction (txId : String) : RegistryM Unit := do
  let registry ← getState
  let entry ← ofOption (registry.transactions.lookup txId) (.notFound txId)
  let locked ← ofOption entry.acquire (.terminal txId)
  update fun registry =>
    { registry with transactions := registry.transactions.insert txId locked }

/-- `release_transaction`; the answer is whether the entry is to be removed. -/
def releaseTransaction (txId : String) : RegistryM Bool := do
  let registry ← getState
  let entry ← ofOption (registry.transactions.lookup txId) (.notFound txId)
  update fun registry =>
    { registry with
      transactions := registry.transactions.insert txId entry.release.1 }
  pure entry.release.2

def enqueueToPool (txId : String) (entry : PoolEntry) : RegistryM Unit := do
  let nonce := (entry.tokenId, entry.sender, entry.sequenceNumber)
  let registry ← getState
  update fun registry =>
    { registry with usedNonces := insert nonce registry.usedNonces }
  require (nonce ∉ registry.usedNonces)
    (.duplicateNonce entry.tokenId entry.sender entry.sequenceNumber)
  update fun registry =>
    { registry with pool := registry.pool.enqueue txId entry }

/-- `transition_to_validated_and_enqueue`. A replayed nonce is noticed after the
entry was validated. -/
def transitionToValidatedAndEnqueue (txId : String) (tx : Transaction)
    (validation : TransactionValidationResult) : RegistryM Unit := do
  let registry ← getState
  require (txId ∈ registry.transactions) (.notFound txId)
  update fun registry => registry.setState txId (.validated tx validation)
  enqueueToPool txId
    { tokenId := tx.tokenId
      sequenceNumber := tx.sequenceNumber
      timestamp := tx.timestamp
      sender := tx.sender }

end Pneumatic
