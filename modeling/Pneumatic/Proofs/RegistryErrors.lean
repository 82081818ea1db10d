import Pneumatic.Core.Registry
import Pneumatic.Shielded.Validation

/-!
# What a failed call leaves in the registry

The calls of a `PendingTransactionRegistry` write before they test. A duplicate
transfer is put back; a duplicate transaction has replaced the held one when the
call fails, and a replayed nonce is noticed after the entry was validated.
-/

namespace Pneumatic

open Handler HandlerM Finmap

inductive AdmissionCall where
  | add (txId : String) (entry : PendingTransaction)
  | pending (txId : String)
  | shielded (stx : ShieldedTransaction)
  | validated (txId : String) (tx : Transaction) (validation : TransactionValidationResult)

namespace AdmissionCall

def perform : AdmissionCall → RegistryM Unit
  | add txId entry => addTransaction txId entry
  | pending txId => registerPending txId
  | shielded stx => registerShielded stx
  | validated txId tx validation => transitionToValidatedAndEnqueue txId tx validation

/-- An error leaves the whole registry as it was. -/
def Atomic (call : AdmissionCall) (registry : PendingTransactionRegistry) : Prop :=
  Ends call.perform registry (fun _ _ => True) fun _ registry' => registry' = registry

/-- A held entry is the one the call would write; for a validation that matters only
where the nonce was admitted before. -/
def Agrees (registry : PendingTransactionRegistry) : AdmissionCall → Prop
  | add txId entry => ∀ held ∈ registry.transactions.lookup txId, held = entry
  | pending txId => ∀ held ∈ registry.transactions.lookup txId, held = .new .pending
  | shielded _ => True
  | validated txId tx validation =>
    (tx.tokenId, tx.sender, tx.sequenceNumber) ∈ registry.usedNonces →
      ∀ held ∈ registry.transactions.lookup txId, held.state = .validated tx validation

variable {registry : PendingTransactionRegistry} {txId : String}

theorem atomic_add_iff {entry : PendingTransaction} :
    (add txId entry).Atomic registry ↔ (add txId entry).Agrees registry := by
  have hw : ({ registry with
      transactions := registry.transactions.insert txId entry } = registry) ↔
      registry.transactions.lookup txId = some entry :=
    ⟨fun h => insert_eq_self_iff.mp (congrArg (·.transactions) h),
      fun h => by rw [insert_eq_self_iff.mpr h]⟩
  simp only [Atomic, Agrees, perform, addTransaction, ends_bind, ends_getState, ends_update,
    ends_require, hw]
  cases hh : registry.transactions.lookup txId with
  | none => simp [lookup_eq_none.mp hh]
  | some held => simp [mem_of_lookup_eq_some hh]

theorem setState_eq_self_iff {held : PendingTransaction} {state : TransactionState}
    (hh : registry.transactions.lookup txId = some held) :
    registry.setState txId state = registry ↔ held.state = state := by
  simp only [PendingTransactionRegistry.setState, PendingRegistry.setState, hh]
  constructor
  · intro h
    have hs := insert_eq_self_iff.mp (congrArg (·.transactions) h)
    rw [hh] at hs
    exact congrArg PendingTransaction.state (Option.some.inj hs)
  · rintro rfl
    rw [insert_eq_self_iff.mpr hh]

theorem atomic_validated_iff {tx : Transaction} {validation : TransactionValidationResult} :
    (validated txId tx validation).Atomic registry ↔
      (validated txId tx validation).Agrees registry := by
  simp only [Atomic, Agrees, perform, transitionToValidatedAndEnqueue, enqueueToPool, ends_bind,
    ends_getState, ends_update, ends_require]
  cases hh : registry.transactions.lookup txId with
  | none => simp [lookup_eq_none.mp hh]
  | some held =>
    by_cases hn : (tx.tokenId, tx.sender, tx.sequenceNumber) ∈ registry.usedNonces
    · simp [mem_of_lookup_eq_some hh, hn, ← setState_eq_self_iff hh,
        PendingTransactionRegistry.setState, Finset.insert_eq_of_mem]
    · simp [mem_of_lookup_eq_some hh, hn, PendingTransactionRegistry.setState]

/-- A failed call changes nothing exactly if there was nothing it would have changed. -/
theorem errors_change_nothing_iff (registry : PendingTransactionRegistry) (call : AdmissionCall) :
    call.Atomic registry ↔ call.Agrees registry := by
  cases call with
  | add txId entry => exact atomic_add_iff
  | pending txId => exact atomic_add_iff
  | shielded stx => simp [Atomic, Agrees, perform, registerShielded]
  | validated txId tx v => exact atomic_validated_iff

/-- A transaction under way, whose nonce was admitted. -/
def underWay : PendingTransactionRegistry :=
  { PendingTransactionRegistry.new with
    transactions := Finmap.singleton "a" (.new (.preloaded default))
    usedNonces := {default} }

/-- It is lost to a second registration, or validated by a replay. -/
theorem errors_change_something : ¬ (pending "a").Atomic underWay ∧
    ¬ (validated "a" default (.valid [] shieldedNeutralRisk)).Atomic underWay := by
  have hh : underWay.transactions.lookup "a" = some (.new (.preloaded default)) :=
    lookup_singleton_eq
  constructor
  · intro h
    cases atomic_add_iff.mp h _ hh
  · intro h
    cases atomic_validated_iff.mp h (by decide) _ hh

end AdmissionCall

end Pneumatic
