import Pneumatic.Core.Transactions
import Pneumatic.Core.Utf8
import Mathlib.Data.List.Sort

/-!
# What is signed and what is checked

The signed surfaces of `transactions.rs`. A sender signs the canonical fields
of a transaction, the execution result among them. A Sentinel attests a routing
decision over the transaction's id, not over its content. A Finalizer signs a
digest of the whole carrier, with its own signature left blank and the
executors' signatures in the order of their keys.
-/

namespace Pneumatic

open List

def finalizerDomain : UInt8 := 0x03

/-- Byte strings in another order sort to the same list, the order being total. -/
theorem insertionSort_eq_of_perm {keys keys' : List Bytes} (h : keys.Perm keys') :
    keys.insertionSort (· ≤ ·) = keys'.insertionSort (· ≤ ·) := by
  exact List.Perm.eq_of_pairwise (fun a b _ _ h h' => List.le_antisymm h h')
    (pairwise_insertionSort _ keys) (pairwise_insertionSort _ keys')
    ((perm_insertionSort _ keys).trans (h.trans (perm_insertionSort _ keys').symm))

def sortedKeys (sigs : VoteMap) : List Bytes :=
  Quot.liftOn sigs.keys.val (fun keys => keys.insertionSort (· ≤ ·))
    fun _ _ hperm => insertionSort_eq_of_perm hperm

theorem mem_sortedKeys {sigs : VoteMap}
    {key : Bytes} : key ∈ sortedKeys sigs ↔ key ∈ sigs := by
  rw [← Finmap.mem_keys, ← Finset.mem_val]
  unfold sortedKeys
  induction sigs.keys.val using Quot.inductionOn with
  | h keys => exact mem_insertionSort _

section Codec

variable (C : Codec)

def SelectionRecord.attestationSurface (record : SelectionRecord)
    (txId : String) (domain : UInt8) : Bytes :=
  C.rmpAttestation (asBytes txId) domain record.finalizerPublicKey record.epochNumber record.salt

/-- `SelectionRecord::verify`; `none` is a provider failure. -/
def SelectionRecord.verify (record : SelectionRecord) (txId : String)
    (domain : UInt8) : Option Bool :=
  if record.attestation.isEmpty || record.sentinelPublicKey.isEmpty then
    some false
  else
    C.checkSignature record.attestation record.sentinelPublicKey
      (record.attestationSurface C txId domain)

def SelectionRecord.names (record : SelectionRecord) (key : Bytes) : Bool :=
  !key.isEmpty && record.finalizerPublicKey == key

def SelectionRecord.sameDecisionAs (record other : SelectionRecord) : Bool :=
  record.finalizerPublicKey == other.finalizerPublicKey &&
    record.sentinelPublicKey == other.sentinelPublicKey &&
    record.epochNumber == other.epochNumber &&
    record.salt == other.salt

def Transaction.verifySenderSignature (tx : Transaction) : Option Bool :=
  C.checkSignature tx.senderSignature tx.sender (tx.canonicalSignatureBytes C)

/-- `Transaction::identity_hash`: the whole transaction with the two execution
outputs emptied. -/
def Transaction.identityHash (tx : Transaction) : Bytes :=
  C.sha256 (C.rmpTransaction { tx with resultHash := [], resultData := [] })

def ShieldedTransaction.hash (stx : ShieldedTransaction) : Bytes :=
  C.sha256 (C.rmpShielded stx)

def finalizerPlaceholderSig (tx : Transaction) : TransactionSignature where
  transactionId := asBytes tx.id
  envId := tx.tokenId
  transactionHash := []
  signature := []
  currentStake := 0

/-- `finalizer_digest`, under the hash provider handed to it. -/
def finalizerDigest (hash : Bytes → Bytes) (signed : SignedTransaction) : Bytes :=
  let sigInput := (sortedKeys signed.executorSigs).flatMap fun key =>
    match signed.executorSigs.lookup key with
    | some sig => sig.signature
    | none => []
  let carrier := { signed with
    finalizerSig := finalizerPlaceholderSig signed.transaction }
  hash (hash (C.rmpFinalizerCarrier carrier) ++ hash sigInput)

inductive FinalizerSignatureFailure where
  | missing
  | payloadMismatch (claimed derived : Bytes)
  | invalidUnderKey
deriving DecidableEq

def verifyFinalizerSignature (hash : Bytes → Bytes) (signed : SignedTransaction)
    (expectedFinalizerKey : Bytes) : Except FinalizerSignatureFailure Unit :=
  if signed.finalizerSig.signature.isEmpty then .error .missing
  else if finalizerDigest C hash signed ≠ signed.finalizerSig.transactionHash then
    .error (.payloadMismatch signed.finalizerSig.transactionHash (finalizerDigest C hash signed))
  else
    match C.checkSignature signed.finalizerSig.signature expectedFinalizerKey
        (finalizerDigest C hash signed) with
    | some true => .ok ()
    | _ => .error .invalidUnderKey

end Codec

end Pneumatic
