import Pneumatic.Core.Authority
import Pneumatic.Lib.MessagePack

/-!
# The bytes of a record

`serialize_to_bytes_rmp` of `encoding.rs` writes a record as a map from the names of
its fields, in the order of their declaration, and leaves out a field that is marked
to be skipped when it is empty. A tuple is an array, a byte string an array of
numbers.

Most of the development does not look inside these bytes and takes the serializer as
a parameter. Where it matters which byte strings a record can become, this is what
the parameter is.
-/

namespace Pneumatic

open MessagePack

open MessagePack (uint sint str array byteArray table optional Aligned)

/-- A field under its name. -/
def named (name : String) (value : Bytes) : Bytes × Bytes := (str (asBytes name), value)

def byteArrays (items : List Bytes) : Bytes := array (items.map byteArray)

def Bid.encode (bid : Bid) : Bytes :=
  table [named "bid_expiry" (sint bid.bidExpiry),
     named "bid_percentage" (MessagePack.Token.bytes (.float32 bid.bidPercentage))]

/-- The ten fields that a transaction and its canonical form both begin with. -/
def CanonicalTransaction.leadingFields (tx : CanonicalTransaction) : List (Bytes × Bytes) :=
  [named "id" (str (asBytes tx.id)), named "action" (str (asBytes tx.action)),
   named "token_id" (byteArray tx.tokenId), named "bid" (optional Bid.encode tx.bid),
   named "sequence_number" (uint tx.sequenceNumber), named "sender" (byteArray tx.sender),
   named "receiver" (byteArray tx.receiver), named "amount" (optional uint tx.amount),
   named "timestamp" (sint tx.timestamp), named "result_hash" (byteArray tx.resultHash)]

def CanonicalTransaction.fields (tx : CanonicalTransaction) : List (Bytes × Bytes) :=
  tx.leadingFields ++ [named "payload" (byteArray tx.payload), named "gas_limit" (uint tx.gasLimit)]

def SelectionRecord.fields (record : SelectionRecord) : List (Bytes × Bytes) :=
  [named "finalizer_public_key" (byteArray record.finalizerPublicKey),
   named "epoch_number" (uint record.epochNumber), named "salt" (byteArray record.salt),
   named "sentinel_public_key" (byteArray record.sentinelPublicKey),
   named "attestation" (byteArray record.attestation)]

/-- The fields of a transaction that are skipped when they are empty. -/
def Transaction.skippableFields (tx : Transaction) : List (Bytes × Bytes) :=
  (if tx.payload.isEmpty then [] else [named "payload" (byteArray tx.payload)]) ++
    (if tx.gasLimit = 0 then [] else [named "gas_limit" (uint tx.gasLimit)]) ++
    (if tx.resultData.isEmpty then [] else [named "result_data" (byteArray tx.resultData)]) ++
    match tx.selection with
    | none => []
    | some record => [named "selection" (table record.fields)]

def Transaction.fields (tx : Transaction) : List (Bytes × Bytes) :=
  tx.canonical.leadingFields ++
    named "sender_signature" (byteArray tx.senderSignature) :: tx.skippableFields

def ShieldedTransaction.fields (stx : ShieldedTransaction) : List (Bytes × Bytes) :=
  [named "id" (str (asBytes stx.id)), named "action" (str (asBytes stx.action)),
   named "token_id" (byteArray stx.tokenId),
   named "spent_commitments" (byteArrays (stx.spentCommitments.map Bytes32.bytes)),
   named "nullifiers" (byteArrays (stx.nullifiers.map Bytes32.bytes)),
   named "commitments" (byteArrays (stx.commitments.map Bytes32.bytes)),
   named "merkle_root" (byteArray stx.merkleRoot.bytes), named "proof" (byteArray stx.proof),
   named "note_ciphertexts" (byteArrays stx.noteCiphertexts), named "fee" (uint stx.fee)]

def TransactionSignature.fields (sig : TransactionSignature) : List (Bytes × Bytes) :=
  [named "transaction_id" (byteArray sig.transactionId), named "env_id" (byteArray sig.envId),
   named "transaction_hash" (byteArray sig.transactionHash),
   named "signature" (byteArray sig.signature), named "current_stake" (uint sig.currentStake)]

/-- The tuple of `SelectionRecord::attestation_surface`. -/
def attestationTuple (txId : Bytes) (domain : UInt8) (key : Bytes) (epoch : Nat)
    (salt : Bytes) : Bytes :=
  array [byteArray txId, uint domain.toNat, byteArray key, uint epoch, byteArray salt]

/-- No string in the leading fields is longer than a count of 32 bits can say. -/
structure CanonicalTransaction.Fits (tx : CanonicalTransaction) : Prop where
  id : (asBytes tx.id).length < 2 ^ 32
  action : (asBytes tx.action).length < 2 ^ 32
  tokenId : tx.tokenId.length < 2 ^ 32
  sender : tx.sender.length < 2 ^ 32
  receiver : tx.receiver.length < 2 ^ 32
  resultHash : tx.resultHash.length < 2 ^ 32

/-- The fields the sender signs fit the format. -/
def Transaction.Fits (tx : Transaction) : Prop := tx.canonical.Fits

theorem aligned_bid (bid bid' : Bid) : Aligned bid.encode bid'.encode :=
  (aligned_bytes _ _).append (aligned_entries (.cons ⟨rfl, aligned_sint _ _⟩
    (.cons ⟨rfl, aligned_bytes (.float32 _) (.float32 _)⟩ .nil)))

theorem firstToken_bid_ne_nil (bid : Bid) (rest : Bytes) :
    firstToken (bid.encode ++ rest) ≠ some .nil := by
  intro h
  cases h

theorem firstToken_uint_ne_nil (n : Nat) (rest : Bytes) :
    firstToken (uint n ++ rest) ≠ some .nil := by
  rw [firstToken_uint]
  intro h
  cases h

theorem aligned_leadingFields {tx tx' : CanonicalTransaction} (h : tx.Fits) (h' : tx'.Fits) :
    Aligned (entries tx.leadingFields) (entries tx'.leadingFields) := by
  refine aligned_entries ?_
  refine .cons ⟨rfl, aligned_str h.id h'.id⟩ ?_
  refine .cons ⟨rfl, aligned_str h.action h'.action⟩ ?_
  refine .cons ⟨rfl, aligned_byteArray h.tokenId h'.tokenId⟩ ?_
  refine .cons ⟨rfl, aligned_optional aligned_bid firstToken_bid_ne_nil _ _⟩ ?_
  refine .cons ⟨rfl, aligned_uint _ _⟩ ?_
  refine .cons ⟨rfl, aligned_byteArray h.sender h'.sender⟩ ?_
  refine .cons ⟨rfl, aligned_byteArray h.receiver h'.receiver⟩ ?_
  refine .cons ⟨rfl, aligned_optional aligned_uint firstToken_uint_ne_nil _ _⟩ ?_
  refine .cons ⟨rfl, aligned_sint _ _⟩ ?_
  exact .cons ⟨rfl, aligned_byteArray h.resultHash h'.resultHash⟩ .nil

/-- After the leading fields a transaction has its signature and its canonical form the
payload, so no transaction is written as the canonical form of any. -/
theorem table_fields_ne_canonical {tx : Transaction} {tx' : CanonicalTransaction}
    (h : tx.Fits) (h' : tx'.Fits) : table tx.fields ≠ table tx'.fields := by
  intro heq
  have he := (eq_of_bytes_append heq).2
  rw [Transaction.fields, CanonicalTransaction.fields, entries_append, entries_append] at he
  have ht := congrArg firstToken (aligned_leadingFields h h' _ _ he)
  rw [entries_cons, entries_cons, named, named, List.append_assoc,
    List.append_assoc, firstToken_str, firstToken_str] at ht
  exact absurd ht (by decide)

end Pneumatic
