import Pneumatic.Core.Utf8
import Pneumatic.Lib.Maps

/-!
# Transactions, signed transactions and blocks

The records the roles exchange, field for field. A `HashMap` is a `Finmap`, a
`f32` that nothing computes with is its bit pattern, and a timestamp is the
integer it is on the wire. Here and in the modules above, a declaration without
a docstring is the source's item of that name.

What turns a record into bytes is the MessagePack serializer, and what turns
bytes into a digest or checks a signature over them is a cryptographic library.
None of the three is part of the repository, so a `Codec` bundles them and the
development is carried out over an arbitrary one. Serializing these records
into a vector does not fail, hence the total functions.
-/

namespace Pneumatic

structure ShieldedTransaction where
  id : String
  action : String
  tokenId : Bytes
  spentCommitments : List Bytes32
  nullifiers : List Bytes32
  commitments : List Bytes32
  merkleRoot : Bytes32
  proof : Bytes
  noteCiphertexts : List Bytes
  fee : Nat
deriving DecidableEq, Inhabited

/-- `SelectionRecord`: the routing decision a Sentinel attests. -/
structure SelectionRecord where
  finalizerPublicKey : Bytes
  epochNumber : Nat
  salt : Bytes
  sentinelPublicKey : Bytes
  attestation : Bytes
deriving DecidableEq, Inhabited

/-- `Bid`, the percentage as its `f32` bit pattern. -/
structure Bid where
  bidExpiry : Int
  bidPercentage : UInt32
deriving DecidableEq, Inhabited

structure Transaction where
  id : String
  action : String
  tokenId : Bytes
  bid : Option Bid
  sequenceNumber : Nat
  sender : Bytes
  receiver : Bytes
  amount : Option Nat
  timestamp : Int
  resultHash : Bytes
  senderSignature : Bytes
  payload : Bytes
  gasLimit : Nat
  resultData : Bytes
  selection : Option SelectionRecord
deriving DecidableEq, Inhabited

structure TransactionSignature where
  transactionId : Bytes
  envId : Bytes
  transactionHash : Bytes
  signature : Bytes
  currentStake : Nat
deriving DecidableEq, Inhabited

abbrev TransactionSignature.txId (vote : TransactionSignature) : String :=
  fromUtf8Lossy vote.transactionId

abbrev VoteMap := Finmap (fun _ : Bytes => TransactionSignature)

abbrev GasMap := Finmap (fun _ : String => Nat)

structure SignedTransaction where
  transactionId : String
  transaction : Transaction
  totalStake : Nat
  totalVoters : Nat
  leaderAddress : Bytes
  leaderStake : Nat
  leaderHash : Bytes
  finalizerAddr : Bytes
  finalizerSig : TransactionSignature
  executorSigs : VoteMap
  proposerKey : Bytes
  shielded : Option ShieldedTransaction
deriving DecidableEq, Inhabited

inductive FinalityStatus where
  | optimistic
  | confirmed
deriving DecidableEq, Inhabited

structure Block where
  signedTrans : SignedTransaction
  tokenMetadata : Finmap (fun _ : String => String)
  previousHash : Bytes
  currentHash : Bytes
  timestamp : Int
  finalityStatus : FinalityStatus
  proposerKey : Bytes
  epochNumber : Nat
deriving DecidableEq, Inhabited

structure TransactionCommit where
  transId : Bytes
  tokenId : Bytes
  envId : String
  proposedBlock : Block
deriving DecidableEq, Inhabited

/-- The id as the Committer's maps have it. -/
abbrev TransactionCommit.txId (commit : TransactionCommit) : String :=
  fromUtf8Lossy commit.transId

/-- `CanonicalTransaction`: the fields the sender signs. The signature itself,
the execution output and the routing decision are not among them. -/
structure CanonicalTransaction where
  id : String
  action : String
  tokenId : Bytes
  bid : Option Bid
  sequenceNumber : Nat
  sender : Bytes
  receiver : Bytes
  amount : Option Nat
  timestamp : Int
  resultHash : Bytes
  payload : Bytes
  gasLimit : Nat
deriving DecidableEq, Inhabited

/-- The serializer, the digest and the signature check. `checkSignature` takes
the signature, the public key and the message, as the crypto provider does;
`none` is the provider's error. A decoder answers `none` on bytes that do not
deserialize. -/
structure Codec where
  sha256 : Bytes → Bytes
  checkSignature : Bytes → Bytes → Bytes → Option Bool
  rmpInt : Int → Bytes
  rmpNat : Nat → Bytes
  rmpBytes : Bytes → Bytes
  rmpMetadata : Finmap (fun _ : String => String) → Bytes
  rmpTransaction : Transaction → Bytes
  rmpCanonicalTransaction : CanonicalTransaction → Bytes
  rmpShielded : ShieldedTransaction → Bytes
  rmpSignedTransaction : SignedTransaction → Bytes
  rmpFinalizerCarrier : SignedTransaction → Bytes
  rmpAttestation : Bytes → UInt8 → Bytes → Nat → Bytes → Bytes
  decodeTransaction : Bytes → Option Transaction
  decodeTransactionSignature : Bytes → Option TransactionSignature
  decodeTransactionCommit : Bytes → Option TransactionCommit
  decodeBlock : Bytes → Option Block

section Codec

variable (C : Codec)

def Transaction.canonical (tx : Transaction) : CanonicalTransaction where
  id := tx.id
  action := tx.action
  tokenId := tx.tokenId
  bid := tx.bid
  sequenceNumber := tx.sequenceNumber
  sender := tx.sender
  receiver := tx.receiver
  amount := tx.amount
  timestamp := tx.timestamp
  resultHash := tx.resultHash
  payload := tx.payload
  gasLimit := tx.gasLimit

def Transaction.canonicalSignatureBytes (tx : Transaction) : Bytes :=
  C.rmpCanonicalTransaction tx.canonical

/-- `BlockFactory::create_hash`. The claimed `current_hash` and the finality
status are not part of the preimage. -/
def createHash (block : Block) : Bytes :=
  C.sha256 (block.previousHash ++ C.rmpInt block.timestamp ++
    C.rmpSignedTransaction block.signedTrans ++
    C.rmpMetadata block.tokenMetadata ++ C.rmpBytes block.proposerKey ++ C.rmpNat block.epochNumber)

end Codec

end Pneumatic
