import Pneumatic.Contracts.Upgrade
import Pneumatic.Core.Encoding
import Pneumatic.Finalizer.Shielded
import Pneumatic.Node.Registry

/-!
# What one identity key signs

A node has one key, and every role it runs signs with it. Nine kinds of payload are
signed: the body of an envelope, the binding of a key to an address, a directory
query, a Sentinel's routing decision, a sender's transaction, an Executor's vote for
a result, a Finalizer's vote for a shielded transfer, a Finalizer's block and an
owner's upgrade. The last four are digests and nothing else.

`Signs` says which byte strings are signed for a purpose. It keeps to the serializer,
whose maps and tuples `Core.Encoding` writes down, and leaves every field to whoever
fills it. `Accepts` says which byte strings pass the check of a purpose: the check is
run against a provider that knows one signed payload and no other.

No hash of 32 bytes is without collisions. What is asked of this one is that it has
none among the strings that were hashed, and a digest counts here only if what it is
a digest of was.
-/

namespace Pneumatic

open MessagePack (uint str array byteArray table optional)

inductive Purpose where
  | envelopeBody
  | registrationBinding
  | directoryQuery
  | selectionAttestation
  | senderTransaction
  | executorVote
  | shieldedVote
  | finalizerDigest
  | upgradeDigest
deriving DecidableEq

/-- The payload is a digest. -/
def Purpose.isDigest : Purpose → Bool
  | executorVote | shieldedVote | finalizerDigest | upgradeDigest => true
  | _ => false

def NodeRegistryType.name : NodeRegistryType → String
  | committer => "Committer"
  | sentinel => "Sentinel"
  | executor => "Executor"
  | finalizer => "Finalizer"
  | archiver => "Archiver"

def roleArray (types : List NodeRegistryType) : Bytes :=
  array (types.map fun nodeType => str (asBytes nodeType.name))

def bindingPayload (rhash : Rhash) (requestedType : NodeRegistryType)
    (requesterTypes : List NodeRegistryType) : Bytes :=
  array [byteArray rhash.bytes, str (asBytes requestedType.name), roleArray requesterTypes]

/-- `[u8; 16]`, used once. -/
structure QueryNonce where
  bytes : Bytes
  length_eq : bytes.length = 16

/-- A request with the two fields of a directory query. -/
structure DirectoryQuery extends NodeRequest where
  queryTarget : Rhash
  queryNonce : QueryNonce

/-- `query_payload`. -/
def DirectoryQuery.payload (query : DirectoryQuery) : Bytes :=
  array [byteArray query.requesterRhash.bytes, byteArray query.queryTarget.bytes,
     byteArray query.queryNonce.bytes, str (asBytes query.requestedType.name),
     roleArray query.requesterTypes]

def verifyQuery (C : Codec) (query : DirectoryQuery) : Bool :=
  C.checkSignature query.bindingSignature query.requesterKey query.payload == some true

/-- The records that travel in an envelope and are not looked into here. -/
inductive BodyRecord where
  | commit
  | block
  | token
  | message

def BodyRecord.names : BodyRecord → List String
  | commit => ["trans_id", "token_id", "env_id", "proposed_block"]
  | block =>
    ["signed_trans", "token_metadata", "previous_hash", "current_hash", "timestamp",
      "finality_status", "proposer_key", "epoch_number"]
  | token =>
    ["id", "metadata", "blockchain", "asset_data", "asset_hash", "security_level",
      "is_self_verified", "is_non_transferable", "block_validation_spec_name",
      "environment_id", "sequence_number"]
  | message => ["chain_id", "action", "body", "signature", "public_key", "stake_set"]

/-- What the handlers put into an envelope: a transaction on its way through the roles,
a shielded transfer, a vote, a record, the id of a transaction to clear or delete, and
the two announcements about a block. -/
inductive EnvelopeBody where
  | transaction (tx : Transaction)
  | shielded (stx : ShieldedTransaction)
  | vote (sig : TransactionSignature)
  | record (kind : BodyRecord) (values : List Bytes) (length_eq : values.length = kind.names.length)
  | transactionId (id : String)
  | blockHash (hash : Bytes)
  | blockVote (hash voter : Bytes)

def EnvelopeBody.bytes (C : Codec) : EnvelopeBody → Bytes
  | transaction tx => C.rmpTransaction tx
  | shielded stx => C.rmpShielded stx
  | vote sig => table sig.fields
  | record kind values _ => table (List.zipWith named kind.names values)
  | transactionId id => str (asBytes id)
  | blockHash hash => byteArray hash
  | blockVote hash voter => array [byteArray hash, byteArray voter]

/-- A transaction in it fits the format. -/
def EnvelopeBody.Fits : EnvelopeBody → Prop
  | transaction tx => tx.Fits
  | _ => True

def TransferDelta.fields (delta : TransferDelta) : List (Bytes × Bytes) :=
  [named "token_id" (byteArray delta.tokenId), named "sender" (byteArray delta.sender),
   named "receiver" (byteArray delta.receiver), named "amount" (uint delta.amount),
   named "sequence_number" (uint delta.sequenceNumber)]

def WasmResult.fields (result : WasmResult) : List (Bytes × Bytes) :=
  [named "module_output" (byteArray result.moduleOutput), named "storage_delta"
    (table (result.storageDelta.map fun entry =>
      (byteArray entry.1, optional byteArray entry.2)))]

/-- The metadata are a hash map, written in whatever order it is walked. -/
def CreateTokenDelta.fields (delta : CreateTokenDelta) (metadata : Bytes) : List (Bytes × Bytes) :=
  [named "token_id" (byteArray delta.tokenId), named "name" (str (asBytes delta.name)),
   named "engine" (str (asBytes delta.engine)), named "bytecode" (byteArray delta.bytecode),
   named "metadata" metadata, named "owners" (byteArrays delta.owners),
   named "threshold" (uint delta.threshold)]

def ReplaceAssetDelta.fields (delta : ReplaceAssetDelta) : List (Bytes × Bytes) :=
  [named "token_id" (byteArray delta.tokenId), named "new_bytecode" (byteArray delta.newBytecode),
   named "new_owners" (byteArrays delta.newOwners), named "new_threshold" (uint delta.newThreshold),
   named "proposal_epoch" (uint delta.proposalEpoch)]

/-- The record `upgrade_digest` hashes behind its domain. -/
def digestInputFields (tokenId bytecodeHash : Bytes) (newOwners : List Bytes)
    (newThreshold proposalEpoch : Nat) : List (Bytes × Bytes) :=
  [named "token_id" (byteArray tokenId), named "bytecode_hash" (byteArray bytecodeHash),
   named "new_owners" (byteArrays newOwners), named "new_threshold" (uint newThreshold),
   named "proposal_epoch" (uint proposalEpoch)]

/-- What an execution gives: the delta of a transfer, the number a program emitted, the
output and the writes of a Wasm module, and the deltas of a deployment and of an
upgrade. -/
inductive ResultData where
  | transfer (delta : TransferDelta)
  | emitted (value : Nat)
  | wasm (result : WasmResult)
  | deployed (delta : CreateTokenDelta)
  | upgraded (delta : ReplaceAssetDelta)

def ResultData.bytes (K : ContractCodec) (M : EngineCodec) : ResultData → Bytes
  | transfer delta => M.rmpTransferDelta delta
  | emitted value => LittleEndian.leBytes 8 value
  | wasm result => M.rmpWasmResult result
  | deployed delta => K.rmpCreateTokenDelta delta
  | upgraded delta => K.rmpReplaceAssetDelta delta

/-- The carrier a Finalizer hashes, with its own signature left blank. -/
def finalizerCarrier (C : Codec) (signed : SignedTransaction) : Bytes :=
  C.rmpFinalizerCarrier { signed with
    finalizerSig := finalizerPlaceholderSig signed.transaction }

/-- The executors' signatures in the order of their keys. -/
def executorSignatures (signed : SignedTransaction) : Bytes :=
  (sortedKeys signed.executorSigs).flatMap fun key =>
    match signed.executorSigs.lookup key with
    | some sig => sig.signature
    | none => []

def finalizerPreimage (C : Codec) (signed : SignedTransaction) : Bytes :=
  C.sha256 (finalizerCarrier C signed) ++ C.sha256 (executorSignatures signed)

def upgradePreimage (C : Codec) (M : EngineCodec) (tokenId : Bytes) (params : UpgradeParams) :
    Bytes :=
  upgradeDomain ++ M.rmpDigestInput tokenId (C.sha256 params.newBytecode) params.newOwners
    params.newThreshold params.proposalEpoch

/-- The serializers write the maps and tuples of `encoding.rs`. -/
structure NamedMaps (C : Codec) (N : NodeCodec) (K : ContractCodec) (M : EngineCodec) :
    Prop where
  transaction : ∀ tx, C.rmpTransaction tx = table tx.fields
  canonical : ∀ tx, C.rmpCanonicalTransaction tx = table tx.fields
  shielded : ∀ stx, C.rmpShielded stx = table stx.fields
  attestation : ∀ txId domain key epoch salt,
    C.rmpAttestation txId domain key epoch salt = attestationTuple txId domain key epoch salt
  binding : ∀ rhash requestedType requesterTypes, N.rmpBinding rhash requestedType requesterTypes =
      bindingPayload rhash requestedType requesterTypes
  transferDelta : ∀ delta, M.rmpTransferDelta delta = table delta.fields
  wasmResult : ∀ result, M.rmpWasmResult result = table result.fields
  createToken : ∀ delta, ∃ metadata, K.rmpCreateTokenDelta delta = table (delta.fields metadata)
  replaceAsset : ∀ delta, K.rmpReplaceAssetDelta delta = table delta.fields
  digestInput : ∀ tokenId bytecodeHash newOwners newThreshold proposalEpoch,
    M.rmpDigestInput tokenId bytecodeHash newOwners newThreshold proposalEpoch =
      table (digestInputFields tokenId bytecodeHash newOwners newThreshold proposalEpoch)

/-- The serializers, a hash with outputs of 32 bytes, and strings that were hashed and
among which it has no collision. -/
structure SigningWorld where
  C : Codec
  N : NodeCodec
  K : ContractCodec
  M : EngineCodec
  namedMaps : NamedMaps C N K M
  hash_length : ∀ bytes, (C.sha256 bytes).length = 32
  hashed : Set Bytes
  collisionFree : Set.InjOn C.sha256 hashed

/-- A provider that answers yes to one payload and no to every other. -/
def Codec.approving (C : Codec) (payload : Bytes) : Codec :=
  { C with checkSignature := fun _ _ message => some (message == payload) }

namespace SigningWorld

variable (W : SigningWorld)

/-- A payload some handler signs for a purpose. A role set may be empty: a node that
declares no role still acknowledges a registration. The Finalizer of a routing decision
was registered under its key, and registering checks a signature under it, so the key
has its 32 bytes. -/
def Signs : Purpose → Bytes → Prop
  | .envelopeBody, payload => ∃ body : EnvelopeBody, body.Fits ∧ body.bytes W.C = payload
  | .registrationBinding, payload =>
    ∃ rhash requestedType declared, W.N.rmpBinding rhash requestedType declared = payload
  | .directoryQuery, payload => ∃ query : DirectoryQuery, query.payload = payload
  | .selectionAttestation, payload =>
    ∃ (record : SelectionRecord) (txId : String), (asBytes txId).length < 2 ^ 32 ∧
      record.finalizerPublicKey.length = 32 ∧
      record.attestationSurface W.C txId finalizerDomain = payload
  | .senderTransaction, payload =>
    ∃ tx : Transaction, tx.Fits ∧ tx.canonicalSignatureBytes W.C = payload
  | .executorVote, payload =>
    ∃ result : ResultData, result.bytes W.K W.M ∈ W.hashed ∧
      W.C.sha256 (result.bytes W.K W.M) = payload
  | .shieldedVote, payload =>
    ∃ stx : ShieldedTransaction, W.C.rmpShielded stx ∈ W.hashed ∧ stx.hash W.C = payload
  | .finalizerDigest, payload =>
    ∃ signed : SignedTransaction, finalizerPreimage W.C signed ∈ W.hashed ∧
      finalizerCarrier W.C signed ∈ W.hashed ∧ executorSignatures signed ∈ W.hashed ∧
      finalizerDigest W.C W.C.sha256 signed = payload
  | .upgradeDigest, payload =>
    ∃ (tokenId : Bytes) (params : UpgradeParams),
      upgradePreimage W.C W.M tokenId params ∈ W.hashed ∧ params.newBytecode ∈ W.hashed ∧
      params.digest W.C W.M tokenId = payload

/-- A payload that passes the check of a purpose. -/
def Accepts (purpose : Purpose) (payload : Bytes) : Prop :=
  let C := W.C.approving payload
  match purpose with
  | .envelopeBody =>
    ∃ roles message known, authenticateEnvelope C roles message = .ok known
  | .registrationBinding => ∃ binding, verifyBinding C W.N binding = true
  | .directoryQuery => ∃ query, verifyQuery C query = true
  | .selectionAttestation =>
    ∃ (record : SelectionRecord) (txId : String) (domain : UInt8),
      (asBytes txId).length < 2 ^ 32 ∧ record.verify C txId domain = some true
  | .senderTransaction => ∃ tx : Transaction, tx.Fits ∧ tx.verifySenderSignature C = some true
  | .executorVote => ∃ voter sig, checkExecutorSignature C voter sig = .ok ()
  | .shieldedVote => ∃ voter vote, checkVoteSignature C voter vote = .ok ()
  | .finalizerDigest =>
    ∃ (signed : SignedTransaction) (key : Bytes), finalizerPreimage W.C signed ∈ W.hashed ∧
      finalizerCarrier W.C signed ∈ W.hashed ∧ executorSignatures signed ∈ W.hashed ∧
      verifyFinalizerSignature C W.C.sha256 signed key = .ok ()
  | .upgradeDigest =>
    ∃ (tokenId : Bytes) (params : UpgradeParams) (owners : List Bytes) (threshold : Nat),
      upgradePreimage W.C W.M tokenId params ∈ W.hashed ∧ params.newBytecode ∈ W.hashed ∧
      verifyQuorum C W.M tokenId params owners threshold = true

/-- No payload signed for the one purpose passes the check of the other. -/
def Disjoint (signed checked : Purpose) : Prop :=
  ∀ payload, ¬ (W.Signs signed payload ∧ W.Accepts checked payload)

end SigningWorld

end Pneumatic
