import Pneumatic.Core.Messages
import Pneumatic.Core.Pending
import Pneumatic.Lib.Handler

/-!
# The Finalizer

`finalizer/signing.rs`, `finalizing.rs` and `routing.rs`: the two handlers
through which an optimistic block comes about. A preload registers a
transaction that a Sentinel's routing decision assigns to this node. A vote of
a registered Executor, or a preload that finds a vote already collected, loads
the registered transaction, stamps the voted result hash on it, signs it and
sends the block out.

What the surroundings answer while one message is handled (the node registry,
the stake snapshot, the chain tip, the clock, the signing key, the transport)
is a `FinalizerWorld`; each delivery comes with its own. A message's envelope is
checked by the vote's handler and by no one else.
-/

namespace Pneumatic

open Handler HandlerM

/-- The fixed data of a `Finalizer` and its block builder. -/
structure FinalizerConfig where
  publicKey : Bytes
  hashProvider : Bytes → Bytes
  leaderAddress : Bytes
  leaderStake : Nat
  leaderHash : Bytes
  finalizerAddr : Bytes
  envId : String
  currentEpoch : Nat

/-- What the surroundings answer while one message is handled. -/
structure FinalizerWorld where
  roles : Bytes → List NodeRegistryType
  stakeSet : Option StakeSet
  tokenTip : Bytes → Option Bytes
  signData : Bytes → Option Bytes
  now : Int
  committersReached : Bool
  gossipReached : Bool
  sentinelsReached : Bool

/-- What the message dispatcher sends. -/
inductive Outbound where
  | commit (commit : TransactionCommit)
  | blockFinalized (block : Block) (stakeSet : Option StakeSet)
  | clear (txId : String)
deriving DecidableEq

/-- The state of a Finalizer: its registries, and a log of the carriers it has
signed and of what it has sent. -/
structure FinalizerState where
  preloadTasks : Finmap (fun _ : String => Bytes)
  pending : PendingRegistry
  signatures : Finmap (fun _ : String => VoteMap)
  signed : List SignedTransaction
  outbox : List Outbound

def FinalizerState.new : FinalizerState := ⟨∅, ∅, ∅, [], []⟩

inductive FinalizerReply where
  | acknowledged
  | finalized (txId : String)
deriving DecidableEq

abbrev FinalizerM := HandlerM FinalizerState PneumaticError

section Finalizer

variable (C : Codec) (cfg : FinalizerConfig) (world : FinalizerWorld)

def finalizeAuthority (tx : Transaction) : Except PneumaticError Unit :=
  match tx.selection with
  | none => .error (.routing (.noDecision tx.id))
  | some record =>
    match record.verify C tx.id finalizerDomain with
    | none => .error (.cryptoError .attestation)
    | some false =>
      .error (.routing (.unverified tx.id record.sentinelPublicKey))
    | some true =>
      if .sentinel ∉ world.roles record.sentinelPublicKey then
        .error (.routing (.notSentinel tx.id record.sentinelPublicKey
          (world.roles record.sentinelPublicKey)))
      else if record.names cfg.publicKey = false then
        .error (.routing (.assignedElsewhere tx.id record.finalizerPublicKey cfg.publicKey))
      else .ok ()

/-- `Finalizer::finalize_authority_for_id`: what is not held, or held in a
state that leads to no block, is not refused here. -/
def finalizeAuthorityForId (pending : PendingRegistry) (txId : String) :
    Except PneumaticError Unit :=
  match pending.lookup txId with
  | none => .ok ()
  | some entry =>
    match entry.state.live with
    | none => .ok ()
    | some tx => finalizeAuthority C cfg world tx

def authenticateSignatureMessage (message : Message) : Except PneumaticError Bytes :=
  match authenticateEnvelope C world.roles message with
  | .error (.signature key providerFailed) =>
    .error (.cryptoError (.envelope key providerFailed))
  | .error (.unregistered key) => .error (.registry (.unregistered key))
  | .ok roles =>
    if .executor ∈ roles then .ok message.publicKey
    else .error (.registry (.notExecutor message.publicKey roles))

/-- The inner check of `handle_signature`: the vote signs its own hash. -/
def checkExecutorSignature (voter : Bytes) (sig : TransactionSignature) :
    Except PneumaticError Unit :=
  match C.checkSignature sig.signature voter sig.transactionHash with
  | none => .error (.cryptoError (.executorSignature voter true))
  | some false => .error (.cryptoError (.executorSignature voter false))
  | some true => .ok ()

def currentStakeForVoter (voter : Bytes) : Nat :=
  match world.stakeSet with
  | none => 0
  | some stakers => stakers.getStake voter

def FinalizerState.votes (s : FinalizerState) (txId : String) : VoteMap :=
  (s.signatures.lookup txId).getD ∅

theorem votes_of_lookup {s : FinalizerState} {txId : String} {votes : VoteMap}
    (h : s.signatures.lookup txId = some votes) : s.votes txId = votes := by
  unfold FinalizerState.votes
  rw [h]
  rfl

theorem votes_insert {s : FinalizerState} (txId : String) (votes : VoteMap) :
    FinalizerState.votes { s with signatures := s.signatures.insert txId votes } txId = votes :=
  votes_of_lookup (Finmap.lookup_insert _)

/-- `SignatureCollector::add_signature`. The entry is created before the
duplicate is noticed. -/
def addSignature (txId : String) (voter : Bytes) (sig : TransactionSignature) :
    FinalizerM Unit := do
  update fun s => { s with signatures := s.signatures.insert txId (s.votes txId) }
  let s ← getState
  require (voter ∉ s.votes txId) (.registry (.duplicateSignature voter txId))
  update fun s =>
    { s with signatures :=
        s.signatures.insert txId ((s.votes txId).insert voter sig) }

/-- `SignatureCollector::first_signature`: the vote of the smallest key. -/
def firstSignature (s : FinalizerState) (txId : String) : Option (Bytes × TransactionSignature) :=
  match (sortedKeys (s.votes txId)).head? with
  | none => none
  | some voter => ((s.votes txId).lookup voter).map fun sig => (voter, sig)

def buildSignedTransactionOptimistic (sig : TransactionSignature)
    (tx : Transaction) (executorKey : Bytes) : SignedTransaction :=
  let tx := { tx with resultHash := sig.transactionHash }
  { transactionId := tx.id
    transaction := tx
    totalStake := sig.currentStake
    totalVoters := 1
    leaderAddress := cfg.leaderAddress
    leaderStake := cfg.leaderStake
    leaderHash := cfg.leaderHash
    finalizerAddr := cfg.finalizerAddr
    finalizerSig := finalizerPlaceholderSig tx
    executorSigs := Finmap.singleton executorKey
      { transactionId := asBytes tx.id
        envId := tx.tokenId
        transactionHash := sig.signature
        signature := sig.signature
        currentStake := sig.currentStake }
    proposerKey := cfg.leaderAddress
    shielded := none }

/-- `BlockBuilder::sign_finalizer_block`, and the log of what was signed. -/
def signFinalizerBlock (signed : SignedTransaction) : FinalizerM SignedTransaction := do
  let digest := finalizerDigest C cfg.hashProvider signed
  let signature ← ofOption (world.signData digest) (.cryptoError .blockSigning)
  let signed := { signed with
    finalizerSig :=
      { transactionId := asBytes signed.transaction.id
        envId := signed.transaction.tokenId
        transactionHash := digest
        signature := signature
        currentStake := cfg.leaderStake } }
  update fun s => { s with signed := s.signed ++ [signed] }
  pure signed

def createBlockOptimistic (signed : SignedTransaction) (previousHash : Bytes) : Block :=
  let block : Block :=
    { signedTrans := signed
      tokenMetadata := ∅
      previousHash := previousHash
      currentHash := []
      timestamp := world.now
      finalityStatus := .optimistic
      proposerKey := signed.proposerKey
      epochNumber := cfg.currentEpoch }
  { block with currentHash := createHash C block }

def resolvePreviousHash (tokenId : Bytes) : Bytes :=
  (world.tokenTip tokenId).getD []

/-- The finalizer key step 2 of `try_finalize_optimistic` reads off an entry. -/
def assignedKey : TransactionState → Bytes
  | .validated _ validation => validation.finalizerPublicKey
  | .finalizing _ finalizerKey => finalizerKey
  | _ => []

def tryFinalizeOptimistic (txId : String) (sig : TransactionSignature)
    (voter : Bytes) : FinalizerM FinalizerReply := do
  let s ← getState
  let entry ← ofOption (s.pending.lookup txId) (.registry (.notFound txId))
  let held ← ofOption entry.state.live (.registry (.notExecutable txId))
  HandlerM.lift (finalizeAuthority C cfg world held)
  let tx := { held with resultHash := sig.transactionHash }
  let signed ← signFinalizerBlock C cfg world (buildSignedTransactionOptimistic cfg sig tx voter)
  update fun s =>
    { s with pending :=
        s.pending.setState txId (.finalizing tx (assignedKey entry.state)) }
  let block := createBlockOptimistic C cfg world signed (resolvePreviousHash world tx.tokenId)
  require (world.committersReached = true) .network
  update fun s =>
    { s with outbox := s.outbox ++
        [.commit
          { transId := asBytes txId
            tokenId := tx.tokenId
            envId := cfg.envId
            proposedBlock := block }] }
  require (world.gossipReached = true) .network
  update fun s =>
    { s with outbox := s.outbox ++ [.blockFinalized block world.stakeSet] }
  require (world.sentinelsReached = true) .network
  update fun s =>
    { s with
      outbox := s.outbox ++ [.clear txId]
      pending := s.pending.setState txId (.committed tx block.currentHash)
      preloadTasks := s.preloadTasks.erase txId
      signatures := s.signatures.erase txId }
  pure (.finalized txId)

/-- `Finalizer::retry_finalize_from_collected`: a failed replay is logged. -/
def retryFinalizeFromCollected (txId : String) : FinalizerM Unit := do
  let s ← getState
  match firstSignature s txId with
  | none => pure ()
  | some (voter, sig) =>
    let _ ← attempt (tryFinalizeOptimistic C cfg world txId sig voter)
    pure ()

/-- The registry part of `handle_preload`: a held transaction is replaced in
three states, a terminal or finalizing one is left alone, a new one is
registered and preloaded. -/
def registerPreload (pending : PendingRegistry) (tx : Transaction) : PendingRegistry :=
  match pending.lookup tx.id with
  | none => pending.insert tx.id (.new (.preloaded tx))
  | some entry =>
    match entry.state with
    | .pending => pending.setState tx.id (.preloaded tx)
    | .preloaded _ => pending.setState tx.id (.preloaded tx)
    | .executing _ => pending.setState tx.id (.preloaded tx)
    | .validated _ validation =>
      pending.setState tx.id (.validated tx validation)
    | _ => pending

/-- `Finalizer::handle_preload`. The envelope is not looked at. -/
def handlePreload (message : Message) : FinalizerM FinalizerReply := do
  let tx ← ofOption (C.decodeTransaction message.body) .encoding
  HandlerM.lift (finalizeAuthority C cfg world tx)
  update fun s =>
    { s with
      preloadTasks := s.preloadTasks.insert tx.id (C.rmpTransaction tx)
      pending := registerPreload s.pending tx }
  retryFinalizeFromCollected C cfg world tx.id
  pure .acknowledged

def handleSignature (message : Message) : FinalizerM FinalizerReply := do
  let vote ← ofOption (C.decodeTransactionSignature message.body) .encoding
  let txId := vote.txId
  let voter ← HandlerM.lift (authenticateSignatureMessage C world message)
  HandlerM.lift (checkExecutorSignature C voter vote)
  let sig := { vote with currentStake := currentStakeForVoter world voter }
  let s ← getState
  HandlerM.lift (finalizeAuthorityForId C cfg world s.pending txId)
  addSignature txId voter sig
  let s ← getState
  if (s.votes txId).keys.card = 1 then
    tryFinalizeOptimistic C cfg world txId sig voter
  else pure .acknowledged

end Finalizer

inductive FinalizerMessage where
  | preload (message : Message)
  | sign (message : Message)

structure FinalizerDelivery where
  world : FinalizerWorld
  message : FinalizerMessage

def handleDelivery (C : Codec) (cfg : FinalizerConfig)
    (d : FinalizerDelivery) : FinalizerM FinalizerReply :=
  match d.message with
  | .preload message => handlePreload C cfg d.world message
  | .sign message => handleSignature C cfg d.world message

def finalizerStep (C : Codec) (cfg : FinalizerConfig) (s : FinalizerState)
    (d : FinalizerDelivery) : FinalizerState :=
  ((handleDelivery C cfg d).exec s).2

end Pneumatic
