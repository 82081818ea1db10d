import Pneumatic.Committer.Quoruming
import Pneumatic.Finalizer.Finalizer
import Pneumatic.Shielded.RoleView

/-!
# The Finalizer's shielded handlers

`finalizer/shielded.rs` and the stake-weighted half of `signature_collector.rs`. A
shielded transfer has no entry in the pending registry. A vote request records its bytes
and votes for them; votes are collected under the id they name; and each vote that is
newly collected asks whether the votes for its id carry the quorum, and if so tries to
finalize. A vote request does not ask.

The votes of a transaction are a hash map in the source. Where the source walks it, the
walk is a parameter that lists the entries in some order.
-/

namespace Pneumatic

open Handler HandlerM

/-- An order in which the entries of a hash map come. -/
structure MapOrder where
  list : VoteMap → List (Bytes × TransactionSignature)
  mem_list : ∀ {votes key vote}, (key, vote) ∈ list votes ↔ votes.lookup key = some vote
  nodup : ∀ votes, ((list votes).map Prod.fst).Nodup

/-- What the shielded handlers read beside a `FinalizerConfig`. `quorumPct` is the quorum
percentage, rounded as the source does before each use. -/
structure ShieldedConfig extends FinalizerConfig where
  primitives : ShieldedPrimitives
  env : EnvironmentMetadata
  shardCount : Nat
  quorumPct : Nat
  decodeShielded : Bytes → Option ShieldedTransaction
  order : MapOrder

/-- Beside the view of the pool, whether the envelope of a vote can be packaged. -/
structure ShieldedWorld extends FinalizerWorld where
  poolView : ShieldedPoolView
  votePackaged : Bool

inductive ShieldedFault where
  | core (e : PneumaticError)
  | voteSignature (key : Bytes) (providerFailed : Bool)
  | voteSigning
  | conflicting (txId : String)
  | sharded (shardCount : Nat)
  | noSnapshot
  | emptyResponsible (txId : String)
  | notCollected (txId : String)
  | shortfall (txId : String) (arriving total members : Nat)
  | notRecorded (txId : String)
  | otherHash (voter : Bytes) (txId : String)
deriving DecidableEq

/-- A Finalizer with its recorded transfers and the votes it has sent. -/
structure ShieldedState where
  base : FinalizerState
  shieldedTransactions : Finmap (fun _ : String => Bytes)
  votesSent : List TransactionSignature

abbrev ShieldedM := HandlerM ShieldedState ShieldedFault

/-- A part of a handler that works on the Finalizer proper. -/
def inFinalizer {α : Type} (m : FinalizerM α) : ShieldedM α :=
  zoom ShieldedState.base (fun s base => { s with base := base }) .core m

/-- `ResponsibleSet`: stakers that hold stake. -/
structure ResponsibleSet where
  members : StakeSet
  positive : ∀ entry ∈ members.entries, 0 < entry.2

namespace ResponsibleSet

def fromStakeSet (stakers : StakeSet) : ResponsibleSet where
  members := stakers.filter fun _ stake => decide (0 < stake)
  positive := fun _ hentry => of_decide_eq_true (Multiset.mem_filter.mp hentry).2

/-- `ResponsibleSet::total_stake`, a plain sum of machine integers. -/
def totalStake (responsible : ResponsibleSet) : Nat :=
  (responsible.members.entries.map fun entry => entry.2).sum % 2 ^ 64

def stakeOf (responsible : ResponsibleSet) (key : Bytes) : Option Nat :=
  responsible.members.lookup key

def len (responsible : ResponsibleSet) : Nat := responsible.members.keys.card

end ResponsibleSet

structure ExecutorSignature where
  executorPublicKey : Bytes
  signature : Bytes
  stake : Nat
deriving DecidableEq

structure ReconciledSignatures where
  executorSignatures : List ExecutorSignature
  winningFinalizer : Bytes
  conflictResolved : Bool
deriving DecidableEq

section Shielded

variable (C : Codec) (cfg : ShieldedConfig) (world : ShieldedWorld)

def resolveStakeMetrics : Nat × Nat :=
  match world.stakeSet with
  | some stakers => (stakers.totalStake, stakers.keys.card % 2 ^ 32)
  | none => (0, 0)

def responsibleSet : Except ShieldedFault ResponsibleSet :=
  if 1 < cfg.shardCount then .error (.sharded cfg.shardCount)
  else
    match world.stakeSet with
    | none => .error .noSnapshot
    | some stakers => .ok (.fromStakeSet stakers)

/-- `SignatureCollector::check_stake_quorum`, on the votes collected. -/
def checkStakeQuorum (votes : VoteMap) (totalStake : Nat) : Bool :=
  let admitted := ((cfg.order.list votes).map fun entry => entry.2.currentStake).sum
  if totalStake = 0 then false
  else decide (totalStake * cfg.quorumPct ≤ admitted * 100)

/-- The loop of `reconcile_signatures`: the candidates up to the first that takes the
stake over the threshold, and the key of that one. -/
def accumulate (total quorumPct : Nat) :
    Nat → List ExecutorSignature → List ExecutorSignature × Bytes
  | _, [] => ([], [])
  | cumulative, candidate :: rest =>
    let cumulative := (cumulative + candidate.stake) % 2 ^ 64
    if total * quorumPct ≤ cumulative * 100 then
      ([candidate], candidate.executorPublicKey)
    else
      let later := accumulate total quorumPct cumulative rest
      (candidate :: later.1, later.2)

/-- The votes of responsible keys, at the stake the set gives them. -/
def candidates (votes : VoteMap) (responsible : ResponsibleSet) : List ExecutorSignature :=
  (cfg.order.list votes).filterMap fun entry =>
    (responsible.stakeOf entry.1).map fun stake =>
      { executorPublicKey := entry.1, signature := entry.2.signature, stake := stake }

/-- `SignatureCollector::reconcile_signatures`. The sort keeps the order of equal
stakes. -/
def reconcileSignatures (txId : String) (collected : Option VoteMap)
    (responsible : ResponsibleSet) : Except ShieldedFault ReconciledSignatures :=
  if responsible.members.entries = 0 then .error (.emptyResponsible txId)
  else
    match collected with
    | none => .error (.notCollected txId)
    | some votes =>
      let sorted := (candidates cfg votes responsible).insertionSort fun a b => b.stake ≤ a.stake
      let won := accumulate responsible.totalStake cfg.quorumPct 0 sorted
      if won.2.isEmpty then
        .error (.shortfall txId ((sorted.map ExecutorSignature.stake).sum % 2 ^ 64)
          responsible.totalStake responsible.len)
      else .ok ⟨won.1, won.2, true⟩

def ShieldedTransaction.placeholderTransaction (stx : ShieldedTransaction) : Transaction where
  id := stx.id
  action := "ShieldedTransfer"
  tokenId := stx.tokenId
  bid := none
  sequenceNumber := 0
  sender := []
  receiver := []
  amount := none
  timestamp := 0
  resultHash := []
  senderSignature := []
  payload := []
  gasLimit := 0
  resultData := []
  selection := none

def buildSignedTransactionShielded (reconciled : ReconciledSignatures)
    (stx : ShieldedTransaction) (totalStake totalVoters : Nat) : SignedTransaction :=
  { transactionId := stx.id
    transaction := stx.placeholderTransaction
    totalStake := totalStake
    totalVoters := totalVoters
    leaderAddress := cfg.leaderAddress
    leaderStake := cfg.leaderStake
    leaderHash := cfg.leaderHash
    finalizerAddr := cfg.finalizerAddr
    finalizerSig := finalizerPlaceholderSig stx.placeholderTransaction
    executorSigs := reconciled.executorSignatures.foldl
      (fun sigs won => sigs.insert won.executorPublicKey
        { transactionId := asBytes stx.id
          envId := stx.tokenId
          transactionHash := won.signature
          signature := won.signature
          currentStake := won.stake }) ∅
    proposerKey := cfg.leaderAddress
    shielded := some stx }

def authenticateShieldedMessage (roles : Bytes → List NodeRegistryType)
    (message : Message) : Except PneumaticError Unit :=
  match authenticateEnvelope C roles message with
  | .error (.signature key providerFailed) =>
    .error (.cryptoError (.envelope key providerFailed))
  | .error (.unregistered key) => .error (.registry (.unregistered key))
  | .ok known =>
    if .finalizer ∈ known then .ok ()
    else .error (.registry (.notFinalizer message.publicKey known))

/-- The inner check of `handle_shielded_vote`: the vote signs its own hash. -/
def checkVoteSignature (voter : Bytes) (vote : TransactionSignature) : Except ShieldedFault Unit :=
  match C.checkSignature vote.signature voter vote.transactionHash with
  | none => .error (.voteSignature voter true)
  | some false => .error (.voteSignature voter false)
  | some true => .ok ()

/-- A collected vote that is not for the recorded bytes, if there is one. -/
def otherVote (votes : VoteMap) (hash : Bytes) : Option Bytes :=
  ((cfg.order.list votes).find? fun entry => entry.2.transactionHash != hash).map Prod.fst

/-- `Finalizer::try_finalize_shielded`, steps 4 to 6: the block is built, signed and sent,
and what was kept for the transfer is dropped. -/
def commitShielded (txId : String) (reconciled : ReconciledSignatures)
    (stx : ShieldedTransaction) : ShieldedM FinalizerReply := do
  let metrics := resolveStakeMetrics world
  let signed ← inFinalizer (signFinalizerBlock C cfg.toFinalizerConfig world.toFinalizerWorld
    (buildSignedTransactionShielded cfg reconciled stx metrics.1 metrics.2))
  let block := createBlockOptimistic C cfg.toFinalizerConfig world.toFinalizerWorld signed
    (resolvePreviousHash world.toFinalizerWorld stx.tokenId)
  require (world.committersReached = true) (.core .network)
  update fun s =>
    { s with base.outbox := s.base.outbox ++
        [.commit
          { transId := asBytes txId
            tokenId := stx.tokenId
            envId := cfg.envId
            proposedBlock := block }] }
  require (world.gossipReached = true) (.core .network)
  update fun s =>
    { s with
      base.outbox := s.base.outbox ++ [.blockFinalized block world.stakeSet]
      base.signatures := s.base.signatures.erase txId
      shieldedTransactions := s.shieldedTransactions.erase txId }
  pure (.finalized txId)

def tryFinalizeShielded (txId : String) : ShieldedM FinalizerReply := do
  let responsible ← HandlerM.lift (responsibleSet cfg world)
  let s ← getState
  let collected := s.base.signatures.lookup txId
  let reconciled ← HandlerM.lift (reconcileSignatures cfg txId collected responsible)
  let bytes ← ofOption (s.shieldedTransactions.lookup txId) (.notRecorded txId)
  let stx ← ofOption (cfg.decodeShielded bytes) (.core .encoding)
  HandlerM.lift <| match collected.bind (otherVote cfg · (stx.hash C)) with
    | some voter => .error (.otherHash voter txId)
    | none => .ok ()
  commitShielded C cfg world txId reconciled stx

/-- `Finalizer::handle_sign_shielded`: a vote request. -/
def handleSignShielded (message : Message) : ShieldedM FinalizerReply := do
  HandlerM.lift ((authenticateShieldedMessage C world.roles message).mapError .core)
  let stx ← ofOption (cfg.decodeShielded message.body) (.core .encoding)
  HandlerM.lift ((validateShieldedAdvisory cfg.primitives cfg.env world.poolView
    stx).mapError .core)
  let s ← getState
  require (∀ held ∈ s.shieldedTransactions.lookup stx.id, held = C.rmpShielded stx)
    (.conflicting stx.id)
  update fun s =>
    { s with shieldedTransactions :=
        s.shieldedTransactions.insert stx.id (C.rmpShielded stx) }
  let signature ← ofOption (world.signData (stx.hash C)) .voteSigning
  require (world.votePackaged = true) (.core .encoding)
  update fun s =>
    { s with votesSent := s.votesSent ++
        [{ transactionId := asBytes stx.id
           envId := asBytes cfg.envId
           transactionHash := stx.hash C
           signature := signature
           currentStake := currentStakeForVoter world.toFinalizerWorld message.publicKey }] }
  pure .acknowledged

/-- The checks of `handle_shielded_vote`: the id a vote is for, who cast it, and the vote
at the stake of the snapshot. -/
def admitVote (message : Message) :
    Except ShieldedFault (String × Bytes × TransactionSignature) := do
  let voter := message.publicKey
  (authenticateShieldedMessage C world.roles message).mapError .core
  match C.decodeTransactionSignature message.body with
  | none => .error (.core .encoding)
  | some vote =>
    checkVoteSignature C voter vote
    pure (vote.txId, voter,
      { vote with currentStake := currentStakeForVoter world.toFinalizerWorld voter })

def handleShieldedVote (message : Message) : ShieldedM FinalizerReply := do
  let (txId, voter, vote) ← HandlerM.lift (admitVote C world message)
  inFinalizer (addSignature txId voter vote)
  let s ← getState
  if checkStakeQuorum cfg (s.base.votes txId) (resolveStakeMetrics world).1 then
    tryFinalizeShielded C cfg world txId
  else pure .acknowledged

end Shielded

inductive ShieldedMessage where
  | sign (message : Message)
  | vote (message : Message)

structure ShieldedDelivery where
  world : ShieldedWorld
  message : ShieldedMessage

def handleShieldedDelivery (C : Codec) (cfg : ShieldedConfig) (d : ShieldedDelivery) :
    ShieldedM FinalizerReply :=
  match d.message with
  | .sign message => handleSignShielded C cfg d.world message
  | .vote message => handleShieldedVote C cfg d.world message

def shieldedStep (C : Codec) (cfg : ShieldedConfig) (s : ShieldedState)
    (d : ShieldedDelivery) : ShieldedState :=
  ((handleShieldedDelivery C cfg d).exec s).2

end Pneumatic
