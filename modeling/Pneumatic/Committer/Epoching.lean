import Mathlib.Data.Finset.Max
import Mathlib.Order.Lex
import Pneumatic.Committer.Finalizing
import Pneumatic.Core.TransactionPool

/-!
# The epoch leader

`epoching.rs` with the parts of `epoch/` it drives: the boundary detector, the
guarded advance, and the loop in which the leader takes a batch from its queue,
builds one block per transaction and sends each through the Commit path itself.

All blocks of a batch are built from one copy of the token's chain, so they all
name the same parent, and none of them claims a hash. An error of one of the
commits is logged and the loop goes on; an error while proposing ends it.

A `LeaderState` is a Committer with what the leader path adds. Its last field is
a history that no function reads: the calls of
`check_and_commit_transaction_results`, with the stakes each of them left.
-/

namespace Pneumatic

open Handler HandlerM

structure Epoch where
  startTimestamp : Int
  endTimestamp : Int
  epochNumber : Nat
  leaderPublicKey : Bytes
deriving DecidableEq

structure EpochBoundaryDetector where
  currentEpoch : Epoch
  previousLeader : Option Bytes
deriving DecidableEq

/-- What a Committer needs to lead. `select` is its leader selector, and the
three fields after it are its block proposer's. -/
structure LeaderSetup where
  publicKey : Bytes
  epochDuration : Int
  select : StakeSet → Nat → Bytes → Bytes
  leaderAddress : Bytes
  leaderStake : Nat
  leaderHash : Bytes

namespace EpochBoundaryDetector

def isEpochExpired (detector : EpochBoundaryDetector) (now : Int) : Bool :=
  detector.currentEpoch.endTimestamp ≤ now

def currentLeader (detector : EpochBoundaryDetector) : Option Bytes :=
  if detector.currentEpoch.leaderPublicKey.isEmpty then none
  else some detector.currentEpoch.leaderPublicKey

def advanceToNewEpoch (setup : LeaderSetup) (stakes : StakeSet)
    (prevBlockHash : Bytes) (detector : EpochBoundaryDetector) :
    EpochBoundaryDetector :=
  let now := detector.currentEpoch.endTimestamp
  let number := detector.currentEpoch.epochNumber + 1
  { previousLeader :=
      if detector.currentEpoch.leaderPublicKey.isEmpty then
        detector.previousLeader
      else some detector.currentEpoch.leaderPublicKey
    currentEpoch :=
      { startTimestamp := now
        endTimestamp := now + setup.epochDuration
        epochNumber := number
        leaderPublicKey := setup.select stakes number prevBlockHash } }

end EpochBoundaryDetector

/-- What the surroundings answer during one token's part of the epoch loop: the
clock, the two snapshot saves, the clock again for each block, and the answers
while each commit is processed. -/
structure TurnWorld where
  now : Int
  saveStakeSnapshot : Nat → StakeSet → Bool
  saveExecutorSet : Nat → StakeSet → Bool
  blockTime : Nat → Int
  commit : Nat → CommitterWorld

/-- A call of `check_and_commit_transaction_results`: the commit, the verified
proposer, whether the leader loop made it, the Committer it met and the stakes
it left. -/
structure CommitCall where
  commit : TransactionCommit
  proposer : Bytes
  own : Bool
  met : CommitterState
  stakes : StakeSet

structure LeaderState where
  base : CommitterState
  queue : TransactionPool
  detector : Option EpochBoundaryDetector
  epochNumber : Nat
  calls : List CommitCall

abbrev LeaderM := HandlerM LeaderState CommitterError

variable (C : Codec) (P : ShieldedPrimitives) (cfg : CommitterConfig) (setup : LeaderSetup)

section World

variable (world : TurnWorld)

/-- `ChainState::last_hash_in`, empty for a chain that is not valid. -/
def lastHashIn (chain : List Block) : Bytes := (currentChainState C chain).getD []

/-- The least of the cached token ids, as the sort orders them. -/
def firstTokenId (tokens : TokenMap) : Option Bytes :=
  match (tokens.keys.image (List.map UInt8.toNat)).min with
  | none => none
  | some id => some (id.map UInt8.ofNat)

def canonicalChainTip (tokens : TokenMap) : Bytes :=
  match (firstTokenId tokens).bind tokens.lookup with
  | none => []
  | some token => lastHashIn C token.chain

/-- `Committer::advance_epoch_to`. When a snapshot is not saved the epoch has
advanced all the same. -/
def advanceEpochTo : LeaderM (Option Bytes) := do
  let st ← getState
  let detector ← ofOption st.detector .internalSerialization
  let number := detector.currentEpoch.epochNumber + 1
  if number ≤ st.epochNumber then pure none
  else do
    let advanced := detector.advanceToNewEpoch setup st.base.stakes
      (canonicalChainTip C st.base.tokens)
    update fun st => { st with detector := some advanced, epochNumber := number }
    require (world.saveStakeSnapshot number st.base.stakes = true) (.snapshotPersist number .stake)
    require (world.saveExecutorSet number st.base.stakes = true) (.snapshotPersist number .executor)
    pure (some advanced.currentEpoch.leaderPublicKey)

/-- Step 1 of `propose_blocks`. -/
def advanceIfExpired : LeaderM Unit := do
  let st ← getState
  match st.detector with
  | none => pure ()
  | some detector =>
    if detector.isEpochExpired world.now then do
      let _ ← advanceEpochTo C setup world
      pure ()
    else pure ()

/-- Step 2 of `propose_blocks`. -/
def LeaderState.isLeader (st : LeaderState) : Bool :=
  match st.detector with
  | none => false
  | some detector => detector.currentLeader == some setup.publicKey

def PendingRegistry.getTransaction (pending : PendingRegistry) (txId : String) :
    Except CommitterError Transaction :=
  match pending.lookup txId with
  | none => .error (.core (.registry (.notFound txId)))
  | some entry =>
    match entry.state with
    | .validated tx _ => .ok tx
    | _ => .error (.core (.registry (.notValidated txId)))

/-- The carrier the proposer wraps a transaction in: no Finalizer, no votes. -/
def leaderCarrier (tx : Transaction) : SignedTransaction where
  transactionId := tx.id
  transaction := tx
  totalStake := 0
  totalVoters := 0
  leaderAddress := setup.leaderAddress
  leaderStake := setup.leaderStake
  leaderHash := setup.leaderHash
  finalizerAddr := []
  finalizerSig :=
    { transactionId := []
      envId := []
      transactionHash := []
      signature := []
      currentStake := 0 }
  executorSigs := ∅
  proposerKey := setup.leaderAddress
  shielded := none

/-- `BlockProposer::propose_batch`. What was dequeued stays dequeued when a
transaction is missing. -/
def proposeBatch (tokenId : Bytes) (limit : Nat) : LeaderM (List Transaction) := do
  let st ← getState
  let (txIds, queue) := st.queue.dequeueForLeader tokenId limit
  update fun st => { st with queue := queue }
  HandlerM.lift (txIds.mapM st.base.pending.getTransaction)

def fromTransaction (signed : SignedTransaction) (token : Token)
    (epochNumber : Nat) (time : Int) : Block where
  signedTrans := signed
  tokenMetadata := token.metadata
  previousHash := lastHashIn C token.chain
  currentHash := []
  timestamp := time
  finalityStatus := .optimistic
  proposerKey := signed.proposerKey
  epochNumber := epochNumber

/-- The commit of one transaction of a batch; `index` counts the blocks built
before it. -/
def leaderCommit (tokenId : Bytes) (token : Token) (epochNumber index : Nat)
    (tx : Transaction) : TransactionCommit where
  transId := asBytes tx.id
  tokenId := tokenId
  envId := cfg.environmentId
  proposedBlock := fromTransaction C (leaderCarrier setup tx) token epochNumber
    (world.blockTime index)

/-- Step 4 of `propose_blocks`: a transaction that is routed to a Finalizer is
skipped. -/
def leaderCommits (tokenId : Bytes) (token : Token) (epochNumber : Nat) :
    Nat → List Transaction → List TransactionCommit
  | _, [] => []
  | index, tx :: rest =>
    if tx.selection.isSome then leaderCommits tokenId token epochNumber index rest
    else
      leaderCommit C cfg setup world tokenId token epochNumber index tx ::
        leaderCommits tokenId token epochNumber (index + 1) rest

def proposeBlocks (tokenId : Bytes) (limit : Nat) : LeaderM (List TransactionCommit) := do
  advanceIfExpired C setup world
  let st ← getState
  if st.isLeader setup = false then pure []
  else do
    match ← proposeBatch tokenId limit with
    | [] => pure []
    | batch => do
      let token ← ofOption (st.base.tokens.lookup tokenId) (.tokenNotFound tokenId false)
      pure (leaderCommits C cfg setup world tokenId token st.epochNumber 0 batch)

/-- A validated transaction leaves the queue when it is committed. -/
def queueAfter (st : LeaderState) (txId : String)
    (verdict : Except CommitterError Unit) : TransactionPool :=
  match verdict, (st.base.pending.lookup txId).map PendingTransaction.state with
  | .ok (), some (.validated _ _) => st.queue.remove txId
  | _, _ => st.queue

/-- A call of `check_and_commit_transaction_results`. -/
def commitCall (answers : CommitterWorld) (own : Bool)
    (commit : TransactionCommit) (key : Bytes) : LeaderM Unit := fun st =>
  let answers := { answers with currentEpochNumber := st.epochNumber }
  let (verdict, base) :=
    (checkAndCommitTransactionResults C P cfg answers commit key).exec st.base
  (verdict,
    { st with
      base := base
      queue := queueAfter st commit.txId verdict
      calls := st.calls ++ [⟨commit, key, own, st.base, base.stakes⟩] })

/-- The commits of a batch in their order; an error is logged and forgotten. -/
def commitProposals : Nat → List TransactionCommit → LeaderM Unit
  | _, [] => pure ()
  | index, commit :: rest => do
    let _ ← attempt (commitCall C P cfg (world.commit index) true commit setup.publicKey)
    commitProposals (index + 1) rest

/-- One token's turn in `run_epoch_loop`. -/
def epochTurn (limit : Nat) (tokenId : Bytes) : LeaderM Unit := do
  let commits ← proposeBlocks C cfg setup world tokenId limit
  commitProposals C P cfg setup world 0 commits

end World

/-- What the surroundings answer during a run of the loop: the order in which
the token cache is iterated, which its hashing decides, and the answers during
each token's turn. -/
structure LoopWorld where
  order : Finset Bytes → List Bytes
  order_nodup : ∀ ids, (order ids).Nodup
  mem_order : ∀ ids id, id ∈ order ids ↔ id ∈ ids
  turn : Bytes → TurnWorld

/-- Turns up to the first that fails to propose. -/
def epochTurns (limit : Nat) (turn : Bytes → TurnWorld) : List Bytes → LeaderM Unit
  | [] => pure ()
  | tokenId :: rest => do
    epochTurn C P cfg setup (turn tokenId) limit tokenId
    epochTurns limit turn rest

def runEpochLoop (world : LoopWorld) : LeaderM Unit := do
  let st ← getState
  epochTurns C P cfg setup 10 world.turn (world.order st.base.tokens.keys)

/-- The Commit of a message that passes the gates of `handle_message` and
`handle_commit`. -/
def admittedCommit (s : CommitterState) (d : CommitterDelivery) : Option TransactionCommit :=
  match d.action, C.decodeTransactionCommit d.message.body with
  | .commit, some commit =>
    match authenticateSender C d.world d.message, validateTransactionMessage cfg commit,
      commitAuthority C d.world s.pending commit d.message.publicKey with
    | .ok (), .ok (), .ok () => some commit
    | _, _, _ => none
  | _, _ => none

/-- A message to a Committer that can lead. -/
def deliver (st : LeaderState) (d : CommitterDelivery) : LeaderState :=
  match admittedCommit C cfg st.base d with
  | some commit =>
    ((commitCall C P cfg d.world false commit d.message.publicKey).exec st).2
  | none =>
    let answers := { d.world with currentEpochNumber := st.epochNumber }
    { st with base := committerStep C P cfg st.base { d with world := answers } }

/-- What other roles on the host, and the other actions of this one, write
between two steps. -/
structure Elsewhere where
  queue : TransactionPool
  pending : PendingRegistry
  gas : GasMap
  shielded : Finmap (fun _ : String => ShieldedTransaction)
  stakes : StakeSet
  detector : Option EpochBoundaryDetector
  epochNumber : Nat

inductive LeaderInput where
  | message (d : CommitterDelivery)
  | epochLoop (world : LoopWorld)
  | elsewhere (e : Elsewhere)

def leaderStep (st : LeaderState) : LeaderInput → LeaderState
  | .message d => deliver C P cfg st d
  | .epochLoop world => ((runEpochLoop C P cfg setup world).exec st).2
  | .elsewhere e =>
    { st with
      base := { st.base with
        pending := e.pending, gas := e.gas, shielded := e.shielded
        stakes := e.stakes }
      queue := e.queue
      detector := e.detector
      epochNumber := e.epochNumber }

end Pneumatic
