import Mathlib.Algebra.Order.Round
import Mathlib.Data.Rat.Floor
import Pneumatic.Committer.Finalizing

/-!
# Confirmation votes

`quoruming.rs`, the role gate of `committer.rs`, and the part of
`handle_block_finalized` that `Finalizing` leaves out: the stake set a message
brings is cached before the block is looked at, votes that came before it are
replayed, and the Committer votes for each block it appends.

A vote names its voter in its body. `handle_message` authenticates the key of
the envelope, and the vote handler does not compare the two.

The announcements only send, so they write none of the state. Its last field is
a history that no function reads: for each `BlockConfirmed` that was
authenticated and decoded, the block and the key of the envelope.
-/

namespace Pneumatic

open Handler HandlerM

inductive AllowedSenders where
  | exact (role : NodeRegistryType)
  | selfOnly
  | anyRegistered
deriving DecidableEq

def allowedSendersFor (action : String) : AllowedSenders :=
  if action = "Commit" ∨ action = "BlockFinalized" then .exact .finalizer
  else if action = "DistributeToken" ∨ action = "DistributeBlock" then
    .exact .committer
  else if action = "BlockConfirmed" then .anyRegistered
  else if action = "BlockQuorumReached" then .exact .committer
  else if action = "EpochReconcile" then .selfOnly
  else .exact .committer

/-- What a Committer knows of itself and of its environment's quorum. -/
structure VotingSetup where
  publicKey : Bytes
  configuredPercentage : ℚ

/-- The configured percentage rounded to a whole one, halves up. -/
def VotingSetup.quorumPercentage (setup : VotingSetup) : Nat :=
  (round setup.configuredPercentage).toNat

/-- How the bodies of the two votes are read. -/
structure VoteCodec where
  decodeVote : Bytes → Option (Bytes × Bytes)
  decodeBlockHash : Bytes → Option Bytes

/-- What the surroundings answer; the order is the one in which the token cache
is iterated. -/
structure VotingWorld where
  answers : CommitterWorld
  order : Finset Bytes → List Bytes

/-- A Committer with its votes. -/
structure VotingState where
  base : CommitterState
  stakeSetCache : Finmap (fun _ : Bytes => StakeSet)
  confirmationVotes : Finmap (fun _ : Bytes => Finset Bytes × Nat)
  pendingConfirmationVotes : Finmap (fun _ : Bytes => List Bytes)
  confirmers : List (Bytes × Bytes)

abbrev VotingM := HandlerM VotingState CommitterError

/-- A part of a handler that works on the Committer below the votes. -/
def onBase {α : Type} (m : CommitterM α) : VotingM α := fun st =>
  ((m.exec st.base).1, { st with base := (m.exec st.base).2 })

def u64Max : Nat := 2 ^ 64 - 1

def saturatingAdd (a b : Nat) : Nat := min (a + b) u64Max

/-- `StakeSet::total_stake`; a saturating sum does not depend on the order. -/
def StakeSet.totalStake (stakers : StakeSet) : Nat :=
  min (stakers.entries.map fun entry => entry.2).sum u64Max

def StakeSet.filter (stakers : StakeSet) (keep : Bytes → Nat → Bool) : StakeSet where
  entries := stakers.entries.filter fun entry => keep entry.1 entry.2
  nodupKeys := by
    obtain ⟨⟨entries⟩, hnodup⟩ := stakers
    exact List.NodupKeys.sublist List.filter_sublist hnodup

variable (C : Codec) (P : ShieldedPrimitives) (cfg : CommitterConfig)
  (setup : VotingSetup) (votes : VoteCodec) (world : VotingWorld)

def authenticateMessage (roles : Bytes → List NodeRegistryType)
    (message : WireMessage) : Except CommitterError Unit :=
  match authenticateEnvelope C roles message.toMessage with
  | .error _ => .error (.unauthenticatedSender message.publicKey)
  | .ok known =>
    match allowedSendersFor message.action with
    | .exact expected =>
      if expected ∈ known then .ok ()
      else .error (.unauthorizedRole message.publicKey known)
    | .selfOnly =>
      if message.publicKey ≠ setup.publicKey then
        .error (.notSelf message.publicKey)
      else .ok ()
    | .anyRegistered => .ok ()

/-- The voters of a block and their stake with one more vote; a voter counts
once. -/
def addVote (stakes : StakeSet) (voterKey : Bytes) (entry : Finset Bytes × Nat) :
    Finset Bytes × Nat :=
  if voterKey ∈ entry.1 then entry
  else (insert voterKey entry.1, saturatingAdd entry.2 (stakes.getStake voterKey))

def accumulateVote (blockHash voterKey : Bytes) : VotingM (Option Nat) := do
  let st ← getState
  match st.stakeSetCache.lookup blockHash with
  | none => pure none
  | some stakes => do
    let entry := addVote stakes voterKey ((st.confirmationVotes.lookup blockHash).getD (∅, 0))
    update fun st => { st with
      confirmationVotes := st.confirmationVotes.insert blockHash entry }
    pure (some entry.2)

def castConfirmationVote (blockHash voterKey : Bytes) : VotingM Unit := do
  match ← accumulateVote blockHash voterKey with
  | some _ => pure ()
  | none =>
    update fun st => { st with
      pendingConfirmationVotes := st.pendingConfirmationVotes.insert blockHash
        ((st.pendingConfirmationVotes.lookup blockHash).getD [] ++ [voterKey]) }

/-- The loop of `replay_pending_votes`. -/
def replayVotes (blockHash : Bytes) : List Bytes → VotingM Unit
  | [] => pure ()
  | voterKey :: rest => do
    let _ ← accumulateVote blockHash voterKey
    replayVotes blockHash rest

def replayPendingVotes (blockHash : Bytes) : VotingM Unit := do
  let st ← getState
  update fun st => { st with
    pendingConfirmationVotes := st.pendingConfirmationVotes.erase blockHash }
  replayVotes blockHash ((st.pendingConfirmationVotes.lookup blockHash).getD [])

def VotingState.localQuorumReached (st : VotingState) (blockHash : Bytes) : Option Bool :=
  match st.stakeSetCache.lookup blockHash with
  | none => none
  | some stakes =>
    if stakes.totalStake = 0 then some false
    else
      match st.confirmationVotes.lookup blockHash with
      | none => none
      | some (_, cumulative) =>
        some (stakes.totalStake * setup.quorumPercentage ≤ cumulative * 100)

def handleBlockConfirmedVote (message : WireMessage) : VotingM Unit := do
  let (blockHash, voterKey) ← ofOption (votes.decodeVote message.body) .deserialization
  update fun st => { st with
    confirmers := st.confirmers ++ [(blockHash, message.publicKey)] }
  castConfirmationVote blockHash voterKey

def setFinalityStatus (blockHash : Bytes) (status : FinalityStatus) : List Block → List Block
  | [] => []
  | block :: rest =>
    if block.currentHash = blockHash then
      { block with finalityStatus := status } :: rest
    else block :: setFinalityStatus blockHash status rest

/-- The id of the first token in the iteration whose tip has this hash. -/
def tokenWithTip (tokens : TokenMap) (blockHash : Bytes) : Option Bytes :=
  (world.order tokens.keys).findSome? fun key =>
    match tokens.lookup key with
    | none => none
    | some token =>
      if token.chain.getLast?.map Block.currentHash = some blockHash then
        some token.id
      else none

/-- `Committer::handle_block_quorum_reached`: a claim the own votes do not
support changes nothing. -/
def handleBlockQuorumReached (message : WireMessage) : VotingM Unit := do
  let blockHash ← ofOption (votes.decodeBlockHash message.body) .deserialization
  let st ← getState
  if st.localQuorumReached setup blockHash = some true then
    match tokenWithTip world st.base.tokens blockHash with
    | none => pure ()
    | some tokenId => do
      let token ← ofOption (st.base.tokens.lookup tokenId) (.tokenNotFound tokenId false)
      update fun st => { st with
        base := { st.base with
          tokens := st.base.tokens.insert tokenId
            { token with chain := setFinalityStatus blockHash .confirmed token.chain } } }
  else pure ()

/-- The stake set a message brings replaces the one cached for the block. -/
def cacheStakeSet (blockHash : Bytes) (stakeSet : Option StakeSet) : VotingM Unit :=
  match stakeSet with
  | none => pure ()
  | some stakes => do
    update fun st => { st with
      stakeSetCache := st.stakeSetCache.insert blockHash stakes }
    replayPendingVotes blockHash

/-- The loop over the committed blocks, with the Committer's own votes. -/
def voteFinalized : List Block → VotingM Unit
  | [] => pure ()
  | block :: rest => do
    match ← onBase (poolApply C P cfg block) with
    | .applied => onBase (poolSave world.answers)
    | _ => pure ()
    castConfirmationVote block.currentHash setup.publicKey
    voteFinalized rest

/-- `Committer::handle_block_finalized`, votes included. -/
def finalizeBlock (message : WireMessage) : VotingM Unit := do
  let block ← ofOption (C.decodeBlock message.body) .deserialization
  let tokenId := block.signedTrans.transaction.tokenId
  cacheStakeSet block.currentHash message.stakeSet
  let st ← getState
  HandlerM.lift (gossipAuthority C world.answers st.base.pending block message.publicKey)
  let token ← onBase (warmToken world.answers tokenId)
  match ← onBase (appendToChain C tokenId token block) with
  | .linkageMismatch => onBase (bufferOrphan world.answers tokenId block)
  | .invalidHash => fail .invalidBlockHash
  | .appended => do
    let promoted ← onBase (replayOrphanBlocks C world.answers block.currentHash tokenId)
    voteFinalized C P cfg setup world (block :: promoted)

/-- `Committer::handle_message` for the three actions of the vote; the others do
not touch it. -/
def handleVoting (message : WireMessage) : VotingM Unit := do
  HandlerM.lift (authenticateMessage C setup world.answers.roles message)
  if message.action = "BlockFinalized" then
    finalizeBlock C P cfg setup world message
  else if message.action = "BlockConfirmed" then
    handleBlockConfirmedVote votes message
  else if message.action = "BlockQuorumReached" then
    handleBlockQuorumReached setup votes world message
  else pure ()

structure VotingDelivery where
  world : VotingWorld
  message : WireMessage

def votingStep (st : VotingState) (d : VotingDelivery) : VotingState :=
  ((handleVoting C P cfg setup votes d.world d.message).exec st).2

end Pneumatic
