import Pneumatic.Committer.Chain
import Pneumatic.Committer.OrphanBuffer
import Pneumatic.Committer.ShieldedPool
import Pneumatic.Core.Messages
import Pneumatic.Core.Pending
import Pneumatic.Lib.Handler

/-!
# The Committer's state

What a `Committer` holds, what its surroundings answer while it handles one
message, and the parts both paths share: the authority checks of `routing.rs`,
the pool's `save`, and `BlockServices::commit_block`.

Besides the source's maps the state carries a log of what happened to the token
chains. No function reads it; it is there to say which blocks were put on a
chain and are still standing after a rollback, which the chains themselves do
not tell once their oldest blocks are trimmed.
-/

namespace Pneumatic

open Handler HandlerM

inductive AppendPath where
  | commit
  | gossip
deriving DecidableEq

structure ChainEntry where
  tokenId : Bytes
  block : Block
  path : AppendPath
deriving DecidableEq

/-- What happens to a token chain. -/
inductive ChainEvent where
  | appended (entry : ChainEntry)
  | rolledBack (tokenId : Bytes) (block : Block)
deriving DecidableEq

/-- Whether an entry is an append of this block to this token. -/
def ChainEntry.isOf (tokenId : Bytes) (block : Block) (entry : ChainEntry) : Bool :=
  entry.tokenId == tokenId && entry.block == block

/-- The standing appends after one more event, newest first. A rollback takes
away the newest append of the block it removes. -/
def standingStep (standing : List ChainEntry) : ChainEvent → List ChainEntry
  | .appended entry => entry :: standing
  | .rolledBack tokenId block => standing.eraseP (ChainEntry.isOf tokenId block)

/-- The appends of a log that were not rolled back. -/
def standing (log : List ChainEvent) : List ChainEntry :=
  log.foldl standingStep []

/-- The parts of the environment and the set-up a Committer reads. -/
structure CommitterConfig where
  environmentId : String
  env : EnvironmentMetadata
  validators : BlockValidators
  /-- `slash_fraction` of the cost model applied to a stake; the source computes
  it with `f64`. -/
  slashAmount : Nat → Nat

/-- What the surroundings answer while one message is handled. The three delta
functions only read and write the data service, so their verdict is all that
comes back. -/
structure CommitterWorld where
  roles : Bytes → List NodeRegistryType
  getToken : Bytes → Option Token
  saveToken : Bytes → Token → Bool
  savePool : ShieldedPoolState → Bool
  getUser : Bytes → Option Nat
  saveUser : Bytes → Nat → Bool
  applyDeployDelta : Transaction → Except CommitterError Unit
  applyStorageDelta : Transaction → Except CommitterError Unit
  applyUpgradeDelta : Transaction → Nat → Except CommitterError Unit
  currentEpochNumber : Nat
  now : Nat

/-- `Committer`, the fields the commit and gossip paths use. `gas` and
`shielded` are the pending registry's gas records and shielded payloads, and
`log` is the history of the chains. -/
structure CommitterState where
  tokens : TokenMap
  pending : PendingRegistry
  gas : GasMap
  shielded : Finmap (fun _ : String => ShieldedTransaction)
  committedTxs : Finmap (fun _ : String => Nat × Bytes)
  candidates : Finmap (fun _ : Bytes × Bytes => List (Block × Bytes))
  stakes : StakeSet
  orphans : OrphanBuffer
  pool : ShieldedPool
  log : List ChainEvent

/-- A Committer at boot: nothing cached, nothing booked, a fresh pool. The
pending registry and the stakes are shared with other components and can hold
anything. -/
structure CommitterState.Boot (s : CommitterState) : Prop where
  committedTxs : s.committedTxs = ∅
  candidates : s.candidates = ∅
  orphans : s.orphans.entries = []
  pool : ∃ window, s.pool = .new window
  log : s.log = []

abbrev CommitterM := HandlerM CommitterState CommitterError

variable (C : Codec) (P : ShieldedPrimitives) (cfg : CommitterConfig) (world : CommitterWorld)

section

variable (pending : PendingRegistry) (block : Block)

def verifyFinalizerSigUnder (signed : SignedTransaction) (expectedKey : Bytes)
    (txId : String) : Except CommitterError Unit :=
  match verifyFinalizerSignature C C.sha256 signed expectedKey with
  | .ok () => .ok ()
  | .error (.payloadMismatch claimed derived) =>
    .error (.signaturePayloadMismatch txId claimed derived)
  | .error _ => .error .invalidFinalizerSignature

/-- `Committer::verify_block_finalizer_sig`: the key is the one the block
names. -/
def verifyBlockFinalizerSig : Except CommitterError Unit :=
  verifyFinalizerSigUnder C block.signedTrans block.signedTrans.finalizerAddr
    block.signedTrans.transaction.id

def heldDecision (txId : String) : Option SelectionRecord :=
  match pending.lookup txId with
  | none => none
  | some entry =>
    match entry.state.live with
    | none => none
    | some tx => tx.selection

def blockAuthority (senderKey : Bytes) (txId : String) : Except CommitterError Unit :=
  let tx := block.signedTrans.transaction
  match tx.selection with
  | none =>
    if block.signedTrans.shielded.isSome then verifyBlockFinalizerSig C block
    else .error (.routing (.noDecision txId))
  | some record =>
    match record.verify C tx.id finalizerDomain with
    | none => .error (.core (.cryptoError .attestation))
    | some false => .error (.routing (.unverified txId record.sentinelPublicKey))
    | some true =>
      if .sentinel ∉ world.roles record.sentinelPublicKey then
        .error (.routing (.notSentinel txId record.sentinelPublicKey
          (world.roles record.sentinelPublicKey)))
      else if record.names senderKey = false then
        .error (.routing (.assignedElsewhere txId record.finalizerPublicKey senderKey))
      else
        match heldDecision pending txId with
        | none =>
          verifyFinalizerSigUnder C block.signedTrans record.finalizerPublicKey txId
        | some held =>
          if held.sameDecisionAs record = false then
            .error (.routing (.decisionMismatch txId
              record.finalizerPublicKey record.sentinelPublicKey
              held.finalizerPublicKey held.sentinelPublicKey))
          else
            verifyFinalizerSigUnder C block.signedTrans record.finalizerPublicKey txId

def commitAuthority (commit : TransactionCommit) (senderKey : Bytes) : Except CommitterError Unit :=
  blockAuthority C world pending commit.proposedBlock senderKey commit.txId

def gossipAuthority (senderKey : Bytes) : Except CommitterError Unit :=
  blockAuthority C world pending block senderKey block.signedTrans.transaction.id

/-- `ShieldedPool::apply_update` on the Committer's pool. -/
def poolApply : CommitterM PoolApplyOutcome := fun s =>
  let (pool, outcome) := s.pool.applyUpdate C P cfg.env block
  (outcome, { s with pool := pool })

end

/-- `ShieldedPool::revert_update` on the Committer's pool. -/
def poolRevert (blockHash : Bytes) : CommitterM Unit := fun s =>
  let (pool, outcome) := s.pool.revertUpdate P blockHash
  (outcome, { s with pool := pool })

/-- `ShieldedPool::save`. -/
def poolSave : CommitterM Unit := do
  let s ← getState
  require (world.savePool s.pool.stateSnapshot = true) .poolPersist

/-- The cache warm on a miss, and the cached token. -/
def warmToken (tokenId : Bytes) : CommitterM Token := do
  let s ← getState
  match s.tokens.lookup tokenId with
  | some token => pure token
  | none =>
    let loaded ← ofOption (world.getToken tokenId) (.tokenNotFound tokenId true)
    update fun s => { s with tokens := s.tokens.insert tokenId loaded }
    pure loaded

/-- The log of a `Token::commit_block` that succeeded. -/
def logCommit (tokenId : Bytes) (removed : Option Block) (block : Block)
    (log : List ChainEvent) : List ChainEvent :=
  match removed with
  | none => log ++ [.appended ⟨tokenId, block, .commit⟩]
  | some loser =>
    log ++ [.rolledBack tokenId loser, .appended ⟨tokenId, block, .commit⟩]

/-- `BlockServices::commit_block`. When the save fails the block stays on the
cached chain. -/
def commitBlock (commit : TransactionCommit) (rollbackTipHash : Option Bytes) :
    CommitterM Unit := do
  require (commit.envId = cfg.environmentId) (.environmentMismatch cfg.environmentId commit.envId)
  let token ← warmToken world commit.tokenId
  match token.commitBlock C cfg.validators commit.proposedBlock rollbackTipHash with
  | (token, .error e) => do
    update fun s => { s with tokens := s.tokens.insert commit.tokenId token }
    fail (.blockCommit e)
  | (token, .ok removed) => do
    update fun s => { s with
      tokens := s.tokens.insert commit.tokenId token
      log := logCommit commit.tokenId removed
        (Token.hashed C commit.proposedBlock) s.log }
    require (world.saveToken commit.tokenId token = true) (.tokenPersist commit.tokenId)

end Pneumatic
