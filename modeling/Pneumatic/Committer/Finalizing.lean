import Pneumatic.Committer.Committing

/-!
# The gossip path and the dispatcher

`finalizing.rs` from `handle_block_finalized` on, and `handle_message`. A
gossiped block that links is appended at once, the orphans that wait for it are
appended after it, and only then is each of the appended blocks applied to the
pool, up to the first one the pool refuses. A block that does not link is
buffered. The votes a finalized block leads to, and the distribution to
archivers, write none of the state modelled here.
-/

namespace Pneumatic

open Handler HandlerM

variable (C : Codec) (P : ShieldedPrimitives) (cfg : CommitterConfig) (world : CommitterWorld)

/-- `append_validated_block` on a cached token. -/
def appendToChain (tokenId : Bytes) (token : Token) (block : Block) : CommitterM AppendOutcome :=
  match appendValidatedBlock C token.chain block with
  | (chain, .appended) => do
    update fun s => { s with
      tokens := s.tokens.insert tokenId { token with chain := chain }
      log := s.log ++ [.appended ⟨tokenId, block, .gossip⟩] }
    pure .appended
  | (_, outcome) => pure outcome

def bufferOrphan (tokenId : Bytes) (block : Block) : CommitterM Unit :=
  update fun s => { s with
    orphans := (s.orphans.insert tokenId block world.now).1 }

/-- `drop_expired` and `take_matching` under one lock. -/
def takeOrphan (tokenId expectedTip : Bytes) : CommitterM (Option Block) :=
  fun s =>
    let (orphans, chosen) :=
      (s.orphans.dropExpired world.now).takeMatching tokenId expectedTip world.now
    (.ok chosen, { s with orphans := orphans })

/-- The loop of `Committer::replay_orphan_blocks`. Every turn but the last takes
a block out of the buffer for good, so the number of turns is bounded by the
buffer's length. -/
def replayLoop (tokenId : Bytes) : Nat → Bytes → CommitterM (List Block)
  | 0, _ => pure []
  | turns + 1, expectedTip => do
    match ← takeOrphan world tokenId expectedTip with
    | none => pure []
    | some chosen => do
      let s ← getState
      match s.tokens.lookup tokenId with
      | none => pure []
      | some token => do
        match ← appendToChain C tokenId token chosen with
        | .appended => do
          let promoted ← replayLoop tokenId turns chosen.currentHash
          pure (chosen :: promoted)
        -- the block is gone from the buffer
        | .invalidHash => pure []
        | .linkageMismatch => do
          update fun s => { s with
            orphans := s.orphans.requeueBack tokenId chosen world.now }
          pure []

def replayOrphanBlocks (tipHash tokenId : Bytes) : CommitterM (List Block) := do
  let s ← getState
  replayLoop C world tokenId (s.orphans.len + 1) tipHash

/-- The pool's part of the loop over the committed blocks. -/
def applyFinalized : List Block → CommitterM Unit
  | [] => pure ()
  | block :: rest => do
    match ← poolApply C P cfg block with
    | .applied => do
      poolSave world
      applyFinalized rest
    | _ => applyFinalized rest

def handleBlockFinalized (message : Message) : CommitterM Unit := do
  let block ← ofOption (C.decodeBlock message.body) .deserialization
  let tokenId := block.signedTrans.transaction.tokenId
  let s ← getState
  HandlerM.lift (gossipAuthority C world s.pending block message.publicKey)
  let token ← warmToken world tokenId
  match ← appendToChain C tokenId token block with
  | .linkageMismatch => bufferOrphan world tokenId block
  | .invalidHash => fail .invalidBlockHash
  | .appended => do
    let promoted ← replayOrphanBlocks C world block.currentHash tokenId
    applyFinalized C P cfg world (block :: promoted)

/-- The two actions that put blocks on a chain. -/
inductive CommitterAction where
  | commit
  | blockFinalized
deriving DecidableEq

/-- The envelope check of `Committer::authenticate`; both actions are the
Finalizer's. -/
def authenticateSender (message : Message) : Except CommitterError Unit :=
  match authenticateEnvelope C world.roles message with
  | .error _ => .error (.unauthenticatedSender message.publicKey)
  | .ok roles =>
    if .finalizer ∈ roles then .ok ()
    else .error (.unauthorizedRole message.publicKey roles)

def handleMessage (action : CommitterAction) (message : Message) : CommitterM Unit := do
  HandlerM.lift (authenticateSender C world message)
  match action with
  | .commit => handleCommit C P cfg world message
  | .blockFinalized => handleBlockFinalized C P cfg world message

/-- One message, and what the surroundings answer while it is handled. -/
structure CommitterDelivery where
  world : CommitterWorld
  action : CommitterAction
  message : Message

/-- The verdict on a message and the state it leaves. -/
def committerHandle (s : CommitterState) (d : CommitterDelivery) :
    Except CommitterError Unit × CommitterState :=
  (handleMessage C P cfg d.world d.action d.message).exec s

def committerStep (s : CommitterState) (d : CommitterDelivery) : CommitterState :=
  (committerHandle C P cfg s d).2

end Pneumatic
