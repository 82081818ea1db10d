import Pneumatic.Committer.State

/-!
# The Commit path

`committing.rs`: what a Committer does with a Finalizer's `Commit`. The
duplicate gate reads `committed_txs` under the id of the message, the pending
entry is locked, the conflict with the blocks seen at the same position is
resolved by stake, the pool delta is applied and saved, the block goes on the
chain, and only after the gas debit and the contract deltas is the transaction
booked. Every step can fail, and what the steps before it did stays.
-/

namespace Pneumatic

open Handler HandlerM

def pruneThreshold : Nat := 4096

def defaultMaxCandidates : Nat := 1024

inductive CommitConflictOutcome where
  | commit
  | commitWinnerAfterRollback (loserHash : Bytes)
deriving DecidableEq

/-- `ConflictResolution`, the variants a conflict of two blocks resolves to. -/
inductive ConflictResolution where
  | discardLoser (winner : Bytes)
  | sameProposerSlash (hash proposer : Bytes)
  | tieFlagBoth (hash : Bytes)
deriving DecidableEq

def resolveBlockConflict (hashA hashB proposerA proposerB : Bytes)
    (stakes : StakeSet) : ConflictResolution :=
  if stakes.getStake proposerA > stakes.getStake proposerB then
    .discardLoser hashA
  else if stakes.getStake proposerB > stakes.getStake proposerA then
    .discardLoser hashB
  else if proposerA = proposerB then .sameProposerSlash hashA proposerA
  else .tieFlagBoth hashA

/-- `StakeStore::slash`: a stake that reaches zero leaves the store. -/
def StakeSet.slash (stakes : StakeSet) (key : Bytes) (amount : Nat) : StakeSet :=
  match stakes.lookup key with
  | none => stakes
  | some stake =>
    if stake - amount = 0 then stakes.erase key
    else stakes.insert key (stake - amount)

variable (C : Codec) (P : ShieldedPrimitives) (cfg : CommitterConfig) (world : CommitterWorld)

def TransactionCommit.position (commit : TransactionCommit) : Bytes × Bytes :=
  (commit.tokenId, commit.proposedBlock.previousHash)

/-- `CandidateRegistry::get_candidates`. -/
def CommitterState.candidatesAt (s : CommitterState) (position : Bytes × Bytes) :
    List (Block × Bytes) :=
  (s.candidates.lookup position).getD []

/-- `CandidateRegistry::insert`. -/
def insertCandidate (position : Bytes × Bytes) (block : Block)
    (proposer : Bytes) : CommitterM Unit :=
  update fun s =>
    let group := s.candidatesAt position ++ [(block, proposer)]
    { s with
      candidates := s.candidates.insert position
        (group.drop (group.length - defaultMaxCandidates)) }

def removeConflicted (position : Bytes × Bytes) : CommitterM Unit :=
  update fun s => { s with candidates := s.candidates.erase position }

/-- The loop of `handle_conflict_at_commit` over the candidates; the value is
the rollback target. -/
def foldCandidates (commit : TransactionCommit) (proposer : Bytes)
    (stakes : StakeSet) : Bytes → List (Block × Bytes) → CommitterM Bytes
  | rollbackTarget, [] => pure rollbackTarget
  | _, (candidate, candidateProposer) :: rest =>
    match resolveBlockConflict commit.proposedBlock.currentHash
        candidate.currentHash proposer candidateProposer stakes with
    | .discardLoser winner =>
      if winner ≠ commit.proposedBlock.currentHash then do
        removeConflicted commit.position
        fail .loserDiscarded
      -- the later candidate overwrites the target, whichever of them is the tip
      else foldCandidates commit proposer stakes candidate.currentHash rest
    | .sameProposerSlash _ slashed => do
      update fun s => { s with
        stakes := s.stakes.slash slashed
          (cfg.slashAmount (s.stakes.getStake slashed)) }
      removeConflicted commit.position
      fail .loserDiscarded
    | .tieFlagBoth _ => do
      removeConflicted commit.position
      fail .loserDiscarded

def handleConflictAtCommit (commit : TransactionCommit) (proposer : Bytes) :
    CommitterM CommitConflictOutcome := do
  let s ← getState
  match s.candidatesAt commit.position with
  | [] => do
    insertCandidate commit.position commit.proposedBlock proposer
    pure .commit
  | first :: rest => do
    let rollbackTarget ← foldCandidates cfg commit proposer s.stakes
      commit.proposedBlock.currentHash (first :: rest)
    removeConflicted commit.position
    pure (.commitWinnerAfterRollback rollbackTarget)

def validateTransactionMessage (commit : TransactionCommit) : Except CommitterError Unit :=
  if commit.envId ≠ cfg.environmentId then
    .error (.environmentMismatch cfg.environmentId commit.envId)
  else if commit.proposedBlock.currentHash.isEmpty then .error .invalidBlockHash
  else .ok ()

def duplicateGate (txId : String) : CommitterM Unit := do
  let s ← getState
  match s.committedTxs.lookup txId with
  | some (_, blockHash) => fail (.transactionAlreadyCommitted txId blockHash)
  | none => pure ()

/-- Steps 1 and 2: an entry the registry does not have is made from the wire
block, the entry is locked, and its transaction is read. An entry already booked
with this very block hash takes no lock and yields the wire transaction. -/
def takeTransaction (txId : String) (commit : TransactionCommit)
    (finalizerKey : Bytes) : CommitterM Transaction := do
  let wire := commit.proposedBlock.signedTrans.transaction
  update fun s =>
    if txId ∈ s.pending then s
    else { s with
      pending := s.pending.insert txId
        (.new (.finalizing wire finalizerKey)) }
  let s ← getState
  let entry ← ofOption (s.pending.lookup txId) (.transactionNotInFinalizing txId)
  match entry.acquire with
  | some locked => do
    update fun s => { s with pending := s.pending.insert txId locked }
    match locked.state with
    | .finalizing tx _ => pure tx
    | .validated tx _ => pure tx
    -- the lock just taken is kept
    | _ => fail (.transactionNotInFinalizing txId)
  | none =>
    match entry.state with
    | .committed _ blockHash => do
      require (blockHash = commit.proposedBlock.currentHash) (.transactionNotInFinalizing txId)
      pure wire
    | _ => fail (.transactionNotInFinalizing txId)

/-- The payload checks: the held transaction is the wire one up to the
execution result, and the shielded payload is the pooled one. -/
def checkPayload (s : CommitterState) (txId : String)
    (commit : TransactionCommit) (held : Transaction) :
    Except CommitterError Unit :=
  let signed := commit.proposedBlock.signedTrans
  if held.identityHash C ≠ signed.transaction.identityHash C then
    .error (.transactionPayloadMismatch txId)
  else
    match signed.shielded with
    | none => .ok ()
    | some wire =>
      match s.shielded.lookup txId with
      | none => .error (.transactionPayloadMismatch txId)
      | some pooled =>
        if wire.hash C ≠ pooled.hash C then
          .error (.transactionPayloadMismatch txId)
        else .ok ()

def shieldedCommitApply (commit : TransactionCommit) : CommitterM PoolApplyOutcome := do
  let outcome ← poolApply C P cfg commit.proposedBlock
  match outcome with
  | .applied =>
    match ← attempt (poolSave world) with
    | .ok () => pure outcome
    | .error e =>
      match ← attempt (poolRevert P commit.proposedBlock.currentHash) with
      | .ok () => fail e
      | .error revert => fail (.poolPersistUnreverted revert)
  | _ => pure outcome

def shieldedCommitUndo (commit : TransactionCommit)
    (outcome : PoolApplyOutcome) : CommitterM Unit :=
  match outcome with
  | .applied => do
    poolRevert P commit.proposedBlock.currentHash
    poolSave world
  | _ => pure ()

/-- The defeated delta leaves the pool; that there is none is no fault. -/
def revertLoser (loserHash : Bytes) : CommitterM Unit := do
  match ← attempt (poolRevert P loserHash) with
  | .ok () => pure ()
  | .error (.poolRollback _) => pure ()
  | .error e => fail e

/-- What follows a commit that succeeded, by the outcome of the conflict. -/
def settleLoser (rollbackTipHash : Option Bytes) : CommitterM Unit :=
  match rollbackTipHash with
  | none => pure ()
  | some loserHash => do
    revertLoser P loserHash
    poolSave world

/-- The block hash a conflict's outcome rolls back. -/
def CommitConflictOutcome.rollbackTipHash : CommitConflictOutcome → Option Bytes
  | .commit => none
  | .commitWinnerAfterRollback loserHash => some loserHash

/-- Step 3, the two arms of the match on the conflict's outcome: the delta is
applied, the block committed, and the delta undone when that fails. -/
def applyCommit (commit : TransactionCommit) (rollbackTipHash : Option Bytes) :
    CommitterM Unit := do
  let outcome ← shieldedCommitApply C P cfg world commit
  match ← attempt (commitBlock C cfg world commit rollbackTipHash) with
  | .ok () => settleLoser P world rollbackTipHash
  -- also when the block is on the chain and only the save failed
  | .error e => do
    shieldedCommitUndo P world commit outcome
    fail e

/-- Step 3.5: the gas debit. -/
def debitGas (txId : String) (sender : Bytes) : CommitterM Unit := do
  let s ← getState
  match s.gas.lookup txId with
  | none => pure ()
  | some gasUsed => do
    let balance ← ofOption (world.getUser sender) (.gasDeduction sender txId gasUsed)
    require (world.saveUser sender (balance - gasUsed) = true) (.gasDeduction sender txId gasUsed)

/-- Steps 3.6 to 3.8: the contract deltas. -/
def applyDeltas (tx : Transaction) (epochNumber : Nat) : Except CommitterError Unit :=
  if tx.action = "DeployContract" then world.applyDeployDelta tx
  else if tx.action = "ContractCall" then world.applyStorageDelta tx
  else if tx.action = "UpgradeContract" then world.applyUpgradeDelta tx epochNumber
  else .ok ()

/-- Steps 4 and 5: the entry turns `Committed` and its lock is released. -/
def releaseEntry (txId : String) (tx : Transaction) (blockHash : Bytes) : CommitterM Unit := do
  update fun s => { s with
    pending := s.pending.setState txId (.committed tx blockHash) }
  let s ← getState
  let entry ← ofOption (s.pending.lookup txId) (.core (.registry (.notFound txId)))
  match entry.release with
  | (_, true) =>
    update fun s => { s with pending := s.pending.erase txId }
  | (released, false) =>
    update fun s => { s with pending := s.pending.insert txId released }

def pruneCommittedTxs (booked : Finmap (fun _ : String => Nat × Bytes)) :
    Finmap (fun _ : String => Nat × Bytes) where
  entries := booked.entries.filter fun e => world.currentEpochNumber ≤ e.2.1
  nodupKeys := by
    have hnodup := Multiset.nodup_keys.mpr booked.nodupKeys
    have hle := Multiset.map_le_map (f := Sigma.fst) (Multiset.filter_le
      (fun e => world.currentEpochNumber ≤ e.2.1) booked.entries)
    exact Multiset.nodup_keys.mp (Multiset.nodup_of_le hle hnodup)

/-- The booking, and the prune above the threshold. -/
def bookCommitted (txId : String) (block : Block) : CommitterM Unit :=
  update fun s =>
    let booked := s.committedTxs.insert txId (block.epochNumber, block.currentHash)
    { s with
      committedTxs :=
        if pruneThreshold < booked.keys.card then
          pruneCommittedTxs world booked
        else booked }

/-- The transaction with the producer's execution result. -/
def adoptResult (held wire : Transaction) : Transaction :=
  { held with resultHash := wire.resultHash, resultData := wire.resultData }

/-- What follows the append: gas, deltas, the entry and the booking. -/
def finishCommit (txId : String) (tx : Transaction) (block : Block) : CommitterM Unit := do
  debitGas world txId tx.sender
  HandlerM.lift (applyDeltas world tx block.epochNumber)
  releaseEntry txId tx block.currentHash
  bookCommitted world txId block

def checkAndCommitTransactionResults (commit : TransactionCommit)
    (finalizerKey : Bytes) : CommitterM Unit := do
  let txId := commit.txId
  duplicateGate txId
  let held ← takeTransaction txId commit finalizerKey
  let s ← getState
  HandlerM.lift (checkPayload C s txId commit held)
  let outcome ← handleConflictAtCommit cfg commit finalizerKey
  applyCommit C P cfg world commit outcome.rollbackTipHash
  finishCommit world txId (adoptResult held commit.proposedBlock.signedTrans.transaction)
    commit.proposedBlock

def handleCommit (message : Message) : CommitterM Unit := do
  let commit ← ofOption (C.decodeTransactionCommit message.body) .deserialization
  HandlerM.lift (validateTransactionMessage cfg commit)
  let s ← getState
  HandlerM.lift (commitAuthority C world s.pending commit message.publicKey)
  checkAndCommitTransactionResults C P cfg world commit message.publicKey

end Pneumatic
