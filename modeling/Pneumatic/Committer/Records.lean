import Pneumatic.Committer.Finalizing
import Pneumatic.Contracts.Deltas
import Pneumatic.DataService.Entities

/-!
# The Committer and its records

The Committer together with what the data provider holds for it. Above, the
provider only answers; here its answers come from the records, a save that succeeds
is written there, and each call can be made to fail on its own. This is the level at
which one can say what a message leaves behind: the gas debit and the contract deltas
of `committing.rs` write nothing but records.

The handlers are those of `committing.rs` and `finalizing.rs` once more, made of the
same parts: a part that calls the provider gets its answers from the records it
meets.
-/

namespace Pneumatic

open Handler HandlerM

/-- What the data provider holds for the Committer: tokens and users by partition and
key, the pool by partition. -/
structure Records where
  tokens : Finmap (fun _ : String × Bytes => Token)
  users : Finmap (fun _ : String × Bytes => User)
  pools : Finmap (fun _ : String => ShieldedPoolState)

/-- Which calls of the provider fail while a message is handled: those of a Commit,
in the order of the source, and the save after a gossiped block. A save that fails
writes nothing. -/
structure Faults where
  savePool : Bool
  getToken : Bool
  saveToken : Bool
  savePoolUndone : Bool
  savePoolSettled : Bool
  getUser : Bool
  saveUser : Bool
  getContract : Bool
  saveContract : Bool
  savePoolFinalized : Bytes → Bool

def Faults.none : Faults where
  savePool := false
  getToken := false
  saveToken := false
  savePoolUndone := false
  savePoolSettled := false
  getUser := false
  saveUser := false
  getContract := false
  saveContract := false
  savePoolFinalized _ := false

structure CommitterNode where
  base : CommitterState
  records : Records

structure RecordsConfig extends CommitterConfig where
  tokenPartitionId : String

instance : Coe RecordsConfig CommitterConfig := ⟨RecordsConfig.toCommitterConfig⟩

structure Surroundings where
  roles : Bytes → List NodeRegistryType
  currentEpochNumber : Nat
  now : Nat

abbrev NodeM := HandlerM CommitterNode CommitterError

variable (C : Codec) (K : ContractCodec) (P : ShieldedPrimitives) (cfg : RecordsConfig)
  (around : Surroundings) (faults : Faults)

namespace Records

def getContract (records : Records) (tokenId : Bytes) : Option Token :=
  if faults.getContract then none
  else records.tokens.lookup (cfg.environmentId, tokenId)

def saveContract (records : Records) (tokenId : Bytes) (token : Token) :
    Except CommitterError Records :=
  if faults.saveContract then .error (.core .data)
  else .ok { records with
    tokens := records.tokens.insert (cfg.environmentId, tokenId) token }

/-- `Committer::apply_deploy_delta`. A token that cannot be read counts as absent. -/
def applyDeployDelta (tx : Transaction) (records : Records) : Except CommitterError Records :=
  match K.decodeDeployParams tx.payload with
  | none => .error .deserialization
  | some params =>
    match deployContract C K tx.sender tx.sequenceNumber params with
    | .error _ => .error (.core (.validation [.contractDeployFailed]))
    | .ok delta =>
      if C.sha256 (K.rmpCreateTokenDelta delta) ≠ tx.resultHash then
        .error (.transactionPayloadMismatch tx.id)
      else
        match records.getContract cfg faults delta.tokenId with
        | some _ => .ok records
        | none => records.saveContract cfg faults delta.tokenId (delta.toToken K)

def applyStorageDelta (tx : Transaction) (records : Records) : Except CommitterError Records :=
  match records.getContract cfg faults tx.tokenId with
  | none => .ok records
  | some token =>
    if token.metadata.lookup "contract_engine" ≠ some "Wasm" then .ok records
    else if tx.resultData.isEmpty then .ok records
    else if C.sha256 tx.resultData ≠ tx.resultHash then
      .error (.transactionPayloadMismatch tx.id)
    else
      match K.decodeWasmResult tx.resultData with
      | none => .error .deserialization
      | some result =>
        match token.updateAsset K fun contract =>
          { contract with
            storage := applyStorage contract.storage result.storageDelta } with
        | none => .error (.core (.validation [.contractDeployFailed]))
        | some token => records.saveContract cfg faults token.id token

def applyUpgradeDelta (tx : Transaction) (currentEpoch : Nat) (records : Records) :
    Except CommitterError Records :=
  match records.getContract cfg faults tx.tokenId with
  | none => .ok records
  | some token =>
    match K.decodeUpgradeParams tx.payload with
    | none => .error .deserialization
    | some params =>
      let delta : ReplaceAssetDelta :=
        { tokenId := tx.tokenId
          newBytecode := params.newBytecode
          newOwners := params.newOwners
          newThreshold := params.newThreshold
          proposalEpoch := params.proposalEpoch }
      if C.sha256 (K.rmpReplaceAssetDelta delta) ≠ tx.resultHash then
        .error (.transactionPayloadMismatch tx.id)
      else if (token.getAsset K).any fun contract => contract.threshold == 0 then
        .ok records
      else if timelockSatisfied params.proposalEpoch currentEpoch = false then
        .ok records
      else
        match applyReplaceAsset K token delta with
        | .error _ => .ok records
        | .ok token => records.saveContract cfg faults token.id token

/-- Steps 3.6 to 3.8. -/
def applyDeltas (tx : Transaction) (epochNumber : Nat) (records : Records) :
    Except CommitterError Records :=
  if tx.action = "DeployContract" then records.applyDeployDelta C K cfg faults tx
  else if tx.action = "ContractCall" then records.applyStorageDelta C K cfg faults tx
  else if tx.action = "UpgradeContract" then
    records.applyUpgradeDelta C K cfg faults tx epochNumber
  else .ok records

def debited (records : Records) (sender : Bytes) (user : User) (gasUsed : Nat) : Records :=
  { records with
    users := records.users.insert (cfg.tokenPartitionId, sender)
      { user with fuelBalance := user.fuelBalance - gasUsed } }

def withToken (records : Records) (tokenId : Bytes) (token : Token) : Records :=
  { records with
    tokens := records.tokens.insert (cfg.tokenPartitionId, tokenId) token }

def withPool (records : Records) (pool : ShieldedPool) : Records :=
  { records with pools := records.pools.insert cfg.tokenPartitionId pool.stateSnapshot }

def answers (records : Records) : CommitterWorld where
  roles := around.roles
  getToken tokenId :=
    if faults.getToken then none
    else records.tokens.lookup (cfg.tokenPartitionId, tokenId)
  saveToken _ _ := !faults.saveToken
  savePool _ := !faults.savePool
  getUser sender :=
    if faults.getUser then none
    else (records.users.lookup (cfg.tokenPartitionId, sender)).map User.fuelBalance
  saveUser _ _ := !faults.saveUser
  applyDeployDelta tx := (records.applyDeployDelta C K cfg faults tx).map fun _ => ()
  applyStorageDelta tx := (records.applyStorageDelta C K cfg faults tx).map fun _ => ()
  applyUpgradeDelta tx epochNumber :=
    (records.applyUpgradeDelta C K cfg faults tx epochNumber).map fun _ => ()
  currentEpochNumber := around.currentEpochNumber
  now := around.now

end Records

namespace CommitterNode

section

variable (commit : TransactionCommit) (rollbackTipHash : Option Bytes)

/-- A part of a handler that does not call the provider. -/
def onBase {α : Type} (m : CommitterM α) : NodeM α :=
  zoom CommitterNode.base (fun n s => { n with base := s }) id m

/-- A part of a handler whose calls are answered from the records. -/
def onRecords {α : Type} (m : CommitterWorld → CommitterM α) : NodeM α := do
  let n ← getState
  onBase (m (n.records.answers C K cfg around faults))

/-- `ShieldedPool::save`. -/
def poolSave (fails : Bool) : NodeM Unit := do
  require (fails = false) .poolPersist
  update fun n => { n with records := n.records.withPool cfg n.base.pool }

def shieldedCommitApply : NodeM PoolApplyOutcome := do
  let outcome ← onBase (poolApply C P cfg commit.proposedBlock)
  match outcome with
  | .applied =>
    match ← attempt (poolSave cfg faults.savePool) with
    | .ok () => pure outcome
    | .error e =>
      match ← attempt (onBase (poolRevert P commit.proposedBlock.currentHash)) with
      | .ok () => fail e
      | .error revert => fail (.poolPersistUnreverted revert)
  | _ => pure outcome

def shieldedCommitUndo (outcome : PoolApplyOutcome) : NodeM Unit :=
  match outcome with
  | .applied => do
    onBase (poolRevert P commit.proposedBlock.currentHash)
    poolSave cfg faults.savePoolUndone
  | _ => pure ()

/-- What follows a commit that succeeded, by the outcome of the conflict. -/
def settleLoser : NodeM Unit :=
  match rollbackTipHash with
  | none => pure ()
  | some loserHash => do
    onBase (revertLoser P loserHash)
    poolSave cfg faults.savePoolSettled

/-- `BlockServices::commit_block`. The save comes last, so a call that returns has
written the cached token. -/
def commitBlock : NodeM Unit := do
  onRecords C K cfg around faults fun world =>
    Pneumatic.commitBlock C cfg world commit rollbackTipHash
  update fun n =>
    match n.base.tokens.lookup commit.tokenId with
    | none => n
    | some token => { n with records := n.records.withToken cfg commit.tokenId token }

def applyCommit : NodeM Unit := do
  let outcome ← shieldedCommitApply C P cfg faults commit
  match ← attempt (commitBlock C K cfg around faults commit rollbackTipHash) with
  | .ok () => settleLoser P cfg faults rollbackTipHash
  | .error e => do
    shieldedCommitUndo P cfg faults commit outcome
    fail e

/-- Step 3.5: the gas debit. -/
def debitGas (txId : String) (sender : Bytes) : NodeM Unit := do
  let n ← getState
  match n.base.gas.lookup txId with
  | none => pure ()
  | some gasUsed => do
    let user ← ofOption (if faults.getUser then none
        else n.records.users.lookup (cfg.tokenPartitionId, sender))
      (.gasDeduction sender txId gasUsed)
    require (faults.saveUser = false) (.gasDeduction sender txId gasUsed)
    update fun n => { n with records := n.records.debited cfg sender user gasUsed }

/-- Steps 3.6 to 3.8: the contract deltas. -/
def applyDeltas (tx : Transaction) (epochNumber : Nat) : NodeM Unit := fun n =>
  match n.records.applyDeltas C K cfg faults tx epochNumber with
  | .error e => (.error e, n)
  | .ok records => (.ok (), { n with records := records })

def finishCommit (txId : String) (tx : Transaction) (block : Block) : NodeM Unit := do
  debitGas cfg faults txId tx.sender
  applyDeltas C K cfg faults tx block.epochNumber
  onBase (releaseEntry txId tx block.currentHash)
  onRecords C K cfg around faults fun world => bookCommitted world txId block

def checkAndCommitTransactionResults (finalizerKey : Bytes) : NodeM Unit := do
  let txId := commit.txId
  onBase (duplicateGate txId)
  let held ← onBase (takeTransaction txId commit finalizerKey)
  let n ← getState
  HandlerM.lift (checkPayload C n.base txId commit held)
  let outcome ← onBase (handleConflictAtCommit cfg commit finalizerKey)
  applyCommit C K P cfg around faults commit outcome.rollbackTipHash
  finishCommit C K cfg around faults txId
    (adoptResult held commit.proposedBlock.signedTrans.transaction)
    commit.proposedBlock

end

def handleCommit (message : Message) : NodeM Unit := do
  let commit ← ofOption (C.decodeTransactionCommit message.body) .deserialization
  HandlerM.lift (validateTransactionMessage cfg commit)
  let n ← getState
  HandlerM.lift (commitAuthority C (n.records.answers C K cfg around faults)
    n.base.pending commit message.publicKey)
  checkAndCommitTransactionResults C K P cfg around faults commit message.publicKey

/-- The pool's part of the loop over the committed blocks. -/
def applyFinalized : List Block → NodeM Unit
  | [] => pure ()
  | block :: rest => do
    match ← onBase (poolApply C P cfg block) with
    | .applied => do
      poolSave cfg (faults.savePoolFinalized block.currentHash)
      applyFinalized rest
    | _ => applyFinalized rest

def handleBlockFinalized (message : Message) : NodeM Unit := do
  let block ← ofOption (C.decodeBlock message.body) .deserialization
  let tokenId := block.signedTrans.transaction.tokenId
  let n ← getState
  HandlerM.lift (gossipAuthority C (n.records.answers C K cfg around faults)
    n.base.pending block message.publicKey)
  let token ← onRecords C K cfg around faults fun world => warmToken world tokenId
  match ← onBase (appendToChain C tokenId token block) with
  | .linkageMismatch =>
    onRecords C K cfg around faults fun world => bufferOrphan world tokenId block
  | .invalidHash => fail .invalidBlockHash
  | .appended => do
    let promoted ← onRecords C K cfg around faults fun world =>
      replayOrphanBlocks C world block.currentHash tokenId
    applyFinalized C P cfg faults (block :: promoted)

def handleMessage (action : CommitterAction) (message : Message) : NodeM Unit := do
  let n ← getState
  HandlerM.lift (authenticateSender C (n.records.answers C K cfg around faults) message)
  match action with
  | .commit => handleCommit C K P cfg around faults message
  | .blockFinalized => handleBlockFinalized C K P cfg around faults message

end CommitterNode

end Pneumatic
