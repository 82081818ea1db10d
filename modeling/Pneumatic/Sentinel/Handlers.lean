import Pneumatic.Sentinel.State

/-!
# The Sentinel's handlers

`processing.rs`, `finalizing.rs`, `epoching.rs` and `shielded.rs`, and
`on_data_received`, which tells them apart by the action of the message it
decodes. None of them looks at the signature of that message: its key is taken
for the authenticated sender.

A lock taken for a stage is not released on every way out. Of the ways out of a
rejection one never ends: it asks for the shard lock of an entry it holds.
-/

namespace Pneumatic

open Handler HandlerM

variable (C : Codec) (P : ShieldedPrimitives) (N : NodeCodec) (S : SentinelCodec)
  (cfg : SentinelConfig) (world : SentinelWorld)

/-- The sender checks of `handle_process_request`. -/
def authenticateSubmitter (message : Message) (tx : Transaction) : Except SentinelError Unit :=
  if tx.sender.isEmpty then .error .emptySender
  else
    match tx.verifySenderSignature C with
    | none => .error (.invalidSenderSignature true)
    | some false => .error (.invalidSenderSignature false)
    | some true =>
      if message.publicKey = tx.sender then .ok ()
      else .error .unauthenticatedSubmitter

/-- The reasons `transition_to_failed` records. -/
def failureReasons : PneumaticError → List ValidationFailureReason
  | .validation reasons => reasons
  | _ => []

def getShardExecutors (s : SentinelState) (txId : String) (chainTip : Bytes) :
    Except SentinelError (List Bytes) :=
  match s.executorSet world s.currentEpoch with
  | none => .error (.routing (.noExecutorSet s.currentEpoch))
  | some executors =>
    if executors = ∅ then .error (.routing .emptyExecutorSet)
    else
      match cfg.selectShard executors cfg.shardCount txId s.currentEpoch chainTip with
      | none => .error (.routing .emptyShard)
      | some keys => if keys.isEmpty then .error (.routing .emptyShard) else .ok keys

/-- `Sentinel::send_to_executor_for_preload`. Without shards the send is handed
to a thread of its own. -/
def sendToExecutorForPreload (tx : Transaction) : SentinelM Unit :=
  if cfg.shardCount ≤ 1 then pure ()
  else do
    let chainTip ← HandlerM.lift (selectionTip C world tx.tokenId)
    let s ← getState
    update fun s => { s with
      executorSets := remember s.currentEpoch (s.executorSet world s.currentEpoch)
        s.executorSets }
    let keys ← HandlerM.lift (getShardExecutors cfg world s tx.id chainTip)
    require (keys.any world.executorReached = true) (.noTarget .executor)

def routingDecisionFor (tx : Transaction) (token : FlaggedToken) :
    SentinelM (Bytes × SelectionRecord) :=
  match tx.selection with
  | some carried => pure (carried.finalizerPublicKey, carried)
  | none => do
    let s ← getState
    rememberStakes world s.currentEpoch
    let salt := chainTipOf C token
    let finalizerKey ← HandlerM.lift
      (assignFinalizerDeterministic cfg world s tx.id s.currentEpoch salt)
    let selection ← HandlerM.lift
      (attestSelection C cfg world tx.id finalizerKey s.currentEpoch salt)
    pure (finalizerKey, selection)

def handleSelfSigned (tx : Transaction) (gasUsed : Nat) : SentinelM Unit := do
  onRegistry (fun fault => .registry (.core fault))
    (transitionToValidatedAndEnqueue tx.id tx (.valid [] (calculateRisk tx)))
  update fun s => { s with registry := s.registry.recordGasUsed tx.id gasUsed }
  releaseQuietly tx.id

/-- The standard path of `handle_process_request`, from the routing decision
on. -/
def routeTransaction (tx : Transaction) (token : FlaggedToken) : SentinelM Unit := do
  match ← attempt (routingDecisionFor C cfg world tx token) with
  | .error e => do
    releaseQuietly tx.id
    fail e
  | .ok (finalizerKey, selection) => do
    let tx := { tx with selection := some selection }
    match ← attempt (onRegistry (fun fault => .registry (.core fault))
        (transitionToValidatedAndEnqueue tx.id tx (.valid finalizerKey (calculateRisk tx)))) with
    | .error e => do
      releaseQuietly tx.id
      fail e
    | .ok () => sendToExecutorForPreload C cfg world tx

/-- `handle_process_request` once the transaction is valid. -/
def admitTransaction (tx : Transaction) : SentinelM Unit := do
  update fun s => { s with
    registry := s.registry.recordGasUsed tx.id (computeGasUsed cfg tx) }
  onRegistry (fun _ => .transactionAlreadyExists tx.id) (registerPending tx.id)
  onRegistry (fun _ => .transactionInTerminalState tx.id) (acquireTransaction tx.id)
  let token ← ofOption (world.getToken tx.tokenId) .data
  if token.isSelfVerified then handleSelfSigned tx (computeGasUsed cfg tx)
  else routeTransaction C cfg world tx token

def handleProcessRequest (message : Message) : SentinelM Unit := do
  let tx ← ofOption (C.decodeTransaction message.body) .encoding
  HandlerM.lift (authenticateSubmitter C message tx)
  match validateTransaction cfg world tx with
  | .error e =>
    update fun s => { s with
      registry := s.registry.setState tx.id (.failed tx (failureReasons e)) }
  | .ok () => admitTransaction C cfg world tx

def handleClearRequest (message : Message) : SentinelM Unit := do
  let txId ← ofOption (S.decodeTxId message.body) .encoding
  let _ ← attempt (onRegistry (fun fault => .registry (.core fault)) (removeTransaction txId))
  pure ()

/-- The transition of a confirmation. -/
def commitEntry (txId : String) : SentinelM Unit := do
  let s ← getState
  match (s.registry.transactions.lookup txId).map PendingTransaction.state with
  | none => pure ()
  | some (.finalizing tx _) =>
    update fun s => { s with registry := s.registry.setState txId (.committed tx []) }
  | some _ => fail (.registry (.confirmationNotFinalizing txId))

def handleConfirmation (message : Message) : SentinelM Unit := do
  let txId ← ofOption (S.decodeTxId message.body) .encoding
  onRegistry (fun _ => .transactionInTerminalState txId) (acquireTransaction txId)
  let s ← getState
  require (s.registry.isRequestedFinalizer txId message.publicKey = true)
    (.registry (.unassignedConfirmation message.publicKey txId))
  commitEntry txId
  releaseQuietly txId

/-- `Sentinel::reassign_finalizer_deterministically`: the answer in a state. -/
def reassignFinalizerDeterministically (s : SentinelState) (txId : String)
    (rejectedKey : Bytes) : Except SentinelError Bytes :=
  match s.registry.transactions.lookup txId with
  | none => .error (.registry (.unreadableForReassignment txId))
  | some entry =>
    match entry.state.live with
    | none => .error (.registry (.noTransactionInState txId))
    | some tx =>
      match selectionTip C world tx.tokenId with
      | .error e => .error e
      | .ok chainTip =>
        assignFinalizerDeterministicRetry cfg world s txId s.currentEpoch rejectedKey chainTip

/-- The new Finalizer of a rejected transaction: a fresh selection, or else the
first other member of the bucket. -/
def reassignedKey (s : SentinelState) (txId : String) (rejectedKey : Bytes) : Option Bytes :=
  match reassignFinalizerDeterministically C cfg world s txId rejectedKey with
  | .ok key => some key
  | .error _ =>
    (world.node.order (s.nodes .finalizer).keys).find? (· ≠ rejectedKey)

/-- The stake cache after the selection of a rejection, which is reached when
the salt can be read. -/
def rememberReassignment (txId : String) : SentinelM Unit := do
  let s ← getState
  match ((s.registry.transactions.lookup txId).bind (·.state.live)).bind
      fun tx => world.getToken tx.tokenId with
  | none => pure ()
  | some _ => rememberStakes world s.currentEpoch

/-- The epoch and the salt a reassignment is attested with. -/
def reassignmentSalt (tx : Transaction) (currentEpoch : Nat) : Except SentinelError (Nat × Bytes) :=
  match tx.selection with
  | some record => .ok (record.epochNumber, record.salt)
  | none => (selectionTip C world tx.tokenId).map fun tip => (currentEpoch, tip)

/-- The transition, the attestation and the send of a rejection. -/
def reassignTo (txId : String) (newKey : Bytes) : SentinelM Unit := do
  let s ← getState
  match (s.registry.transactions.lookup txId).map PendingTransaction.state with
  | none => do
    releaseQuietly txId
    fail (.registry (.unreadableForReassignment txId))
  | some (.finalizing tx _) => do
    update fun s => { s with
      registry := s.registry.setState txId (.finalizing tx newKey) }
    let (epochNumber, salt) ← HandlerM.lift (reassignmentSalt C world tx s.currentEpoch)
    match attestSelection C cfg world txId newKey epochNumber salt with
    | .error e => do
      releaseQuietly txId
      fail e
    | .ok _ => do
      releaseQuietly txId
      require (newKey ≠ [] ∧ world.finalizerReached newKey = true) (.noTarget .finalizer)
  | some _ =>
    -- the state is put back, and the release waits for the guard it is under
    fail (.deadlocked txId)

def handleRejection (message : Message) : SentinelM Unit := do
  let txId ← ofOption (S.decodeTxId message.body) .encoding
  onRegistry (fun _ => .transactionInTerminalState txId) (acquireTransaction txId)
  let s ← getState
  require (s.registry.isRequestedFinalizer txId message.publicKey = true)
    (.registry (.unassignedRejection message.publicKey txId))
  rememberReassignment world txId
  match reassignedKey C cfg world s txId message.publicKey with
  | none => do
    releaseQuietly txId
    fail (.registry (.noAlternativeFinalizer txId))
  | some newKey => reassignTo C cfg world txId newKey

def advanceEpoch (epochNumber : Nat) (s : SentinelState) : SentinelState :=
  if epochNumber ≤ s.currentEpoch then s
  else { s with currentEpoch := epochNumber, stakeSnapshots := ∅, executorSets := ∅ }

def handleBlockFinalizedForEpoch (message : Message) : SentinelM Unit := do
  let block ← ofOption (C.decodeBlock message.body) .encoding
  let s ← getState
  require (message.publicKey ∈ s.nodes .finalizer) (.registry (.notFinalizer message.publicKey))
  update (advanceEpoch block.epochNumber)

/-- The checks of `handle_shielded_transfer`. -/
def admitShielded (stx : ShieldedTransaction) : Except SentinelError FlaggedToken :=
  match handleShieldedTransferValidation P cfg.env world.poolView stx with
  | .error e => .error (.validation e)
  | .ok _ =>
    match world.getToken stx.tokenId with
    | none => .error (.validation (.validation [.tokenNotFound]))
    | some token =>
      if token.isSelfVerified = false then
        .error (.validation (.validation [.notSelfVerified]))
      else if token.isShieldedOptIn = false then
        .error (.validation (.validation [.notShieldedOptIn]))
      else .ok token

def handleShieldedTransfer (message : Message) : SentinelM Unit := do
  let stx ← ofOption (S.decodeShielded message.body) .encoding
  let token ← HandlerM.lift (admitShielded P cfg world stx)
  onRegistry (fun _ => .transactionAlreadyExists stx.id) (registerShielded stx)
  let s ← getState
  rememberStakes world s.currentEpoch
  let finalizerKey ← HandlerM.lift (assignFinalizerDeterministic cfg world s stx.id
    s.currentEpoch (chainTipOf C token))
  require (finalizerKey ≠ [] ∧ world.finalizerReached finalizerKey = true) (.noTarget .finalizer)

/-- `handle_register_request` on the shared buckets. -/
def handleRegisterMessage (message : Message) : SentinelM Unit := do
  let request ← ofOption (S.decodeRegistryRequest message.body) .encoding
  zoom SentinelState.nodes (fun s nodes => { s with nodes := nodes }) id
    (handleRegisterRequest C N cfg.node world.node request)

/-- The actions `on_data_received` knows. -/
inductive SentinelAction where
  | process
  | confirm
  | reject
  | register
  | clear
  | blockFinalized
  | shieldedTransfer
deriving DecidableEq

def SentinelAction.ofString (action : String) : Option SentinelAction :=
  if action = "Process" then some .process
  else if action = "Confirm" then some .confirm
  else if action = "Reject" then some .reject
  else if action = "Register" then some .register
  else if action = "Clear" ∨ action = "Delete" then some .clear
  else if action = "BlockFinalized" then some .blockFinalized
  else if action = "ShieldedTransfer" then some .shieldedTransfer
  else none

def handleSentinelAction (message : Message) : SentinelAction → SentinelM Unit
  | .process => handleProcessRequest C cfg world message
  | .confirm => handleConfirmation S message
  | .reject => handleRejection C S cfg world message
  | .register => handleRegisterMessage C N S cfg world message
  | .clear => handleClearRequest S message
  | .blockFinalized => handleBlockFinalizedForEpoch C message
  | .shieldedTransfer => handleShieldedTransfer C P S cfg world message

def onDataReceived (rawData : Bytes) : SentinelM Unit := do
  let message ← ofOption (S.decodeMessage rawData) .encoding
  match SentinelAction.ofString message.action with
  | none => fail (.unknownAction message.action)
  | some action => handleSentinelAction C P N S cfg world message.toMessage action

end Pneumatic
