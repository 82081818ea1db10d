import Pneumatic.Executor.Executor
import Pneumatic.Finalizer.Shielded
import Pneumatic.Sentinel.Handlers

/-!
# The composite host's data plane

`transport.rs`, `role_dispatcher.rs` and `role_adapters.rs`: a frame is decoded
into a message, the message goes to the one installed role that owns its action,
and the role's adapter hands it to a handler. The roles of a host share the
pending registry and the node buckets, and every role gate asks the buckets.

The adapter of the Executor passes on the body alone, and that of the Sentinel
the body as a message of its own. What the Committer and the Finalizer's two
shielded handlers do with a message they have authenticated is a parameter
here: nothing below depends on it.
-/

namespace Pneumatic

open Handler HandlerM

def committerActions : List String :=
  ["Commit", "DistributeToken", "DistributeBlock", "EpochReconcile",
    "BlockFinalized", "BlockConfirmed", "BlockQuorumReached"]

def executorActions : List String := ["Preload"]

def sentinelActions : List String := ["Verify"]

def finalizerActions : List String :=
  ["PreloadForFinalizer", "Sign", "Finalize", "SignShielded", "ShieldedVote"]

/-- `RoleHandler::allowed_actions`; there is no plugin for an archiver. -/
def allowedActions : NodeRegistryType → List String
  | .committer => committerActions
  | .executor => executorActions
  | .sentinel => sentinelActions
  | .finalizer => finalizerActions
  | .archiver => []

/-- `RoleError`, with the handler's error in place of its text. `stalled` is no
error of the source: it stands for the wait for a dispatcher that a deadlocked
handler never gives back. -/
inductive RoleError where
  | undecodable
  | unknownAction (action : String)
  | ambiguousAction (action : String) (roles : List NodeRegistryType)
  | committer (error : CommitterError)
  | executor (error : ExecutorError)
  | sentinel (error : SentinelError)
  | finalizer (error : PneumaticError)
  | unhandledAction (action : String)
  | stalled

/-- What the roles of a host hold, the shared parts once. The registry of
`finalizer` stands for `registry.transactions`. -/
structure HostState where
  registry : PendingTransactionRegistry
  nodes : NodeBuckets
  currentEpoch : Nat
  stakeSnapshots : Finmap (fun _ : Nat => StakeSet)
  executorSets : Finmap (fun _ : Nat => StakeSet)
  preloadTasks : Finset String
  activeTasks : Finset String
  finalizer : FinalizerState
  stalled : Bool

abbrev HostM := HandlerM HostState RoleError

structure HostConfig where
  hosts : List NodeRegistryType
  sentinel : SentinelConfig
  finalizer : FinalizerConfig
  committer : VotingSetup
  maxInFlight : Nat

/-- What the surroundings answer while one frame is handled, and what happens to
a message after the Committer or a shielded handler has authenticated it. -/
structure HostWorld where
  sentinel : SentinelWorld
  finalizer : FinalizerWorld
  authenticated : WireMessage → HostM Unit

variable (C : Codec) (P : ShieldedPrimitives) (N : NodeCodec) (S : SentinelCodec)
  (cfg : HostConfig) (world : HostWorld)

def HostState.sentinel (s : HostState) : SentinelState where
  registry := s.registry
  nodes := s.nodes
  currentEpoch := s.currentEpoch
  stakeSnapshots := s.stakeSnapshots
  executorSets := s.executorSets

def HostState.setSentinel (s : HostState) (sentinel : SentinelState) : HostState :=
  { s with
    registry := sentinel.registry
    nodes := sentinel.nodes
    currentEpoch := sentinel.currentEpoch
    stakeSnapshots := sentinel.stakeSnapshots
    executorSets := sentinel.executorSets }

def HostState.executor (s : HostState) : ExecutorState where
  registry := s.registry
  preloadTasks := s.preloadTasks
  activeTasks := s.activeTasks

def HostState.setExecutor (s : HostState) (executor : ExecutorState) : HostState :=
  { s with
    registry := executor.registry
    preloadTasks := executor.preloadTasks
    activeTasks := executor.activeTasks }

/-- The Finalizer's state with the shared transactions as its registry. -/
def HostState.finalizerView (s : HostState) : FinalizerState :=
  { s.finalizer with pending := s.registry.transactions }

def HostState.setFinalizer (s : HostState) (finalizer : FinalizerState) : HostState :=
  { s with
    finalizer := finalizer
    registry := { s.registry with transactions := finalizer.pending } }

def HostState.roles (s : HostState) (key : Bytes) : List NodeRegistryType :=
  rolesOfKey cfg.sentinel.node world.sentinel.node s.nodes key

section

variable (message : WireMessage)

/-- What the Finalizer is answered, the roles from the shared buckets. -/
def HostState.finalizerWorld (s : HostState) : FinalizerWorld :=
  { world.finalizer with roles := s.roles cfg world }

def handleCommitter : HostM Unit := do
  let s ← getState
  match authenticateMessage C cfg.committer (s.roles cfg world) message with
  | .error e => fail (.committer e)
  | .ok () => world.authenticated message

def handleExecutor : HostM Unit :=
  zoom HostState.executor HostState.setExecutor RoleError.executor
    (ingestPreload C cfg.maxInFlight message.body)

/-- The Sentinel's adapter. A handler that deadlocks keeps the dispatcher. -/
def handleSentinel : HostM Unit := fun s =>
  match (zoom HostState.sentinel HostState.setSentinel RoleError.sentinel
      (onDataReceived C P N S cfg.sentinel world.sentinel message.body)).exec s with
  | (.error (.sentinel (.deadlocked txId)), s') =>
    (.error (.sentinel (.deadlocked txId)), { s' with stalled := true })
  | result => result

/-- A handler of the Finalizer that works on its own tables and the shared
transactions. -/
def onFinalizer (handler : FinalizerWorld → FinalizerM FinalizerReply) : HostM Unit := do
  let s ← getState
  let _ ← zoom HostState.finalizerView HostState.setFinalizer RoleError.finalizer
    (handler (s.finalizerWorld cfg world))
  pure ()

def handleShielded : HostM Unit := do
  let s ← getState
  match authenticateShieldedMessage C (s.roles cfg world) message.toMessage with
  | .error e => fail (.finalizer e)
  | .ok () => world.authenticated message

def handleFinalizer : HostM Unit :=
  if message.action = "PreloadForFinalizer" then
    onFinalizer cfg world fun answers =>
      handlePreload C cfg.finalizer answers message.toMessage
  else if message.action = "Sign" then
    onFinalizer cfg world fun answers =>
      handleSignature C cfg.finalizer answers message.toMessage
  else if message.action = "SignShielded" ∨ message.action = "ShieldedVote" then
    handleShielded C cfg world message
  else fail (.unhandledAction message.action)

/-- `RoleHandler::handle`. -/
def handleRole : NodeRegistryType → HostM Unit
  | .committer => handleCommitter C cfg world message
  | .executor => handleExecutor C cfg message
  | .sentinel => handleSentinel C P N S cfg world message
  | .finalizer => handleFinalizer C cfg world message
  | .archiver => fail (.unhandledAction message.action)

def HostConfig.owners (cfg : HostConfig) (action : String) : List NodeRegistryType :=
  cfg.hosts.filter fun role => (allowedActions role).contains action

def dispatch : HostM Unit :=
  match cfg.owners message.action with
  | [] => fail (.unknownAction message.action)
  | [role] => handleRole C P N S cfg world message role
  | roles => fail (.ambiguousAction message.action roles)

end

def routeDataPlane (data : Bytes) : HostM Unit := do
  let message ← ofOption (S.decodeMessage data) .undecodable
  let s ← getState
  require (s.stalled = false) .stalled
  dispatch C P N S cfg world message

structure Frame where
  world : HostWorld
  data : Bytes

def hostStep (s : HostState) (frame : Frame) : HostState :=
  ((routeDataPlane C P N S cfg frame.world frame.data).exec s).2

end Pneumatic
