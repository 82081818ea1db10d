import Pneumatic.NodeServer.Dispatch

/-!
# The epoch coordinator of a composite host

`epoch_coord.rs` with what a tick drives: the stake index of the registration
gate, the role selector, and `advance_epoch` of every installed plugin.

Five parts of a host keep an epoch number. The Committer advances a detector of
its own, which `build_role_plugin` clones from the host's when it is built; the
coordinator asks the host's, which nothing writes afterwards. A tick hands the
number it reads there to the stake index and to the Sentinel, tells the Finalizer
to count one up whatever the number is, and lets the role selector choose again
at the epoch the selector has.

The caches that an advance invalidates are kept where a modelled function reads
them, in the Sentinel. The Finalizer's counter is a natural number: it would take
2^64 ticks to wrap.
-/

namespace Pneumatic

open Handler HandlerM

/-- `StakeIndex`: the stakes of the epoch it was last pointed at. -/
structure StakeIndex where
  inner : StakeSet
  epoch : Nat

/-- `StakeIndex::refresh`; an index that cannot be built leaves the old one. -/
def StakeIndex.refresh (snapshots : Nat → Option StakeSet) (index : StakeIndex) : StakeIndex :=
  match snapshots index.epoch with
  | none => index
  | some snapshot => { index with inner := snapshot }

def StakeIndex.setEpoch (snapshots : Nat → Option StakeSet) (epoch : Nat)
    (index : StakeIndex) : StakeIndex :=
  { index with epoch := epoch }.refresh snapshots

@[simp]
theorem StakeIndex.refresh_epoch (snapshots : Nat → Option StakeSet)
    (index : StakeIndex) : (index.refresh snapshots).epoch = index.epoch := by
  unfold StakeIndex.refresh
  split <;> rfl

@[simp]
theorem StakeIndex.setEpoch_epoch (snapshots : Nat → Option StakeSet) (epoch : Nat)
    (index : StakeIndex) : (index.setEpoch snapshots epoch).epoch = epoch :=
  StakeIndex.refresh_epoch snapshots _

structure RoleSelector where
  epoch : Nat
  lastSelected : List NodeRegistryType

/-- The roles a node's own stake reaches both floors of. -/
def qualifyingRoles (cfg : NodeConfig) (stake : Nat) : List NodeRegistryType :=
  NodeRegistryType.all.filter fun role =>
    meetsMinimumStake stake cfg.globalMinStake (cfg.minTypeStake role)

/-- `RoleSelector::select`; `stake` is the stake provider's answer. -/
def RoleSelector.select (cfg : NodeConfig) (stake : Bytes → Nat → Nat)
    (selector : RoleSelector) : List NodeRegistryType × RoleSelector :=
  let qualifying := qualifyingRoles cfg (stake cfg.publicKey selector.epoch)
  (qualifying, { selector with lastSelected := qualifying })

/-- A plugin in the dispatcher, with what an epoch advance reaches of it. -/
inductive RoleHost where
  | committer (leader : LeaderState)
  | executor
  | sentinel (state : SentinelState)
  | finalizer (config : FinalizerConfig)

def RoleHost.role : RoleHost → NodeRegistryType
  | .committer _ => .committer
  | .executor => .executor
  | .sentinel _ => .sentinel
  | .finalizer _ => .finalizer

def FinalizerConfig.advanceEpoch (cfg : FinalizerConfig) : FinalizerConfig :=
  { cfg with currentEpoch := cfg.currentEpoch + 1 }

/-- `RoleHost::advance_epoch`: the Committer drives its own epoch, the Executor
has none, and the Finalizer's adapter drops the number. -/
def RoleHost.advanceEpoch (epoch : Nat) : RoleHost → RoleHost
  | .committer leader => .committer leader
  | .executor => .executor
  | .sentinel state => .sentinel (Pneumatic.advanceEpoch epoch state)
  | .finalizer config => .finalizer config.advanceEpoch

structure NodeServer where
  epochBoundaryDetector : EpochBoundaryDetector
  stakeIndex : StakeIndex
  roleSelector : RoleSelector
  hosts : List RoleHost

/-- What the surroundings answer during a tick. -/
structure TickWorld where
  getStakeSnapshot : Nat → Option StakeSet
  stake : Bytes → Nat → Nat

namespace NodeServer

def currentEpoch (server : NodeServer) : Nat :=
  server.epochBoundaryDetector.currentEpoch.epochNumber

/-- `NodeServer::roll_forward`, with the roles it visited. -/
def rollForward (epoch : Nat) (server : NodeServer) : List NodeRegistryType × NodeServer :=
  (server.hosts.map RoleHost.role,
    { server with hosts := server.hosts.map (RoleHost.advanceEpoch epoch) })

def recomputeRoleSet (cfg : NodeConfig) (stake : Bytes → Nat → Nat)
    (server : NodeServer) : List NodeRegistryType × NodeServer :=
  let (roles, selector) := server.roleSelector.select cfg stake
  (roles, { server with roleSelector := selector })

def pollAndAdvance (cfg : NodeConfig) (world : TickWorld) (now : Int)
    (server : NodeServer) : Bool × NodeServer :=
  if server.epochBoundaryDetector.isEpochExpired now = false then (false, server)
  else
    let epoch := server.currentEpoch
    let server :=
      { server with
        stakeIndex := server.stakeIndex.setEpoch world.getStakeSnapshot epoch }
    let server := (server.rollForward epoch).2
    (true, (server.recomputeRoleSet cfg world.stake).2)

end NodeServer

/-- What a host is built from: the state its Committer starts in, the registry
and the buckets its roles share, and the data of its Finalizer. -/
structure HostParts where
  committer : CommitterState
  queue : TransactionPool
  registry : PendingTransactionRegistry
  nodes : NodeBuckets
  finalizer : FinalizerConfig

/-- `build_role_plugin`. The Committer gets a copy of the detector and counts
from 0, the Sentinel and the Finalizer count from 1. -/
def buildRolePlugin (parts : HostParts) (detector : EpochBoundaryDetector) :
    NodeRegistryType → Option RoleHost
  | .committer => some (.committer
      { base := parts.committer
        queue := parts.queue
        detector := some detector
        epochNumber := 0
        calls := [] })
  | .executor => some .executor
  | .sentinel => some (.sentinel
      { registry := parts.registry
        nodes := parts.nodes
        currentEpoch := 1
        stakeSnapshots := ∅
        executorSets := ∅ })
  | .finalizer => some (.finalizer { parts.finalizer with currentEpoch := 1 })
  | .archiver => none

def initialDetector (setup : LeaderSetup) (stakes : StakeSet) (now : Int) :
    EpochBoundaryDetector where
  currentEpoch :=
    { startTimestamp := now
      endTimestamp := now + 300
      epochNumber := 1
      leaderPublicKey := setup.select stakes 1 [] }
  previousLeader := none

/-- The parts of `build_runtime` that have to do with epochs. -/
def buildRuntime (cfg : NodeConfig) (setup : LeaderSetup) (parts : HostParts)
    (world : TickWorld) (now : Int) : NodeServer :=
  let detector := initialDetector setup parts.committer.stakes now
  let (roleSet, selector) := (RoleSelector.mk 1 []).select cfg world.stake
  { epochBoundaryDetector := detector
    stakeIndex := (StakeIndex.mk ∅ 1).refresh world.getStakeSnapshot
    roleSelector := selector
    hosts := roleSet.filterMap (buildRolePlugin parts detector) }

/-- A tick of the coordinator, or a call of the Committer's
`advance_epoch_to`. -/
inductive EpochEvent where
  | tick (now : Int) (world : TickWorld)
  | advance (world : TurnWorld)

variable (C : Codec) (setup : LeaderSetup)

/-- The Committer among the plugins advances its own detector. -/
def RoleHost.selfAdvance (world : TurnWorld) : RoleHost → RoleHost
  | .committer leader =>
    .committer ((advanceEpochTo C setup world).exec leader).2
  | .executor => .executor
  | .sentinel state => .sentinel state
  | .finalizer config => .finalizer config

def epochStep (cfg : NodeConfig) (server : NodeServer) : EpochEvent → NodeServer
  | .tick now world => (server.pollAndAdvance cfg world now).2
  | .advance world =>
    { server with hosts := server.hosts.map (RoleHost.selfAdvance C setup world) }

end Pneumatic
