import Pneumatic.Lib.Interleaving
import Pneumatic.Sentinel.Handlers

/-!
# The lock steps of the Sentinel's epoch

`advance_epoch` and `EpochSnapshotCache::get` as calls that other calls come between.
The epoch and each of the two caches have a lock of their own, which is held for one
step at a time: `advance_epoch` takes that of the epoch twice, to compare and to assign,
and then empties the caches one after the other. A `get` that finds nothing fetches
without a lock and inserts under the epoch it was called with.
-/

namespace Pneumatic

inductive SnapshotCache where
  | executorSet
  | stakeSnapshot
deriving DecidableEq

def SentinelState.cache (s : SentinelState) :
    SnapshotCache → Finmap (fun _ : Nat => StakeSet)
  | .executorSet => s.executorSets
  | .stakeSnapshot => s.stakeSnapshots

def SentinelState.setCache (s : SentinelState) (cached : Finmap (fun _ : Nat => StakeSet)) :
    SnapshotCache → SentinelState
  | .executorSet => { s with executorSets := cached }
  | .stakeSnapshot => { s with stakeSnapshots := cached }

/-- A snapshot that came from the data provider, or that a `get` returned. -/
structure Snapshot where
  cache : SnapshotCache
  epoch : Nat
  stakes : StakeSet

/-- The Sentinel, and beside it a history: the arguments of `advance_epoch`, what was
fetched for which epoch, and what was served for which. -/
structure EpochState where
  sentinel : SentinelState
  asked : List Nat
  fetched : List Snapshot
  served : List Snapshot

inductive EpochInput where
  | advanceEpoch (epoch : Nat)
  | get (cache : SnapshotCache) (epoch : Nat)

/-- Where a call is, between two locks. -/
inductive EpochPoint where
  | assign (epoch : Nat)
  | invalidateExecutorSets
  | invalidateStakeSnapshots
  | fetch (cache : SnapshotCache) (epoch : Nat)
  | insert (snapshot : Snapshot)

def epochStart : EpochInput → EpochState → EpochState × Option EpochPoint
  | .advanceEpoch epoch, s =>
    ({ s with asked := epoch :: s.asked },
      if epoch ≤ s.sentinel.currentEpoch then none else some (.assign epoch))
  | .get cache epoch, s =>
    match (s.sentinel.cache cache).lookup epoch with
    | some stakes => ({ s with served := ⟨cache, epoch, stakes⟩ :: s.served }, none)
    | none => (s, some (.fetch cache epoch))

/-- The next lock step of a call, or the fetch, which the data provider answers. -/
def epochAdvance (answer : Option StakeSet) :
    EpochPoint → EpochState → EpochState × Option EpochPoint
  | .assign epoch, s =>
    ({ s with sentinel := { s.sentinel with currentEpoch := epoch } },
      some .invalidateExecutorSets)
  | .invalidateExecutorSets, s =>
    ({ s with sentinel := s.sentinel.setCache ∅ .executorSet }, some .invalidateStakeSnapshots)
  | .invalidateStakeSnapshots, s =>
    ({ s with sentinel := s.sentinel.setCache ∅ .stakeSnapshot }, none)
  | .fetch cache epoch, s =>
    match answer with
    | none => (s, none)
    | some stakes =>
      ({ s with fetched := ⟨cache, epoch, stakes⟩ :: s.fetched },
        some (.insert ⟨cache, epoch, stakes⟩))
  | .insert snapshot, s =>
    ({ s with
        sentinel := s.sentinel.setCache
          ((s.sentinel.cache snapshot.cache).insert snapshot.epoch snapshot.stakes) snapshot.cache
        served := snapshot :: s.served },
      none)

abbrev EpochMachine := Interleaving.State EpochState EpochPoint

abbrev EpochTurn := Interleaving.Turn EpochInput (Option StakeSet)

def epochMachineTurn : EpochMachine → EpochTurn → EpochMachine :=
  Interleaving.turn epochStart epochAdvance

/-- A Sentinel with empty caches and no call under way. -/
def epochBoot (s : SentinelState) : EpochMachine :=
  ⟨⟨{ s with stakeSnapshots := ∅, executorSets := ∅ }, [], [], []⟩, fun _ => none⟩

/-- A call of `advance_epoch` that nothing comes between is the handler's. -/
theorem alone_advanceEpoch (epoch : Nat) (s : EpochState) (answer : Option StakeSet) :
    (Interleaving.alone epochAdvance answer 3
      (epochStart (.advanceEpoch epoch) s)).1.sentinel = advanceEpoch epoch s.sentinel := by
  by_cases h : epoch ≤ s.sentinel.currentEpoch
  · simp [epochStart, advanceEpoch, h]
  · simp only [epochStart, advanceEpoch, h, if_false]
    rfl

end Pneumatic
