import Pneumatic.DataService.Entities
import Pneumatic.Proofs.EpochCoherence

/-!
# An epoch advance whose snapshots are not saved

`advance_epoch_to` moves the detector and the counter, and then saves the stake snapshot
and the executor set of the new epoch. An error of a save is returned and nothing is
moved back, so the epoch has advanced all the same and only what was to be saved is
missing. The next call is not a second attempt at the same epoch: it goes on from the one
that the failed call left behind.

The model of the advance in `Committer.Epoching` asks its surroundings whether a save
succeeds. Here the saves write, into the snapshots that the data service holds, and the lock
of the detector can be taken.
-/

namespace Pneumatic

open Handler HandlerM Run

/-- The snapshots of a partition in the data service, by epoch. -/
structure Snapshots where
  stakes : Finmap (fun _ : Nat => StakeSet)
  executors : Finmap (fun _ : Nat => ExecutorSet)

structure PersistingLeader where
  leader : LeaderState
  snapshots : Snapshots

abbrev PersistM := HandlerM PersistingLeader CommitterError

/-- How a save ends. The answer of a request that was served can be lost. -/
inductive SaveOutcome where
  | saved
  | refused
  | unanswered
deriving DecidableEq

structure AdvanceWorld where
  lockFree : Bool
  saveStakeSnapshot : SaveOutcome
  saveExecutorSet : SaveOutcome

def Snapshots.insertStakes (number : Nat) (stakes : StakeSet) (snapshots : Snapshots) : Snapshots :=
  { snapshots with stakes := snapshots.stakes.insert number stakes }

def Snapshots.insertExecutors (number : Nat) (executors : ExecutorSet)
    (snapshots : Snapshots) : Snapshots :=
  { snapshots with executors := snapshots.executors.insert number executors }

def SaveOutcome.save (outcome : SaveOutcome) (write : Snapshots → Snapshots)
    (error : CommitterError) : PersistM Unit := do
  update fun st =>
    if outcome = .refused then st else { st with snapshots := write st.snapshots }
  require (outcome = .saved) error

variable (C : Codec) (setup : LeaderSetup)

/-- `Committer::advance_epoch_to`. -/
def advanceEpochSaving (world : AdvanceWorld) : PersistM (Option Bytes) := do
  let st ← getState
  require (world.lockFree = true) .internalSerialization
  let detector ← ofOption st.leader.detector .internalSerialization
  let number := detector.currentEpoch.epochNumber + 1
  if number ≤ st.leader.epochNumber then pure none
  else do
    let stakes := st.leader.base.stakes
    let advanced := detector.advanceToNewEpoch setup stakes
      (canonicalChainTip C st.leader.base.tokens)
    update fun st =>
      { st with
        leader := { st.leader with detector := some advanced, epochNumber := number } }
    world.saveStakeSnapshot.save (Snapshots.insertStakes number stakes)
      (.snapshotPersist number .stake)
    world.saveExecutorSet.save (Snapshots.insertExecutors number stakes.toExecutorSet)
      (.snapshotPersist number .executor)
    pure (some advanced.currentEpoch.leaderPublicKey)

/-- The call gives up before it moves anything. -/
def Refuses (world : AdvanceWorld) (st : PersistingLeader) : Prop :=
  world.lockFree = false ∨ ∀ detector, st.leader.detector = some detector →
    detector.currentEpoch.epochNumber < st.leader.epochNumber

/-- Both snapshots are saved. -/
def AdvanceWorld.Saves (world : AdvanceWorld) : Prop :=
  world.saveStakeSnapshot = .saved ∧ world.saveExecutorSet = .saved

variable {C setup} {world : AdvanceWorld} {st : PersistingLeader}

theorem exec_save (outcome : SaveOutcome) (write : Snapshots → Snapshots)
    (error : CommitterError) (st : PersistingLeader) :
    (outcome.save write error).exec st = (if outcome = .saved then .ok () else .error error,
        if outcome = .refused then st else { st with snapshots := write st.snapshots }) := by
  unfold SaveOutcome.save
  rw [exec_bind_ok (exec_update _ _), exec_require]

variable (C setup) in
theorem exec_of_refuses (h : Refuses world st) :
    (advanceEpochSaving C setup world).exec st = (.error .internalSerialization, st) ∨
      (advanceEpochSaving C setup world).exec st = (.ok none, st) := by
  unfold advanceEpochSaving
  rw [exec_bind_ok (exec_getState _)]
  by_cases hl : world.lockFree = true
  · rw [exec_bind_ok (by rw [exec_require, if_pos hl])]
    cases hd : st.leader.detector with
    | none => exact .inl (exec_bind_error (exec_ofOption_none _ _))
    | some d =>
      have hb : d.currentEpoch.epochNumber + 1 ≤ st.leader.epochNumber := by
        rcases h with h | h
        · rw [hl] at h; cases h
        · exact h d hd
      rw [exec_bind_ok (exec_ofOption_some _ _ _)]
      simp only [hb, if_true]
      exact .inr (exec_pure _ _)
  · rw [exec_bind_error (by rw [exec_require, if_neg hl])]
    exact .inl rfl

variable (C setup) in
def PersistingLeader.moved (detector : EpochBoundaryDetector) (st : PersistingLeader) :
    PersistingLeader :=
  { st with
    leader :=
      { st.leader with
        detector := some (detector.advanceToNewEpoch setup st.leader.base.stakes
          (canonicalChainTip C st.leader.base.tokens))
        epochNumber := detector.currentEpoch.epochNumber + 1 } }

/-- What the saves of a call leave in the data service. -/
def AdvanceWorld.written (world : AdvanceWorld) (number : Nat) (stakes : StakeSet)
    (snapshots : Snapshots) : Snapshots :=
  if world.saveStakeSnapshot = .refused then snapshots
  else if world.saveStakeSnapshot = .unanswered ∨ world.saveExecutorSet = .refused then
    snapshots.insertStakes number stakes
  else (snapshots.insertStakes number stakes).insertExecutors number stakes.toExecutorSet

def AdvanceWorld.verdict (world : AdvanceWorld) (number : Nat) (leader : Bytes) :
    Except CommitterError (Option Bytes) :=
  if world.saveStakeSnapshot ≠ .saved then .error (.snapshotPersist number .stake)
  else if world.saveExecutorSet ≠ .saved then .error (.snapshotPersist number .executor)
  else .ok (some leader)

variable (C setup) in
/-- A call that does not refuse moves the epoch, whatever becomes of the saves. -/
theorem exec_of_not_refuses (h : ¬ Refuses world st) :
    ∃ d, st.leader.detector = some d ∧
      st.leader.epochNumber ≤ d.currentEpoch.epochNumber ∧
      (advanceEpochSaving C setup world).exec st =
        (world.verdict (d.currentEpoch.epochNumber + 1)
            (setup.select st.leader.base.stakes (d.currentEpoch.epochNumber + 1)
              (canonicalChainTip C st.leader.base.tokens)),
          { st.moved C setup d with
            snapshots := world.written (d.currentEpoch.epochNumber + 1)
              st.leader.base.stakes st.snapshots }) := by
  unfold Refuses at h
  push Not at h
  obtain ⟨hl, d, hd, hle⟩ := h
  refine ⟨d, hd, hle, ?_⟩
  have hl : world.lockFree = true := by simpa using hl
  unfold advanceEpochSaving
  rw [exec_bind_ok (exec_getState _), exec_bind_ok (by rw [exec_require, if_pos hl]),
    hd, exec_bind_ok (exec_ofOption_some _ _ _)]
  simp only [Nat.not_le.mpr (Nat.lt_succ_of_le hle), if_false]
  rw [exec_bind_ok (exec_update _ _)]
  -- each save either goes on or ends the call
  cases hs : world.saveStakeSnapshot <;> cases he : world.saveExecutorSet <;>
    simp [exec_bind, exec_save, exec_pure, AdvanceWorld.verdict, AdvanceWorld.written,
      PersistingLeader.moved, EpochBoundaryDetector.advanceToNewEpoch, hs, he]

/-- Detector, counter and both snapshots are those of the epoch. -/
structure AdvancedTo (number : Nat) (before after : PersistingLeader) : Prop where
  detector : ∃ detector, after.leader.detector = some detector ∧
    detector.currentEpoch.epochNumber = number
  counter : after.leader.epochNumber = number
  stakes : after.snapshots.stakes.lookup number = some before.leader.base.stakes
  executors : after.snapshots.executors.lookup number = some before.leader.base.stakes.toExecutorSet

/-- None of them has changed. -/
structure Unmoved (before after : PersistingLeader) : Prop where
  detector : after.leader.detector = before.leader.detector
  counter : after.leader.epochNumber = before.leader.epochNumber
  snapshots : after.snapshots = before.snapshots

variable (C setup world st) in
/-- The call advances everything and names the leader, or it leaves everything alone and
does not. -/
def AllOrNothing : Prop :=
  (∃ detector leader after, st.leader.detector = some detector ∧
    (advanceEpochSaving C setup world).exec st = (.ok (some leader), after) ∧
    AdvancedTo (detector.currentEpoch.epochNumber + 1) st after) ∨
  (∃ error after, (advanceEpochSaving C setup world).exec st = (.error error, after) ∧
    Unmoved st after) ∨
  ∃ after, (advanceEpochSaving C setup world).exec st = (.ok none, after) ∧ Unmoved st after

theorem Unmoved.refl (st : PersistingLeader) : Unmoved st st := ⟨rfl, rfl, rfl⟩

theorem allOrNothing_of_refuses (h : Refuses world st) : AllOrNothing C setup world st := by
  rcases exec_of_refuses C setup h with he | he
  · exact .inr (.inl ⟨_, _, he, .refl st⟩)
  · exact .inr (.inr ⟨_, he, .refl st⟩)

theorem advancedTo_of_saves (hsv : world.Saves) (detector : EpochBoundaryDetector) :
    AdvancedTo (detector.currentEpoch.epochNumber + 1) st
      { st.moved C setup detector with
        snapshots := world.written (detector.currentEpoch.epochNumber + 1)
          st.leader.base.stakes st.snapshots } := by
  obtain ⟨hs, he⟩ := hsv
  constructor
  · exact ⟨_, rfl, rfl⟩
  · rfl
  · simp [AdvanceWorld.written, hs, he, Snapshots.insertStakes, Snapshots.insertExecutors]
  · simp [AdvanceWorld.written, hs, he, Snapshots.insertStakes, Snapshots.insertExecutors]

theorem not_unmoved_moved {detector : EpochBoundaryDetector} {snapshots : Snapshots}
    (hd : st.leader.detector = some detector) :
    ¬ Unmoved st { st.moved C setup detector with snapshots := snapshots } := by
  intro h
  have hs := h.detector.trans hd
  have hn := congrArg (fun d => d.currentEpoch.epochNumber) (Option.some.inj hs)
  exact absurd hn (Nat.succ_ne_self _)

theorem verdict_eq_ok_iff {number : Nat} {leader : Bytes} {answer : Option Bytes} :
    world.verdict number leader = .ok answer ↔ world.Saves ∧ answer = some leader := by
  unfold AdvanceWorld.verdict AdvanceWorld.Saves
  by_cases hs : world.saveStakeSnapshot = .saved <;>
    by_cases he : world.saveExecutorSet = .saved <;>
    simp [hs, he, eq_comm]

theorem allOrNothing_iff : AllOrNothing C setup world st ↔ Refuses world st ∨ world.Saves := by
  by_cases hrf : Refuses world st
  · exact iff_of_true (allOrNothing_of_refuses hrf) (.inl hrf)
  · obtain ⟨d, hd, -, he⟩ :=
      exec_of_not_refuses C setup hrf
    constructor
    · intro h
      refine .inr ?_
      rcases h with ⟨_, l, after, _, hr, _⟩ | ⟨error, after, hr, hs⟩ | ⟨after, hr, hs⟩
      all_goals rw [he, Prod.mk.injEq] at hr
      · exact (verdict_eq_ok_iff.mp hr.1).1
      all_goals exact absurd (hr.2 ▸ hs) (not_unmoved_moved hd)
    · rintro (h | hsv)
      · exact absurd h hrf
      · rw [verdict_eq_ok_iff.mpr ⟨hsv, rfl⟩] at he
        exact .inl ⟨d, _, _, hd, he, advancedTo_of_saves hsv d⟩

/-- A call, or something else the Committer does, which leaves the detector and the
counter alone. -/
inductive EpochCall where
  | advance (world : AdvanceWorld)
  | elsewhere (base : CommitterState) (queue : TransactionPool)

variable (C setup) in
def epochCallStep (st : PersistingLeader) : EpochCall → PersistingLeader
  | .advance world => ((advanceEpochSaving C setup world).exec st).2
  | .elsewhere base queue => { st with leader := { st.leader with base := base, queue := queue } }

/-- The counter is at the detector's epoch. -/
def Mirrored (st : PersistingLeader) : Prop :=
  ∀ detector, st.leader.detector = some detector →
    st.leader.epochNumber = detector.currentEpoch.epochNumber

theorem Mirrored.step (h : Mirrored st) (call : EpochCall) :
    Mirrored (epochCallStep C setup st call) := by
  cases call with
  | elsewhere base queue => exact h
  | advance world =>
    show Mirrored ((advanceEpochSaving C setup world).exec st).2
    by_cases hr : Refuses world st
    · rcases exec_of_refuses C setup hr with he | he
      · rw [he]; exact h
      · rw [he]; exact h
    · obtain ⟨d, -, -, he⟩ :=
        exec_of_not_refuses C setup hr
      rw [he]
      rintro _ ⟨⟩
      rfl

theorem Mirrored.run (h : Mirrored st) (calls : List EpochCall) :
    Mirrored (run (epochCallStep C setup) st calls) := by
  have hm : Meets (epochCallStep C setup) (fun _ _ => True) st calls :=
    meets_iff_forall.mpr fun _ _ _ _ => trivial
  exact run_invariant (fun _ call h _ => h.step call) h hm

/-- A call is all or nothing exactly if it refuses or both saves succeed. The detector and
the counter stay together in any case: a failed save finds both of them moved. -/
theorem epoch_advance_iff (C : Codec) (setup : LeaderSetup) :
    (∀ world st, AllOrNothing C setup world st ↔ Refuses world st ∨ world.Saves) ∧
      ∀ st calls, Mirrored st → Mirrored (run (epochCallStep C setup) st calls) :=
  ⟨fun _ _ => allOrNothing_iff, fun _ calls h => h.run calls⟩

namespace SkippedEpoch

def atFirstEpoch : PersistingLeader where
  leader :=
    { base := bootState
      queue := .new
      detector := some (initialDetector firstLeader ∅ 0)
      epochNumber := 1
      calls := [] }
  snapshots := ⟨∅, ∅⟩

def refusing : AdvanceWorld := ⟨true, .refused, .saved⟩

def saving : AdvanceWorld := ⟨true, .saved, .saved⟩

def after (world : AdvanceWorld) (st : PersistingLeader) : PersistingLeader :=
  ((advanceEpochSaving ShieldedPool.sampleCodec firstLeader world).exec st).2

/-- The epoch of the detector, the counter, and which of the first epochs have a
stake snapshot. -/
def counts (st : PersistingLeader) : Option Nat × Nat × List Bool :=
  (st.leader.detector.map fun detector => detector.currentEpoch.epochNumber, st.leader.epochNumber,
    [2, 3].map fun number => (st.snapshots.stakes.lookup number).isSome)

/-- The save of the stake snapshot fails and the call with it. The detector and the counter
are at the second epoch. The next call saves the third, and the second stays without a
snapshot. -/
theorem failed_advance_moves :
    ((advanceEpochSaving ShieldedPool.sampleCodec firstLeader refusing).exec
        atFirstEpoch).1 = .error (.snapshotPersist 2 .stake) ∧
      counts (after refusing atFirstEpoch) = (some 2, 2, [false, false]) ∧
      ¬ AllOrNothing ShieldedPool.sampleCodec firstLeader refusing atFirstEpoch ∧
      counts (after saving (after refusing atFirstEpoch)) = (some 3, 3, [false, true]) := by
  refine ⟨rfl, rfl, ?_, rfl⟩
  rw [allOrNothing_iff]
  rintro ((hl | hb) | ⟨hs, -⟩)
  · cases hl
  · exact absurd (hb _ rfl) (by decide)
  · cases hs

theorem saved_advance_whole :
    AllOrNothing ShieldedPool.sampleCodec firstLeader saving atFirstEpoch ∧
      Mirrored (run (epochCallStep ShieldedPool.sampleCodec firstLeader) atFirstEpoch
        [.advance refusing, .advance saving]) := by
  obtain ⟨hiff, hm⟩ := epoch_advance_iff ShieldedPool.sampleCodec firstLeader
  refine ⟨(hiff saving atFirstEpoch).mpr (.inr ⟨rfl, rfl⟩), hm _ _ ?_⟩
  rintro _ ⟨⟩
  rfl

end SkippedEpoch

end Pneumatic
