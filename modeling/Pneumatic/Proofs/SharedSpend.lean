import Pneumatic.Proofs.ForkChoice
import Pneumatic.Proofs.PoolLockstep

/-!
# Two rivals that spend one note

A conflict between two shielded blocks is most likely one between two spends of
the same note. The conflict check lets the block with more stake go on, and then
its delta is applied to a pool that still holds the loser's: the loser's is
reverted only after the block is on the chain. So the pool's re-check finds the
nullifier spent and refuses the winner, always, and the block with less stake
keeps its position and its delta.
-/

namespace Pneumatic

open Handler HandlerM ShieldedPool

variable {C : Codec} {P : ShieldedPrimitives} {cfg : CommitterConfig} {s : CommitterState}

section

variable (C : Codec) (P : ShieldedPrimitives) (cfg : CommitterConfig) (s : CommitterState)
  (first second : Rival)

/-- The block carries a shielded transaction that spends the note. -/
def Block.Spends (block : Block) (nullifier : Bytes32) : Prop :=
  ∃ stx, block.signedTrans.shielded = some stx ∧ nullifier ∈ stx.nullifiers

def Rival.verdict (rival : Rival) : Except CommitterError Unit :=
  ((checkAndCommitTransactionResults C P cfg rival.world rival.commit rival.proposer).exec s).1

/-- Two blocks for one position nobody else has claimed. The pool has seen
neither, they spend one note, and the second has more stake; the first is
committed. -/
structure SharedSpend (nullifier : Bytes32) : Prop where
  position : second.commit.position = first.commit.position
  unclaimed : s.candidatesAt first.commit.position = []
  fresh_first : blockKey C first.block ∉ s.pool.state.appliedIndex
  fresh_second : blockKey C second.block ∉ s.pool.state.appliedIndex
  distinct : blockKey C first.block ≠ blockKey C second.block
  spends_first : first.block.Spends nullifier
  spends_second : second.block.Spends nullifier
  outstaked : first.stake s < second.stake s
  committed : first.verdict C P cfg s = .ok ()

/-- The second Commit is accepted, its block takes the position, and the pool has
its delta in place of the first one's. -/
structure Overtakes : Prop where
  accepted : second.verdict C P cfg (first.process C P cfg s) = .ok ()
  stands : EndsWith (processAll C P cfg s [first, second]) second.commit.tokenId
    (Token.hashed C second.block)
  delta_in : blockKey C second.block ∈ (processAll C P cfg s [first, second]).pool.appliedHashes
  delta_out : blockKey C first.block ∉ (processAll C P cfg s [first, second]).pool.appliedHashes

end

variable {nullifier : Bytes32}

/-- A block that is new to the pool and spends a spent note is refused. -/
theorem applyUpdate_of_spent {env : EnvironmentMetadata} {pool : ShieldedPool}
    {block : Block} (hf : blockKey C block ∉ pool.state.appliedIndex)
    (hs : block.Spends nullifier) (hsp : nullifier ∈ pool.nullifiers)
    (outcome : PoolApplyOutcome) : (pool.applyUpdate C P env block).2 ≠ .ok outcome := by
  obtain ⟨stx, hstx, hmem⟩ := hs
  cases hc : validateShielded P env pool.ownDeps stx with
  | error e =>
    simp only [applyUpdate, hstx, if_neg hf, hc]
    intro h
    cases h
  | ok r =>
    obtain ⟨-, -, -, hu, -⟩ := validateShielded_ok_iff.mp hc
    exact absurd hsp (hu nullifier hmem)

/-- A block that is new to the pool and gets in spends its note, and only its own
hash is added. -/
theorem spent_of_applyUpdate {env : EnvironmentMetadata} {pool pool' : ShieldedPool}
    {block : Block} {outcome : PoolApplyOutcome}
    (hf : blockKey C block ∉ pool.state.appliedIndex) (hs : block.Spends nullifier)
    (ha : pool.applyUpdate C P env block = (pool', .ok outcome)) :
    nullifier ∈ pool'.nullifiers ∧ ∀ key, key ≠ blockKey C block →
      key ∉ pool.state.appliedIndex → key ∉ pool'.state.appliedIndex := by
  obtain ⟨stx, hstx, hmem⟩ := hs
  cases hc : validateShielded P env pool.ownDeps stx with
  | error e =>
    simp only [applyUpdate, hstx, if_neg hf, hc] at ha
    cases ha
  | ok r =>
    obtain ⟨fs, -, hr⟩ := exists_round (C := C) hstx hf hc
    obtain rfl := (Prod.mk.inj (hr.symm.trans ha)).1
    refine ⟨Finset.mem_union_right _ (List.mem_toFinset.mpr hmem), fun key hne hnot hin => ?_⟩
    rcases Finmap.mem_insert.mp hin with heq | hold
    · exact hne heq
    · rw [PoolState.appendLeaves_appliedIndex] at hold
      exact hnot hold

theorem Rival.pooled_of_verdict {rival : Rival} (h : rival.verdict C P cfg s = .ok ()) :
    ∃ pool o, s.pool.applyUpdate C P cfg.env rival.block = (pool, .ok o) ∧
      (rival.process C P cfg s).pool = pool.settled P (s.rollbackTarget rival.commit) := by
  have he := commitExit C P cfg rival.world s rival.commit rival.proposer
  unfold Rival.verdict at h
  unfold Rival.process
  generalize (checkAndCommitTransactionResults C P cfg rival.world rival.commit
    rival.proposer).exec s = result at he h ⊢
  obtain ⟨v, s'⟩ := result
  obtain rfl : v = .ok () := h
  cases he with
  | finished hf hp => exact ⟨_, _, hp.applied, rfl⟩

/-- The pool the second Commit meets has the note spent. -/
theorem SharedSpend.refused {first second : Rival}
    (h : SharedSpend C P cfg s first second nullifier) :
    second.verdict C P cfg (first.process C P cfg s) ≠ .ok () := by
  intro hac
  obtain ⟨pool, o, ha, hp⟩ := Rival.pooled_of_verdict h.committed
  obtain ⟨pool', o', ha', -⟩ := Rival.pooled_of_verdict hac
  obtain ⟨hs, hi⟩ :=
    spent_of_applyUpdate h.fresh_first h.spends_first ha
  -- there was no rival to take out of the pool again
  rw [rollbackTarget_of_nil h.unclaimed] at hp
  have hf : blockKey C second.block ∉ (first.process C P cfg s).pool.state.appliedIndex := by
    rw [hp]
    exact hi _ (Ne.symm h.distinct) h.fresh_second
  have hs' : nullifier ∈ (first.process C P cfg s).pool.nullifiers := by
    rw [hp]
    exact hs
  exact applyUpdate_of_spent hf h.spends_second hs' o' (congrArg Prod.snd ha')

/-- A block never overtakes one that spends the same note, whatever the stakes. -/
theorem not_overtakes_of_sharedSpend {first second : Rival} {nullifier : Bytes32}
    (h : SharedSpend C P cfg s first second nullifier) : ¬ Overtakes C P cfg s first second :=
  fun ho => h.refused ho.accepted

def noteTransfer (output : Bytes32) : ShieldedTransaction :=
  sampleTransfer [7] (.ofNat 5) (.ofNat 6) output (toRepr 0)

/-- The Commit of a first block on the empty token that carries the transfer. -/
def spendingRival (id : String) (proposer : Bytes) (output : Bytes32) : Rival where
  commit :=
    { transId := asBytes id
      tokenId := [7]
      envId := "env"
      proposedBlock := Token.hashed sampleCodec
        { blockOn [] (signedCarrier (routedTransaction id)
            (some (noteTransfer output))) with
          proposerKey := proposer } }
  proposer := proposer
  world := obligingWorld

def poorRival : Rival := spendingRival "l" [5] (.ofNat 7)

def richRival : Rival := spendingRival "h" [6] (.ofNat 8)

/-- A Committer with both transfers in its pending registry. -/
def racingState : CommitterState :=
  { stakedState with
    shielded := ((∅ : Finmap fun _ : String => ShieldedTransaction).insert "l"
      (noteTransfer (.ofNat 7))).insert "h" (noteTransfer (.ofNat 8)) }

theorem racingState_sharedSpend :
    SharedSpend sampleCodec samplePrimitives sampleCommitter racingState poorRival
      richRival (.ofNat 5) where
  position := rfl
  unclaimed := rfl
  fresh_first := by decide +kernel
  fresh_second := by decide +kernel
  distinct := by decide +kernel
  spends_first := ⟨_, rfl, by decide +kernel⟩
  spends_second := ⟨_, rfl, by decide +kernel⟩
  outstaked := by decide +kernel
  committed := by decide +kernel

/-- Alone, the block with three units of stake is committed. After the one with a
single unit it is refused, and the position and the note are the other's. -/
theorem richer_block_refused :
    richRival.verdict sampleCodec samplePrimitives sampleCommitter racingState = .ok () ∧
      EndsWith (richRival.process sampleCodec samplePrimitives sampleCommitter
        racingState) [7] richRival.block ∧
      richRival.verdict sampleCodec samplePrimitives sampleCommitter
          (poorRival.process sampleCodec samplePrimitives sampleCommitter racingState) =
        .error (.shieldedProofInvalid "transfer" (.recheck (.validation [.staleNullifier]))) ∧
      EndsWith (processAll sampleCodec samplePrimitives sampleCommitter racingState
        [poorRival, richRival]) [7] poorRival.block ∧
      (processAll sampleCodec samplePrimitives sampleCommitter racingState
        [poorRival, richRival]).pool.appliedHashes = [poorRival.block.currentHash] := by
  refine ⟨by decide +kernel, ?_, by decide +kernel, ?_, by decide +kernel⟩
  · exact ⟨{ emptyToken with chain := [richRival.block], sequenceNumber := 1 },
      by decide +kernel, rfl⟩
  · exact ⟨{ emptyToken with chain := [poorRival.block], sequenceNumber := 1 },
      by decide +kernel, rfl⟩

theorem racingState_not_overtakes :
    ¬ Overtakes sampleCodec samplePrimitives sampleCommitter racingState poorRival richRival :=
  not_overtakes_of_sharedSpend racingState_sharedSpend

end Pneumatic
