import Pneumatic.Proofs.GossipOutcome
import Pneumatic.Proofs.Votes

/-!
# When a quorum verdict stands

`handle_block_finalized` caches the stake set of a message and replays the votes
that wait for it before it looks at the block. So a block that is refused leaves
its stake set behind, and a message for a block that has its quorum can replace
the total the recorded stake is held against, while that stake stays.

A verdict stands where a stake set comes with a block that is accepted, or is the
one already cached, and where a block that has its quorum has it under the new set
too. A vote by itself only adds to the recorded stake.
-/

namespace Pneumatic

open Handler HandlerM Run Finmap Option ShieldedPool

variable {C : Codec} {P : ShieldedPrimitives} {cfg : CommitterConfig}
  {setup : VotingSetup} {votes : VoteCodec} {world : VotingWorld}
  {st : VotingState}

/-! ## The property and its condition -/

section

variable (C : Codec) (P : ShieldedPrimitives) (cfg : CommitterConfig) (setup : VotingSetup)

def VotingState.tally (st : VotingState) :
    Finmap (fun _ : Bytes => StakeSet) × Finmap (fun _ : Bytes => Finset Bytes × Nat) ×
      Finmap (fun _ : Bytes => List Bytes) :=
  (st.stakeSetCache, st.confirmationVotes, st.pendingConfirmationVotes)

/-- A stake that reaches the quorum of a stake set. -/
def Outweighs (stakes : StakeSet) (total : Nat) : Prop :=
  stakes.totalStake ≠ 0 ∧ stakes.totalStake * setup.quorumPercentage ≤ total * 100

/-- In a run, a `BlockFinalized` that fails leaves the three maps, and a quorum
once reached is there ever after. -/
structure VerdictsStand (votes : VoteCodec) (st : VotingState)
    (ds : List VotingDelivery) : Prop where
  rejected : ∀ pre d post, ds = pre ++ d :: post → d.message.action = "BlockFinalized" → ∀ e,
    ((handleVoting C P cfg setup votes d.world d.message).exec
      (run (votingStep C P cfg setup votes) st pre)).1 = .error e →
    (run (votingStep C P cfg setup votes) st (pre ++ [d])).tally =
      (run (votingStep C P cfg setup votes) st pre).tally
  stable : ∀ pre mid post, ds = pre ++ mid ++ post → ∀ blockHash,
    (run (votingStep C P cfg setup votes) st pre).localQuorumReached setup blockHash = some true →
    (run (votingStep C P cfg setup votes) st (pre ++ mid)).localQuorumReached setup
      blockHash = some true

/-- The block gets to its chain and is buffered, or is appended with the orphans
that wait for it, and the pool takes them all. -/
def Accepted (world : CommitterWorld) (s : CommitterState) (message : Message)
    (block : Block) : Prop :=
  ∃ token, GossipChecked C world s message block token ∧
    (links (cachedTip token.chain) block = true → createHash C block = block.currentHash ∧
      (finalizedPool C P cfg world s.pool (block :: (s.replayed C world block).2)).2 = .ok ())

/-- The condition on an authenticated `BlockFinalized`, in the state it meets. -/
structure VerdictSafe (st : VotingState) (d : VotingDelivery) (block : Block) :
    Prop where
  /-- A stake set comes with an accepted block, or is the one cached. -/
  carried : ∀ stakes, d.message.stakeSet = some stakes →
    Accepted C P cfg d.world.answers st.base d.message.toMessage block ∨
      (st.stakeSetCache.lookup block.currentHash = some stakes ∧
        st.pendingConfirmationVotes.lookup block.currentHash = none)
  /-- A pool that takes the block takes the orphans appended after it. -/
  pooled : ∀ token, GossipChecked C d.world.answers st.base d.message.toMessage block token →
    links (cachedTip token.chain) block = true →
    createHash C block = block.currentHash →
    (finalizedPool C P cfg d.world.answers st.base.pool [block]).2 = .ok () →
    (finalizedPool C P cfg d.world.answers st.base.pool
      (block :: (st.base.replayed C d.world.answers block).2)).2 = .ok ()
  /-- A quorum that is reached is one under the new stake set. -/
  outweighed : ∀ stakes voters total, d.message.stakeSet = some stakes →
    st.localQuorumReached setup block.currentHash = some true →
    st.confirmationVotes.lookup block.currentHash = some (voters, total) →
    Outweighs setup stakes total

end

/-- The recorded stakes are 64-bit numbers. -/
def VotingState.Fits (st : VotingState) : Prop :=
  ∀ blockHash voters total,
    st.confirmationVotes.lookup blockHash = some (voters, total) → total ≤ u64Max

variable {blockHash : Bytes}

theorem localQuorumReached_iff : st.localQuorumReached setup blockHash = some true ↔
      ∃ s v total, st.stakeSetCache.lookup blockHash = some s ∧
        st.confirmationVotes.lookup blockHash = some (v, total) ∧
        Outweighs setup s total := by
  unfold VotingState.localQuorumReached Outweighs
  cases hc : st.stakeSetCache.lookup blockHash with
  | none => simp
  | some s =>
    cases hv : st.confirmationVotes.lookup blockHash with
    | none => by_cases hz : s.totalStake = 0 <;> simp [hz]
    | some entry =>
      obtain ⟨v, total⟩ := entry
      by_cases hz : s.totalStake = 0 <;> simp [hz]

/-! ## A refused block -/

theorem ends_onBase {α : Type} {m : CommitterM α} {Q : α → VotingState → Prop}
    {E : CommitterError → VotingState → Prop} :
    Ends (onBase m) st Q E ↔ Ends m st.base (fun a s => Q a { st with base := s })
        (fun e s => E e { st with base := s }) := by
  rw [ends_iff_exec, ends_iff_exec]
  rfl

/-- A stake set that is cached already, with no votes waiting, changes nothing. -/
theorem cacheStakeSet_known {stakeSet : Option StakeSet}
    (h : ∀ s, stakeSet = some s → st.stakeSetCache.lookup blockHash = some s ∧
        st.pendingConfirmationVotes.lookup blockHash = none) :
    Ends (cacheStakeSet blockHash stakeSet) st (fun _ st' => st' = st) (fun _ _ => False) := by
  cases stakeSet with
  | none => exact rfl
  | some s =>
    obtain ⟨hc, hn⟩ := h s rfl
    have he : st.pendingConfirmationVotes.erase blockHash = st.pendingConfirmationVotes := by
      refine ext_lookup fun other => ?_
      by_cases ho : other = blockHash
      · rw [ho, lookup_erase, hn]
      · rw [lookup_erase_ne ho]
    simp only [cacheStakeSet, replayPendingVotes, ends_bind, ends_update,
      ends_getState, insert_eq_self_iff.mpr hc, he, hn]
    exact rfl

theorem exec_applyFinalized {s : CommitterState} {world : CommitterWorld} (blocks : List Block) :
    ((applyFinalized C P cfg world blocks).exec s).1 =
      (finalizedPool C P cfg world s.pool blocks).2 := by
  have he : Ends (applyFinalized C P cfg world blocks) s
      (fun _ _ => .ok () = (finalizedPool C P cfg world s.pool blocks).2)
      (fun e _ => .error e = (finalizedPool C P cfg world s.pool blocks).2) :=
    ends_finalizedPool (fun pool h => by rw [h]) (fun e pool h => by rw [h])
  exact ends_verdict (R := fun v _ =>
    v = (finalizedPool C P cfg world s.pool blocks).2).mp he

/-- The loop fails with no vote cast when the pool fails at its first block. -/
theorem tally_voteFinalized_error {block : Block} {rest : List Block}
    (h : (finalizedPool C P cfg world.answers st.base.pool [block]).2 = .ok () →
      (finalizedPool C P cfg world.answers st.base.pool (block :: rest)).2 = .ok ()) :
    Ends (voteFinalized C P cfg setup world (block :: rest)) st (fun _ _ => True)
      (fun _ st' => st'.tally = st.tally) := by
  by_cases hf : (finalizedPool C P cfg world.answers st.base.pool [block]).2 = .ok ()
  · refine ends_iff_exec.mpr ⟨fun _ _ => trivial, fun e he => ?_⟩
    rw [(projects_voteFinalized (block :: rest) st).1, exec_applyFinalized, h hf] at he
    cases he
  · simp only [voteFinalized, ends_bind, ends_onBase]
    refine ends_iff_exec.mpr ⟨fun outcome ho => ?_, fun _ _ => rfl⟩
    rw [exec_poolApply] at ho ⊢
    simp only [finalizedPool] at hf
    generalize st.base.pool.applyUpdate C P cfg.env block = applied at ho hf ⊢
    obtain ⟨pool, v⟩ := applied
    obtain rfl : v = .ok outcome := ho
    cases outcome with
    | alreadyApplied | plain => exact absurd rfl hf
    | applied =>
      simp only [ends_bind, ends_onBase, poolSave, ends_getState, ends_require]
      refine ⟨fun hs => ?_, fun _ => rfl⟩
      exact absurd (congrArg Prod.snd (if_pos hs)) hf

variable {message : WireMessage}

/-- A block that is turned away before a vote is cast leaves the three maps, where
its stake set is the one cached. -/
theorem tally_finalizeBlock_error
    (hs : authenticateSender C world.answers message.toMessage = .ok ())
    (hk : ∀ block, C.decodeBlock message.body = some block →
      ∀ s, message.stakeSet = some s →
        st.stakeSetCache.lookup block.currentHash = some s ∧
          st.pendingConfirmationVotes.lookup block.currentHash = none) (hp : ∀ block token,
      GossipChecked C world.answers st.base message.toMessage block token →
      links (cachedTip token.chain) block = true → createHash C block = block.currentHash →
      (finalizedPool C P cfg world.answers st.base.pool [block]).2 = .ok () →
      (finalizedPool C P cfg world.answers st.base.pool
        (block :: (st.base.replayed C world.answers block).2)).2 = .ok ()) :
    Ends (finalizeBlock C P cfg setup world message) st (fun _ _ => True)
      (fun _ st' => st'.tally = st.tally) := by
  simp only [finalizeBlock, ends_bind, ends_ofOption]
  refine ⟨fun block hd => ?_, fun _ => trivial⟩
  refine (cacheStakeSet_known (hk block hd)).mono (fun _ st' hst' => ?_) (fun _ _ hf => hf.elim)
  subst hst'
  simp only [ends_getState, ends_lift, ends_onBase]
  refine ⟨fun _ ha => ?_, fun _ _ => trivial⟩
  refine ends_warmToken (fun token t hcc hl _ ho => ?_) (fun _ _ => rfl)
  have hc : GossipChecked C world.answers st'.base message.toMessage block token :=
    ⟨hs, hd, ha, hcc⟩
  obtain rfl := ho.eq_insert hl
  refine ends_appendToChain (fun _ => ?_) (fun _ _ => rfl) (fun hln hh => ?_)
  · simp only [bufferOrphan, ends_onBase, ends_update]
  · simp only [ends_bind, ends_onBase, replayOrphanBlocks, ends_getState]
    refine ends_replayLoop (lookup_insert _) (cachedTip_grown_singleton _ _) ?_
    exact tally_voteFinalized_error (hp block token hc hln hh)

theorem finalizeBlock_ok_of_accepted {block : Block}
    (h : Accepted C P cfg world.answers st.base message.toMessage block) :
    ((finalizeBlock C P cfg setup world message).exec st).1 = .ok () := by
  obtain ⟨token, hc, ha⟩ := h
  have hs : ∀ {block' token'},
      GossipChecked C world.answers st.base message.toMessage block' token' →
      block = block' ∧ token = token' := by
    intro block' token' hc'
    obtain rfl := mem_unique hc.decoded hc'.decoded
    exact ⟨rfl, mem_unique hc.cached hc'.cached⟩
  rw [(projects_finalizeBlock message st).1]
  have hhn : (handleMessage C P cfg world.answers .blockFinalized message.toMessage).exec st.base =
      (handleBlockFinalized C P cfg world.answers message.toMessage).exec st.base := by
    unfold handleMessage
    rw [exec_bind, hc.sender]
    rfl
  have he := gossipExit C P cfg world.answers st.base message.toMessage
  rw [hhn] at he
  generalize (handleBlockFinalized C P cfg world.answers message.toMessage).exec
    st.base = result at he ⊢
  obtain ⟨v, s'⟩ := result
  cases he with
  | refused hnot => exact absurd hc (hnot block token)
  | buffered => rfl
  | misnamed hc' hl hh =>
    obtain ⟨rfl, rfl⟩ := hs hc'
    exact absurd (ha hl).1 hh
  | appended hc' hl hh hp =>
    obtain ⟨rfl, rfl⟩ := hs hc'
    exact (congrArg Prod.snd hp).symm.trans (ha hl).2

/-! ## A quorum -/

/-- Every quorum of one state is one of another, whose recorded stakes fit. -/
structure Upheld (setup : VotingSetup) (st st' : VotingState) : Prop where
  fits : st'.Fits
  stands : ∀ blockHash, st.localQuorumReached setup blockHash = some true →
    st'.localQuorumReached setup blockHash = some true

theorem addVote_snd_le (stakes : StakeSet) (voterKey : Bytes)
    {entry : Finset Bytes × Nat} (h : entry.2 ≤ u64Max) :
    entry.2 ≤ (addVote stakes voterKey entry).2 ∧ (addVote stakes voterKey entry).2 ≤ u64Max := by
  unfold addVote
  split
  · exact ⟨Nat.le_refl _, h⟩
  · show entry.2 ≤ min (entry.2 + stakes.getStake voterKey) u64Max ∧
      min (entry.2 + stakes.getStake voterKey) u64Max ≤ u64Max
    omega

theorem Upheld.addVote {st' : VotingState} (h : Upheld setup st st')
    {stakes : StakeSet} {voterKey : Bytes} :
    Upheld setup st { st' with
      confirmationVotes := st'.confirmationVotes.insert blockHash
        (Pneumatic.addVote stakes voterKey
          ((st'.confirmationVotes.lookup blockHash).getD (∅, 0))) } := by
  have he : ((st'.confirmationVotes.lookup blockHash).getD (∅, 0)).2 ≤ u64Max := by
    cases hv : st'.confirmationVotes.lookup blockHash with
    | none => exact Nat.zero_le _
    | some entry => exact h.fits blockHash entry.1 entry.2 hv
  have hg := addVote_snd_le stakes voterKey he
  refine ⟨fun other v total hv => ?_, fun other hr => ?_⟩
  · rcases lookup_insert_cases hv with ⟨-, hnew⟩ | hold
    · rw [hnew] at hg
      exact hg.2
    · exact h.fits other v total hold
  · obtain ⟨stakes', v, total, hc, hv, hq⟩ :=
      localQuorumReached_iff.mp (h.stands other hr)
    refine localQuorumReached_iff.mpr ?_
    by_cases ho : other = blockHash
    · subst ho
      rw [hv] at hg ⊢
      refine ⟨stakes', _, _, hc, lookup_insert _, hq.1, ?_⟩
      exact hq.2.trans (Nat.mul_le_mul_right 100 hg.1)
    · refine ⟨stakes', v, total, hc, ?_, hq⟩
      rw [lookup_insert_of_ne _ ho]
      exact hv

theorem Upheld.castConfirmationVote (blockHash voterKey : Bytes) :
    Preserves (Upheld setup st) (Pneumatic.castConfirmationVote blockHash voterKey) := by
  intro st' h
  simp only [Keeps, Pneumatic.castConfirmationVote, accumulateVote, ends_bind, ends_getState]
  cases st'.stakeSetCache.lookup blockHash with
  | some s => exact h.addVote
  | none => exact ⟨h.fits, h.stands⟩

theorem Upheld.replayVotes (blockHash : Bytes) (voters : List Bytes) :
    Preserves (Upheld setup st) (Pneumatic.replayVotes blockHash voters) := by
  induction voters with
  | nil => exact .pure ()
  | cons vk rest ih =>
    refine .bind (fun st' h => ?_) fun _ => ih
    simp only [Keeps, accumulateVote, ends_bind, ends_getState]
    cases st'.stakeSetCache.lookup blockHash with
    | some s => exact h.addVote
    | none => exact h

theorem Upheld.cacheStakeSet (hf : st.Fits) {stakeSet : Option StakeSet}
    (h : ∀ s v total, stakeSet = some s →
      st.localQuorumReached setup blockHash = some true →
      st.confirmationVotes.lookup blockHash = some (v, total) → Outweighs setup s total) :
    Keeps (Pneumatic.cacheStakeSet blockHash stakeSet) st (Upheld setup st) := by
  cases stakeSet with
  | none => exact ⟨hf, fun _ hr => hr⟩
  | some s =>
    refine Upheld.replayVotes blockHash _ _ ⟨hf, fun other hr => ?_⟩
    obtain ⟨s', v, total, hc, hv, hq⟩ :=
      localQuorumReached_iff.mp hr
    refine localQuorumReached_iff.mpr ?_
    by_cases ho : other = blockHash
    · subst ho
      exact ⟨s, v, total, lookup_insert _, hv, h s v total rfl hr hv⟩
    · refine ⟨s', v, total, ?_, hv, hq⟩
      rw [lookup_insert_of_ne _ ho]
      exact hc

theorem Upheld.handleBlockQuorumReached (message : WireMessage) : Preserves (Upheld setup st)
      (Pneumatic.handleBlockQuorumReached setup votes world message) := by
  refine .bind (.ofOption _ _) fun blockHash => .bind .getState fun st' => ?_
  split
  · split
    · exact .pure ()
    · exact .bind (.ofOption _ _) fun token => .update fun _ h => ⟨h.fits, h.stands⟩
  · exact .pure ()

/-! ## Runs -/

/-- An authenticated `BlockFinalized` is safe for the verdicts. -/
def VerdictGuard (C : Codec) (P : ShieldedPrimitives) (cfg : CommitterConfig)
    (setup : VotingSetup) (st : VotingState) (d : VotingDelivery) : Prop :=
  authenticateMessage C setup d.world.answers.roles d.message = .ok () →
    d.message.action = "BlockFinalized" →
    ∀ block, C.decodeBlock d.message.body = some block → VerdictSafe C P cfg setup st d block

theorem upheld_step {d : VotingDelivery} (hf : st.Fits) (hsf : VerdictGuard C P cfg setup st d) :
    Upheld setup st (votingStep C P cfg setup votes st d) := by
  have hs : Upheld setup st st := ⟨hf, fun _ hr => hr⟩
  refine keeps_iff.mp (ends_bind.mpr (ends_lift.mpr ⟨fun _ hsn => ?_, fun _ _ => hs⟩))
  split
  · next ha =>
    refine keeps_finalizeBlock (fun _ m _ h => keeps_iff.mpr ⟨h.fits, h.stands⟩)
      (fun blockHash => Upheld.castConfirmationVote blockHash setup.publicKey)
      (fun _ => hs) (fun block hd => ?_)
    exact Upheld.cacheStakeSet hf (hsf hsn ha block hd).outweighed
  · split
    · refine Preserves.bind (.ofOption _ _) (fun vote => ?_) st hs
      exact .bind (.update fun _ h => ⟨h.fits, h.stands⟩) fun _ =>
        Upheld.castConfirmationVote _ _
    · split
      · exact Upheld.handleBlockQuorumReached d.message st hs
      · exact hs

theorem authenticateSender_of_message {roles : Bytes → List NodeRegistryType}
    {answers : CommitterWorld}
    (hr : answers.roles = roles) (ha : message.action = "BlockFinalized")
    (h : authenticateMessage C setup roles message = .ok ()) :
    authenticateSender C answers message.toMessage = .ok () := by
  subst hr
  unfold authenticateMessage at h
  unfold authenticateSender
  cases he : authenticateEnvelope C answers.roles message.toMessage with
  | error e => rw [he] at h; cases h
  | ok known =>
    rw [he, ha] at h
    simp only [allowedSendersFor, or_true, if_true] at h ⊢
    split at h
    · next hk => rw [if_pos hk]
    · cases h

theorem tally_of_rejected {d : VotingDelivery} {e : CommitterError}
    (hac : d.message.action = "BlockFinalized") (hsf : VerdictGuard C P cfg setup st d)
    (he : ((handleVoting C P cfg setup votes d.world d.message).exec st).1 = .error e) :
    (votingStep C P cfg setup votes st d).tally = st.tally := by
  suffices hen : Ends (handleVoting C P cfg setup votes d.world d.message) st
      (fun _ _ => True) (fun _ st' => st'.tally = st.tally) from
    (ends_iff_exec.mp hen).2 e he
  refine ends_bind.mpr (ends_lift.mpr ⟨fun _ hs => ?_, fun _ _ => rfl⟩)
  rw [if_pos hac]
  have hg := hsf hs hac
  by_cases ha : ∃ block, Accepted C P cfg d.world.answers st.base d.message.toMessage block
  · obtain ⟨block, ha⟩ := ha
    refine ends_iff_exec.mpr ⟨fun _ _ => trivial, fun e' he' => ?_⟩
    cases (finalizeBlock_ok_of_accepted ha).symm.trans he'
  · refine tally_finalizeBlock_error (authenticateSender_of_message rfl hac hs) ?_ ?_
    · intro block hd s hst
      rcases (hg block hd).carried s hst with hok | hk
      · exact absurd ⟨block, hok⟩ ha
      · exact hk
    · intro block token hc
      exact (hg block hc.decoded).pooled token hc

/-- In every run of safe messages a quorum stands, and a refused block leaves the
votes. -/
theorem verdictsStand_of_safe {ds : List VotingDelivery} (hfits : st.Fits)
    (hsafe : Meets (votingStep C P cfg setup votes) (VerdictGuard C P cfg setup) st ds) :
    VerdictsStand C P cfg setup votes st ds := by
  have hrun : ∀ {start : VotingState} {i : List VotingDelivery}, start.Fits →
      Meets (votingStep C P cfg setup votes) (VerdictGuard C P cfg setup) start i →
      Upheld setup start (run (votingStep C P cfg setup votes) start i) := by
    intro start i hst hm
    refine run_invariant (fun st' d h hg => ?_)
      (show Upheld setup start start from ⟨hst, fun _ hr => hr⟩) hm
    have hs : Upheld setup st' (votingStep C P cfg setup votes st' d) :=
      upheld_step h.fits hg
    exact ⟨hs.fits, fun blockHash hr =>
      hs.stands blockHash (h.stands blockHash hr)⟩
  refine ⟨?_, ?_⟩
  · intro pre d post hds ha e he
    rw [run_append]
    exact tally_of_rejected ha (meets_iff_forall.mp hsafe pre d post hds) he
  · intro pre mid post hds blockHash hr
    rw [hds, List.append_assoc, meets_append, meets_append] at hsafe
    rw [run_append]
    exact (hrun (hrun hfits hsafe.1).fits hsafe.2.1).stands blockHash hr

/-! ## A stake set left behind, and one that replaces another -/

/-- A stake set in which the voters so far are a small part. -/
def diluted : Option StakeSet := some ((∅ : StakeSet).insert [8] 100)

/-- The Finalizer `[5]` is not the one the block is assigned to. -/
def straySet : VotingDelivery := voting [5] "BlockFinalized" [] (staked [8])

def quorumVotes : List VotingDelivery :=
  [voting [4] "BlockFinalized" [] (staked [5]), voting [5] "BlockConfirmed" [5] none]

theorem unvoted_fits : unvoted.Fits := by
  intro blockHash v total h
  cases h

/-- A message of `[5]` is refused, and its stake set stays. And the quorum that the
vote of `[5]` brings about is gone after a second message for the block. -/
theorem verdict_withdrawn : unvoted.Fits ∧
      (votingRun [straySet]).stakeSetCache.lookup votedBlock.currentHash = staked [8] ∧
      ¬ VerdictsStand votingCodec ShieldedPool.samplePrimitives sampleCommitter
        votingSetup namedVoter unvoted [straySet] ∧
      (votingRun quorumVotes).localQuorumReached votingSetup votedBlock.currentHash = some true ∧
      (votingRun (quorumVotes ++ [voting [4] "BlockFinalized" [] diluted])
        ).localQuorumReached votingSetup votedBlock.currentHash = some false ∧
      ¬ VerdictsStand votingCodec ShieldedPool.samplePrimitives sampleCommitter
        votingSetup namedVoter unvoted
        (quorumVotes ++ [voting [4] "BlockFinalized" [] diluted]) := by
  refine ⟨unvoted_fits, rfl, fun h => ?_, by decide +kernel, by decide +kernel, fun h => ?_⟩
  · obtain ⟨e, he⟩ : ∃ e, ((handleVoting votingCodec samplePrimitives
        sampleCommitter votingSetup namedVoter straySet.world straySet.message).exec
          unvoted).1 = .error e := ⟨_, rfl⟩
    have hsm : (votingRun [straySet]).tally = unvoted.tally :=
      h.rejected [] straySet [] rfl rfl e he
    have hc : (votingRun [straySet]).stakeSetCache = ∅ := congrArg Prod.fst hsm
    exact absurd (congrArg (Finmap.lookup votedBlock.currentHash) hc) (by decide +kernel)
  · have hs := h.stable quorumVotes [voting [4] "BlockFinalized" [] diluted] []
      (List.append_nil _).symm votedBlock.currentHash (by decide +kernel)
    exact absurd hs (by decide +kernel)

/-- The same votes without the second message. -/
theorem verdict_stands :
    (votingRun quorumVotes).localQuorumReached votingSetup votedBlock.currentHash = some true ∧
      VerdictsStand votingCodec ShieldedPool.samplePrimitives sampleCommitter
        votingSetup namedVoter unvoted quorumVotes := by
  refine ⟨by decide +kernel, verdictsStand_of_safe unvoted_fits
    ⟨fun _ _ block hd => ?_, fun _ ha => ?_, trivial⟩⟩
  · obtain rfl : votedBlock = block := some.inj hd
    refine ⟨fun s _ => .inl ⟨emptyToken, ?_, fun _ => ?_⟩, ?_, ?_⟩
    · exact ⟨rfl, rfl, rfl, rfl⟩
    · exact ⟨rfl, rfl⟩
    · intro _ _ _ _ _
      decide +kernel
    · intro s v total _ hr
      exact absurd hr (by decide +kernel)
  · exact absurd ha (by decide)

end Pneumatic
