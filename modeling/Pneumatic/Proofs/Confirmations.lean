import Pneumatic.Proofs.Votes

/-!
# Which blocks a quorum confirms

A claim that a block has its quorum is checked against the own votes, and then the
block is looked for among the tips of the cached tokens. So of the blocks with a
quorum those on a tip are confirmed, and one that has a successor stays as it is.

The check itself compares two sums that saturate at 64 bits with a percentage that
is rounded, and never finds a quorum of no stake.
-/

namespace Pneumatic

open Handler HandlerM Finmap Option

/-- The block at a position of a cached chain is confirmed. -/
def ConfirmedAt (tokens : TokenMap) (key : Bytes) (i : Nat) : Prop :=
  ∃ token block, tokens.lookup key = some token ∧ token.chain[i]? = some block ∧
    block.finalityStatus = .confirmed

/-- The votes of a list of voters, counted under one stake set. -/
def countedVotes (stakes : StakeSet) (voters : List Bytes) : Finset Bytes × Nat :=
  voters.foldl (fun entry voterKey => addVote stakes voterKey entry) (∅, 0)

/-- The total of a stake set, not cut at 64 bits. -/
def StakeSet.trueTotal (stakes : StakeSet) : Nat := (stakes.entries.map fun entry => entry.2).sum

variable {setup : VotingSetup} {st : VotingState} {blockHash : Bytes}

theorem setFinalityStatus_eq_modify (status : FinalityStatus) (chain : List Block) :
    setFinalityStatus blockHash status chain =
      chain.modify (chain.findIdx fun block => block.currentHash = blockHash)
        fun block => { block with finalityStatus := status } := by
  induction chain with
  | nil => rfl
  | cons block rest ih =>
    rw [setFinalityStatus, List.findIdx_cons]
    by_cases hh : block.currentHash = blockHash
    · simp [hh]
    · simp [hh, ih]

theorem countedVotes_snd (stakes : StakeSet) (voters : List Bytes) :
    (countedVotes stakes voters).2 =
      min (∑ vk ∈ (countedVotes stakes voters).1, stakes.getStake vk) u64Max := by
  induction voters using List.reverseRecOn with
  | nil => rfl
  | append_singleton voters vk ih =>
    have hs : countedVotes stakes (voters ++ [vk]) =
        addVote stakes vk (countedVotes stakes voters) := by
      rw [countedVotes, List.foldl_append]
      rfl
    rw [hs, addVote]
    split
    · exact ih
    · next hnew =>
      rw [Finset.sum_insert hnew, saturatingAdd, ih]
      omega

theorem tokens_handleBlockQuorumReached {votes : VoteCodec} {world : VotingWorld}
    {message : WireMessage} (hd : votes.decodeBlockHash message.body = some blockHash)
    (hr : st.localQuorumReached setup blockHash = some true) (key : Bytes) :
    ((handleBlockQuorumReached setup votes world message).exec st).2.base.tokens.lookup key =
      (st.base.tokens.lookup key).map fun token =>
        if tokenWithTip world st.base.tokens blockHash = some key then
          { token with chain := setFinalityStatus blockHash .confirmed token.chain }
        else token := by
  refine (keeps_iff (P := fun st' : VotingState => st'.base.tokens.lookup key = _)).mp ?_
  simp only [Keeps, handleBlockQuorumReached, ends_bind, ends_ofOption, hd, ends_getState,
    some.injEq, forall_eq', hr, if_true, reduceCtorEq, false_imp_iff, and_true]
  cases htip : tokenWithTip world st.base.tokens blockHash with
  | none => simp [ends_pure]
  | some ti =>
    simp only [ends_bind, ends_ofOption, ends_update, some.injEq]
    refine ⟨fun token ht => ?_, fun hn => ?_⟩
    · by_cases hkey : ti = key
      · subst hkey
        simp [ht]
      · simp [hkey, lookup_insert_of_ne _ (Ne.symm hkey)]
    · by_cases hkey : ti = key
      · subst hkey
        simp [hn]
      · simp [hkey]

theorem quorumPercentage_of_whole (hnonneg : 0 ≤ setup.configuredPercentage)
    (hwhole : setup.configuredPercentage.den = 1) :
    (setup.quorumPercentage : ℚ) = setup.configuredPercentage := by
  have hn : (setup.configuredPercentage.num : ℚ) = setup.configuredPercentage :=
    Rat.coe_int_num_of_den_eq_one hwhole
  have hr : round setup.configuredPercentage = setup.configuredPercentage.num := by
    rw [← hn, round_intCast, Rat.num_intCast]
  rw [VotingSetup.quorumPercentage, hr, ← Int.cast_natCast,
    Int.toNat_of_nonneg (Rat.num_nonneg.mpr hnonneg), hn]

/-- A block with a quorum is confirmed exactly if it was or if it is the first of
its hash in the chain of the token whose tip has that hash. And where the total is
positive and fits 64 bits, the configured percentage is whole and the votes were counted
under the stake set that is cached, the check is the comparison of the true sums. -/
theorem quorum_confirms_iff (setup : VotingSetup) (st : VotingState) (blockHash : Bytes) :
    (∀ (votes : VoteCodec) (world : VotingWorld) (message : WireMessage) key i token block,
      votes.decodeBlockHash message.body = some blockHash →
      st.localQuorumReached setup blockHash = some true →
      st.base.tokens.lookup key = some token → token.chain[i]? = some block →
      block.currentHash = blockHash →
      (ConfirmedAt ((handleBlockQuorumReached setup votes world message).exec st).2.base.tokens
          key i ↔ block.finalityStatus = .confirmed ∨
          (tokenWithTip world st.base.tokens blockHash = some key ∧
            token.chain.findIdx (fun block => block.currentHash = blockHash) = i))) ∧
    ∀ stakes voters, 0 ≤ setup.configuredPercentage → setup.configuredPercentage ≤ 100 →
      setup.configuredPercentage.den = 1 → st.stakeSetCache.lookup blockHash = some stakes →
      st.confirmationVotes.lookup blockHash = some (countedVotes stakes voters) →
      0 < stakes.trueTotal → stakes.trueTotal ≤ u64Max →
      (st.localQuorumReached setup blockHash = some true ↔
        stakes.trueTotal * setup.configuredPercentage ≤
        (∑ voterKey ∈ (countedVotes stakes voters).1, stakes.getStake voterKey : Nat) * 100) := by
  constructor
  · intro votes world message key i token block hd hr htk hb hh
    have ht := @tokens_handleBlockQuorumReached setup st blockHash votes world message hd hr key
    rw [htk, map_some] at ht
    simp only [ConfirmedAt, ht, some.injEq, exists_and_left, exists_eq_left']
    split
    · next htip =>
      rw [setFinalityStatus_eq_modify, List.getElem?_modify, hb]
      simp only [htip, true_and]
      split <;> simp_all
    · next htip => simp [hb, htip]
  · intro stakes voters hpp hp hwhole hc hvt hpos hf
    rw [← quorumPercentage_of_whole hpp hwhole] at hp ⊢
    have htt : stakes.totalStake = stakes.trueTotal := Nat.min_eq_left hf
    have hbn : stakes.totalStake * setup.quorumPercentage ≤ u64Max * 100 :=
      Nat.mul_le_mul (Nat.min_le_right _ _) (by exact_mod_cast hp)
    have hv : st.localQuorumReached setup blockHash = some (decide
        (stakes.totalStake * setup.quorumPercentage ≤ (countedVotes stakes voters).2 * 100)) := by
      simp only [VotingState.localQuorumReached, hc, if_neg (show ¬ stakes.totalStake = 0 by omega)]
      rw [hvt]
    rw [hv, some.injEq, decide_eq_true_iff, countedVotes_snd, ← Nat.mul_min_mul_right,
      le_min_iff, and_iff_left hbn, htt]
    norm_cast

/-- The two blocks of token `[7]` and a stake set under which the first has all the
votes. -/
def deepQuorum (stakes : StakeSet) (entry : Finset Bytes × Nat) : VotingState :=
  { unvoted with
    base := { bootState with
      tokens := (∅ : TokenMap).insert [7]
        { emptyToken with chain := [votedBlock, { votedBlock with currentHash := [1] }] } }
    stakeSetCache := (∅ : Finmap fun _ : Bytes => StakeSet).insert votedBlock.currentHash stakes
    confirmationVotes := (∅ : Finmap fun _ : Bytes => Finset Bytes × Nat).insert
      votedBlock.currentHash entry }

/-- One of two equal stakers is no quorum of 67 percent, and both are. -/
theorem two_thirds_counted :
    let stakes : StakeSet := ((∅ : StakeSet).insert [5] 10).insert [6] 10
    ((deepQuorum stakes (countedVotes stakes [[5]])).localQuorumReached votingSetup
        votedBlock.currentHash = some true ↔ (20 : ℚ) * 67 ≤ 10 * 100) ∧
      ((deepQuorum stakes (countedVotes stakes [[5], [6]])).localQuorumReached votingSetup
        votedBlock.currentHash = some true ↔ (20 : ℚ) * 67 ≤ 20 * 100) := by
  intro stakes
  have ht : stakes.trueTotal = 20 := by decide +kernel
  have hcount (voters : List Bytes) (total : Nat) (hv : ∑ voterKey ∈ (countedVotes stakes
      voters).1, stakes.getStake voterKey = total) :
      (deepQuorum stakes (countedVotes stakes voters)).localQuorumReached votingSetup
        votedBlock.currentHash = some true ↔ (20 : ℚ) * 67 ≤ total * 100 := by
    have hq := (quorum_confirms_iff votingSetup (deepQuorum stakes (countedVotes stakes voters))
      votedBlock.currentHash).2 stakes voters (by norm_num [votingSetup])
      (by norm_num [votingSetup]) rfl (lookup_insert _) (lookup_insert _) (by omega)
      (by rw [ht]; decide)
    rw [hq, ht, hv]
    rfl
  exact ⟨hcount [[5]] 10 (by decide +kernel), hcount [[5], [6]] 20 (by decide +kernel)⟩

/-- A block that is not on a tip stays unconfirmed; and of two stakers with as much
as 64 bits hold, one is a quorum of 67 percent. -/
theorem deep_block_unconfirmed :
    ((deepQuorum ((∅ : StakeSet).insert [5] 10) ({[5]}, 10)).localQuorumReached votingSetup
      votedBlock.currentHash = some true ∧
    ¬ ConfirmedAt ((handleBlockQuorumReached votingSetup namedVoter ⟨obligingWorld, fun _ => [[7]]⟩
      (voting [9] "BlockQuorumReached" [] none).message).exec
        (deepQuorum ((∅ : StakeSet).insert [5] 10) ({[5]}, 10))).2.base.tokens [7] 0) ∧
    (deepQuorum (((∅ : StakeSet).insert [5] u64Max).insert [6] u64Max)
      (countedVotes (((∅ : StakeSet).insert [5] u64Max).insert [6] u64Max) [[5]])
        ).localQuorumReached votingSetup votedBlock.currentHash = some true ∧
    ¬ 2 * u64Max * votingSetup.quorumPercentage ≤ u64Max * 100 := by
  refine ⟨⟨by decide +kernel, ?_⟩, by decide +kernel, by decide +kernel⟩
  rintro ⟨token, block, ht, hb, hc⟩
  have hs := congrArg (fun found => (found.bind (·.chain[0]?)).map Block.finalityStatus) ht
  simp only [bind_some, hb, map_some, hc] at hs
  exact absurd hs (by decide +kernel)

end Pneumatic
