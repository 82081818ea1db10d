import Mathlib.Algebra.BigOperators.Group.Finset.Basic
import Mathlib.Algebra.Order.BigOperators.Group.Finset
import Pneumatic.Committer.Quoruming
import Pneumatic.Proofs.CommitterEffects

/-!
# Whose stake a vote counts

The stake recorded for a block should be that of keys that proved themselves as
the senders of votes for it, and of the Committer itself. It is when every vote
names the key of its envelope, and when the stake set of a block that has votes
is not replaced. The handlers check neither.

The invariant is that the voters counted, and those that wait for a stake set,
are keys that sent a vote for the block, and that the recorded stake is at most
theirs.
-/

namespace Pneumatic

open Handler HandlerM Run Finmap List

variable {C : Codec} {P : ShieldedPrimitives} {cfg : CommitterConfig}
  {setup : VotingSetup} {votes : VoteCodec} {world : VotingWorld}
  {st : VotingState}

/-- A handler does to the Committer below what another one does. -/
def Projects {α : Type} (m : VotingM α) (m' : CommitterM α) : Prop :=
  ∀ st, (m.exec st).1 = (m'.exec st.base).1 ∧ (m.exec st).2.base = (m'.exec st.base).2

section Projects

variable {α β : Type} {m : VotingM α} {m' : CommitterM α}

theorem Projects.onBase (m' : CommitterM α) : Projects (onBase m') m' :=
  fun _ => ⟨rfl, rfl⟩

theorem Projects.pure (a : α) : Projects (Pure.pure a) (Pure.pure a) :=
  fun _ => ⟨rfl, rfl⟩

theorem Projects.fail (e : CommitterError) :
    Projects (HandlerM.fail e : VotingM α) (HandlerM.fail e) :=
  fun _ => ⟨rfl, rfl⟩

theorem Projects.lift (r : Except CommitterError α) :
    Projects (HandlerM.lift r) (HandlerM.lift r) :=
  fun _ => ⟨rfl, rfl⟩

theorem Projects.ofOption (o : Option α) (e : CommitterError) :
    Projects (HandlerM.ofOption o e) (HandlerM.ofOption o e) := by
  cases o with
  | none => exact .fail e
  | some a => exact .pure a

theorem Projects.bind {f : α → VotingM β} {f' : α → CommitterM β}
    (h : Projects m m') (hf : ∀ a, Projects (f a) (f' a)) : Projects (m >>= f) (m' >>= f') := by
  intro st
  obtain ⟨hv, hb⟩ := h st
  rw [exec_bind, exec_bind]
  cases hm : m.exec st with
  | mk v after =>
    cases hm' : m'.exec st.base with
    | mk v' after' =>
      rw [hm, hm'] at hv hb
      subst hv
      subst hb
      cases v with
      | ok a => exact hf a after
      | error e => exact ⟨rfl, rfl⟩

theorem Projects.getState {f : VotingState → VotingM β}
    {f' : CommitterState → CommitterM β} (h : ∀ st, Projects (f st) (f' st.base)) :
    Projects (HandlerM.getState >>= f) (HandlerM.getState >>= f') :=
  fun st => h st st

theorem Projects.skip {m : VotingM Unit} {f : Unit → VotingM β} {m' : CommitterM β}
    (h : ∀ st, Ends m st (fun _ st' => st'.base = st.base) (fun _ _ => False))
    (hf : Projects (f ()) m') : Projects (m >>= f) m' := by
  have hm : Projects m (Pure.pure ()) := by
    intro st
    have hst := h st
    unfold Ends at hst
    unfold HandlerM.exec
    split at hst
    · next heq => rw [heq]; exact ⟨rfl, hst⟩
    · exact hst.elim
  exact (hm.bind fun _ => hf : Projects (m >>= f) (Pure.pure () >>= fun _ => m'))

end Projects

variable {blockHash voterKey : Bytes} {stakes : StakeSet}

theorem base_castConfirmationVote : Ends (castConfirmationVote blockHash voterKey) st
      (fun _ st' => st'.base = st.base) (fun _ _ => False) := by
  simp only [castConfirmationVote, accumulateVote, ends_bind, ends_getState]
  cases st.stakeSetCache.lookup blockHash with
  | none => exact rfl
  | some stakes => exact rfl

theorem base_replayVotes (voters : List Bytes) : Ends (replayVotes blockHash voters) st
      (fun _ st' => st'.base = st.base) (fun _ _ => False) := by
  induction voters generalizing st with
  | nil => exact rfl
  | cons voterKey rest ih =>
    simp only [replayVotes, accumulateVote, ends_bind, ends_getState]
    cases st.stakeSetCache.lookup blockHash with
    | none => exact ih
    | some stakes => exact ih

theorem base_cacheStakeSet {stakeSet : Option StakeSet} : Ends (cacheStakeSet blockHash stakeSet) st
      (fun _ st' => st'.base = st.base) (fun _ _ => False) := by
  cases stakeSet with
  | none => exact rfl
  | some stakes =>
    exact base_replayVotes _

theorem projects_voteFinalized (blocks : List Block) :
    Projects (voteFinalized C P cfg setup world blocks)
      (applyFinalized C P cfg world.answers blocks) := by
  induction blocks with
  | nil => exact .pure ()
  | cons block rest ih =>
    have hv : Projects (castConfirmationVote block.currentHash setup.publicKey >>=
        fun _ => voteFinalized C P cfg setup world rest)
        (applyFinalized C P cfg world.answers rest) :=
      .skip (fun _ => base_castConfirmationVote) ih
    refine .bind (.onBase _) fun o => ?_
    cases o with
    | applied => exact .bind (.onBase _) fun _ => hv
    | alreadyApplied | plain => exact hv

/-- What a finalized block does to the Committer does not depend on the votes
or on the stake set the message brings. -/
theorem projects_finalizeBlock (message : WireMessage) :
    Projects (finalizeBlock C P cfg setup world message)
      (handleBlockFinalized C P cfg world.answers message.toMessage) := by
  refine .bind (.ofOption _ _) fun block => ?_
  refine .skip (fun _ => base_cacheStakeSet) ?_
  refine .getState fun st => ?_
  refine .bind (.lift _) fun _ => .bind (.onBase _) fun token => ?_
  refine .bind (.onBase _) fun o => ?_
  cases o with
  | linkageMismatch => exact .onBase _
  | invalidHash => exact .fail _
  | appended => exact .bind (.onBase _) fun p => projects_voteFinalized _

variable {message : WireMessage}

section FinalizeBlock

variable {I : VotingState → Prop}

theorem preserves_voteFinalized (hb : ∀ (α : Type) (m : CommitterM α), Preserves I (onBase m))
    (hv : ∀ blockHash, Preserves I (castConfirmationVote blockHash setup.publicKey))
    (blocks : List Block) : Preserves I (voteFinalized C P cfg setup world blocks) := by
  induction blocks with
  | nil => exact .pure ()
  | cons block rest ih =>
    have hr : Preserves I (castConfirmationVote block.currentHash setup.publicKey >>=
          fun _ => voteFinalized C P cfg setup world rest) :=
      .bind (hv _) fun _ => ih
    refine .bind (hb _ _) fun o => ?_
    cases o with
    | applied => exact .bind (hb _ _) fun _ => hr
    | alreadyApplied | plain => exact hr

/-- After the stake set only the Committer below and the own votes are
written. -/
theorem keeps_finalizeBlock (hb : ∀ (α : Type) (m : CommitterM α), Preserves I (onBase m))
    (hv : ∀ blockHash, Preserves I (castConfirmationVote blockHash setup.publicKey))
    (hs : C.decodeBlock message.body = none → I st)
    (hcc : ∀ block, C.decodeBlock message.body = some block →
      Keeps (cacheStakeSet block.currentHash message.stakeSet) st I) :
    Keeps (finalizeBlock C P cfg setup world message) st I := by
  refine ends_bind.mpr (ends_ofOption.mpr ⟨fun block hd => ?_, hs⟩)
  have hc : Ends (cacheStakeSet block.currentHash message.stakeSet) st _ _ :=
    hcc block hd
  refine ends_bind.mpr (hc.mono (fun _ st' hst' => ?_) (fun _ _ hst' => hst'))
  refine Preserves.bind .getState (fun _ => ?_) st' hst'
  refine .bind (.lift _) fun _ => .bind (hb _ _) fun token => ?_
  refine .bind (hb _ _) fun o => ?_
  cases o with
  | linkageMismatch => exact hb _ _
  | invalidHash => exact .fail _
  | appended =>
    exact .bind (hb _ _) fun p => preserves_voteFinalized hb hv _

end FinalizeBlock

/-- The keys that may count for a block: the Committer's own, and those of the
envelopes that brought a vote for it. -/
def VotingState.creditable (setup : VotingSetup) (st : VotingState)
    (blockHash : Bytes) : Finset Bytes :=
  insert setup.publicKey ((st.confirmers.filter (·.1 = blockHash)).map Prod.snd).toFinset

/-- The stake recorded for a block is at most that of the keys that may count. -/
def CreditsProven (setup : VotingSetup) (st : VotingState) : Prop :=
  ∀ blockHash voters total, st.confirmationVotes.lookup blockHash = some (voters, total) →
    ∃ stakes, st.stakeSetCache.lookup blockHash = some stakes ∧
      total ≤ ∑ key ∈ st.creditable setup blockHash, stakes.getStake key

/-- The condition on an authenticated message, in the state it meets: a vote
names the key of its envelope, and a stake set for a block that has votes is the
cached one. -/
structure VoteSafe (C : Codec) (votes : VoteCodec) (st : VotingState)
    (message : WireMessage) : Prop where
  ownVote : message.action = "BlockConfirmed" → ∀ blockHash voterKey,
    votes.decodeVote message.body = some (blockHash, voterKey) →
    voterKey = message.publicKey
  sameStakes : message.action = "BlockFinalized" → ∀ block stakes,
    C.decodeBlock message.body = some block → message.stakeSet = some stakes →
    st.confirmationVotes.lookup block.currentHash ≠ none →
    st.stakeSetCache.lookup block.currentHash = some stakes

/-- Votes that are counted or wait are of voters that can be credited. -/
structure VoteInv (setup : VotingSetup) (st : VotingState) : Prop where
  counted : ∀ blockHash voters total, st.confirmationVotes.lookup blockHash = some (voters, total) →
    voters ⊆ st.creditable setup blockHash ∧
      ∃ stakes, st.stakeSetCache.lookup blockHash = some stakes ∧
        total ≤ ∑ key ∈ voters, stakes.getStake key
  waiting : ∀ blockHash, ∀ key ∈ (st.pendingConfirmationVotes.lookup blockHash).getD [],
    key ∈ st.creditable setup blockHash

theorem VoteInv.creditsProven (h : VoteInv setup st) : CreditsProven setup st := by
  intro blockHash v total hv
  obtain ⟨hsub, stakes, hc, hle⟩ := h.counted blockHash v total hv
  refine ⟨stakes, hc, hle.trans ?_⟩
  exact Finset.sum_le_sum_of_subset hsub

theorem addVote_le {entry : Finset Bytes × Nat}
    (h : entry.2 ≤ ∑ key ∈ entry.1, stakes.getStake key) : (addVote stakes voterKey entry).2 ≤
      ∑ key ∈ (addVote stakes voterKey entry).1, stakes.getStake key := by
  unfold addVote
  split
  · exact h
  · next hnew =>
    rw [Finset.sum_insert hnew]
    have hs : saturatingAdd entry.2 (stakes.getStake voterKey) ≤
        entry.2 + stakes.getStake voterKey := Nat.min_le_left _ _
    omega

theorem addVote_subset {entry : Finset Bytes × Nat} {keys : Finset Bytes} (h : entry.1 ⊆ keys)
    (hkey : voterKey ∈ keys) : (addVote stakes voterKey entry).1 ⊆ keys := by
  unfold addVote
  split
  · exact h
  · exact Finset.insert_subset hkey h

theorem VoteInv.addVote (h : VoteInv setup st)
    (hc : st.stakeSetCache.lookup blockHash = some stakes)
    (hkey : voterKey ∈ st.creditable setup blockHash) :
    VoteInv setup { st with
      confirmationVotes := st.confirmationVotes.insert blockHash
        (Pneumatic.addVote stakes voterKey
          ((st.confirmationVotes.lookup blockHash).getD (∅, 0))) } := by
  have hb : ((st.confirmationVotes.lookup blockHash).getD (∅, 0)).1 ⊆
        st.creditable setup blockHash ∧
      ((st.confirmationVotes.lookup blockHash).getD (∅, 0)).2 ≤
        ∑ key ∈ ((st.confirmationVotes.lookup blockHash).getD (∅, 0)).1, stakes.getStake key := by
    cases hv : st.confirmationVotes.lookup blockHash with
    | none => exact ⟨Finset.empty_subset _, Nat.zero_le _⟩
    | some entry =>
      obtain ⟨hsub, stakes', hc', hle⟩ :=
        h.counted blockHash entry.1 entry.2 hv
      obtain rfl := Option.mem_unique hc hc'
      exact ⟨hsub, hle⟩
  refine ⟨fun other v total hv => ?_, h.waiting⟩
  by_cases ho : other = blockHash
  · subst ho
    rw [lookup_insert] at hv
    have he := Option.some.inj hv
    refine ⟨?_, stakes, hc, ?_⟩
    · rw [← show _ = v from congrArg Prod.fst he]
      exact addVote_subset hb.1 hkey
    · rw [← show _ = v from congrArg Prod.fst he, ← show _ = total from congrArg Prod.snd he]
      exact addVote_le hb.2
  · rw [lookup_insert_of_ne _ ho] at hv
    exact h.counted other v total hv

theorem own_mem_creditable (blockHash : Bytes) : setup.publicKey ∈ st.creditable setup blockHash :=
  Finset.mem_insert_self _ _

theorem VoteInv.castConfirmationVote (h : VoteInv setup st)
    (hkey : voterKey ∈ st.creditable setup blockHash) :
    Keeps (Pneumatic.castConfirmationVote blockHash voterKey) st (VoteInv setup) := by
  simp only [Keeps, Pneumatic.castConfirmationVote, accumulateVote, ends_bind, ends_getState]
  cases hc : st.stakeSetCache.lookup blockHash with
  | some stakes => exact h.addVote hc hkey
  | none =>
    refine ⟨h.counted, fun other key hmem => ?_⟩
    by_cases ho : other = blockHash
    · subst ho
      rw [lookup_insert] at hmem
      rcases mem_append.mp hmem with hold | hnew
      · exact h.waiting other key hold
      · obtain rfl := mem_singleton.mp hnew
        exact hkey
    · rw [lookup_insert_of_ne _ ho] at hmem
      exact h.waiting other key hmem

theorem VoteInv.replayVotes (h : VoteInv setup st) {voters : List Bytes}
    (hv : ∀ key ∈ voters, key ∈ st.creditable setup blockHash) :
    Keeps (Pneumatic.replayVotes blockHash voters) st (VoteInv setup) := by
  induction voters generalizing st with
  | nil => exact h
  | cons voterKey rest ih =>
    have hr : ∀ key ∈ rest, key ∈ st.creditable setup blockHash :=
      fun key hkey => hv key (mem_cons_of_mem voterKey hkey)
    simp only [Keeps, Pneumatic.replayVotes, accumulateVote, ends_bind, ends_getState]
    cases hc : st.stakeSetCache.lookup blockHash with
    | none => exact ih h hr
    | some stakes =>
      exact ih (h.addVote hc (hv voterKey mem_cons_self)) hr

/-- A stake set for a block that has votes has to be the one they were counted
with. -/
theorem VoteInv.cacheStakeSet (h : VoteInv setup st) {stakeSet : Option StakeSet}
    (hsm : ∀ stakes, stakeSet = some stakes → st.confirmationVotes.lookup blockHash ≠ none →
      st.stakeSetCache.lookup blockHash = some stakes) :
    Keeps (Pneumatic.cacheStakeSet blockHash stakeSet) st (VoteInv setup) := by
  cases stakeSet with
  | none => exact h
  | some stakes =>
    refine VoteInv.replayVotes ⟨fun other v total hv => ?_,
      fun other key hmem => ?_⟩ fun key hkey => h.waiting blockHash key hkey
    · obtain ⟨hsub, stakes', hc, hle⟩ := h.counted other v total hv
      refine ⟨hsub, stakes', ?_, hle⟩
      by_cases ho : other = blockHash
      · subst ho
        have hs := hsm stakes rfl (by rw [hv]; exact Option.some_ne_none _)
        rw [lookup_insert]
        exact hs.symm.trans hc
      · rw [lookup_insert_of_ne _ ho]
        exact hc
    · by_cases ho : other = blockHash
      · subst ho
        rw [lookup_erase] at hmem
        cases hmem
      · rw [lookup_erase_ne ho] at hmem
        exact h.waiting other key hmem

theorem preserves_onBase (α : Type) (m : CommitterM α) : Preserves (VoteInv setup) (onBase m) :=
  fun _ h => keeps_iff.mpr ⟨h.counted, h.waiting⟩

theorem VoteInv.finalizeBlock (h : VoteInv setup st)
    (hs : ∀ block stakes, C.decodeBlock message.body = some block →
      message.stakeSet = some stakes → st.confirmationVotes.lookup block.currentHash ≠ none →
      st.stakeSetCache.lookup block.currentHash = some stakes) :
    Keeps (Pneumatic.finalizeBlock C P cfg setup world message) st (VoteInv setup) := by
  refine keeps_finalizeBlock preserves_onBase (fun blockHash _ h => ?_)
    (fun _ => h) (fun block hd => h.cacheStakeSet (hs block · hd))
  exact h.castConfirmationVote (own_mem_creditable blockHash)

/-- An authenticated vote makes its sender's key count for the block. -/
theorem VoteInv.handleBlockConfirmedVote (h : VoteInv setup st)
    (hown : ∀ blockHash voterKey, votes.decodeVote message.body = some (blockHash, voterKey) →
      voterKey = message.publicKey) :
    Keeps (Pneumatic.handleBlockConfirmedVote votes message) st (VoteInv setup) := by
  simp only [Keeps, Pneumatic.handleBlockConfirmedVote, ends_bind, ends_ofOption, ends_update]
  refine ⟨fun vote hd => ?_, fun _ => h⟩
  obtain ⟨blockHash, voterKey⟩ := vote
  obtain rfl := hown blockHash voterKey hd
  have hg : ∀ other, st.creditable setup other ⊆ VotingState.creditable setup
      { st with confirmers := st.confirmers ++ [(blockHash, message.publicKey)] }
      other := by
    intro other
    refine Finset.insert_subset_insert _ fun key hkey => ?_
    simp only [mem_toFinset, mem_map, mem_filter, mem_append] at hkey ⊢
    obtain ⟨pair, ⟨hmem, hh⟩, hp⟩ := hkey
    exact ⟨pair, ⟨.inl hmem, hh⟩, hp⟩
  have hinv : VoteInv setup
      { st with confirmers := st.confirmers ++ [(blockHash, message.publicKey)] } := by
    refine ⟨fun other v total hv => ?_, fun other key hkey => ?_⟩
    · obtain ⟨hsub, hs⟩ := h.counted other v total hv
      exact ⟨hsub.trans (hg other), hs⟩
    · exact hg other (h.waiting other key hkey)
  refine hinv.castConfirmationVote (Finset.mem_insert_of_mem ?_)
  simp

theorem preserves_handleBlockQuorumReached (message : WireMessage) :
    Preserves (VoteInv setup) (handleBlockQuorumReached setup votes world message) := by
  refine .bind (.ofOption _ _) fun blockHash => .bind .getState fun st => ?_
  split
  · split
    · exact .pure ()
    · exact .bind (.ofOption _ _) fun token =>
        .update fun _ h => ⟨h.counted, h.waiting⟩
  · exact .pure ()

theorem VoteInv.step (h : VoteInv setup st) (d : VotingDelivery)
    (hsf : authenticateMessage C setup d.world.answers.roles d.message = .ok () →
      VoteSafe C votes st d.message) : VoteInv setup (votingStep C P cfg setup votes st d) := by
  refine keeps_iff.mp (ends_bind.mpr (ends_lift.mpr ⟨fun _ hs => ?_, fun _ _ => h⟩))
  have hm := hsf hs
  split
  · next ha => exact h.finalizeBlock (hm.sameStakes ha)
  · split
    · next ha => exact h.handleBlockConfirmedVote (hm.ownVote ha)
    · split
      · exact preserves_handleBlockQuorumReached d.message st h
      · exact h

/-- In every run of safe messages, the stake recorded for a block is at most
that of the keys that proved they sent a vote for it, and of the Committer's
own, in any state reached. -/
theorem creditsProven_of_safe {ds : List VotingDelivery}
    (hvotes : st.confirmationVotes = ∅) (hpending : st.pendingConfirmationVotes = ∅)
    (hsafe : Meets (votingStep C P cfg setup votes) (fun st d =>
      authenticateMessage C setup d.world.answers.roles d.message = .ok () →
        VoteSafe C votes st d.message) st ds) :
    CreditsProven setup (run (votingStep C P cfg setup votes) st ds) := by
  have hinv : VoteInv setup st := by
    refine ⟨fun blockHash v total h => ?_, fun blockHash key hkey => ?_⟩
    · rw [hvotes, lookup_empty] at h
      cases h
    · rw [hpending, lookup_empty] at hkey
      cases hkey
  exact (run_invariant (fun _ d h hsafe => h.step d hsafe) hinv hsafe).creditsProven

def votedBlock : Block := blockOn [] (signedCarrier (routedTransaction "t") none)

def votingCodec : Codec :=
  { ShieldedPool.sampleCodec with decodeBlock := fun _ => some votedBlock }

/-- The body of a vote for the block is the voter it names. -/
def namedVoter : VoteCodec where
  decodeVote body := some (votedBlock.currentHash, body)
  decodeBlockHash _ := some votedBlock.currentHash

def votingSetup : VotingSetup where
  publicKey := [9]
  configuredPercentage := 67

def unvoted : VotingState where
  base := bootState
  stakeSetCache := ∅
  confirmationVotes := ∅
  pendingConfirmationVotes := ∅
  confirmers := []

def voting (sender : Bytes) (action : String) (body : Bytes)
    (stakeSet : Option StakeSet) : VotingDelivery where
  world := ⟨obligingWorld, fun _ => []⟩
  message :=
    { publicKey := sender
      signature := []
      body := body
      chainId := "env"
      action := action
      stakeSet := stakeSet }

def staked (key : Bytes) : Option StakeSet := some ((∅ : StakeSet).insert key 10)

def votingRun (ds : List VotingDelivery) : VotingState :=
  run (votingStep votingCodec ShieldedPool.samplePrimitives sampleCommitter votingSetup
    namedVoter) unvoted ds

theorem not_creditsProven (blockHash : Bytes) (voters : Finset Bytes) (total : Nat)
    (stakes : StakeSet) (hv : st.confirmationVotes.lookup blockHash = some (voters, total))
    (hc : st.stakeSetCache.lookup blockHash = some stakes)
    (hlt : ∑ key ∈ st.creditable setup blockHash, stakes.getStake key < total) :
    ¬ CreditsProven setup st := by
  intro h
  obtain ⟨stakes', hc', hle⟩ := h blockHash voters total hv
  obtain rfl := Option.mem_unique hc hc'
  omega

/-- `[5]` votes in the name of `[8]` and is counted with its stake. And `[5]`
votes for itself, and the stake set is then replaced by one in which it has
none. -/
theorem unproven_stake_counted : ¬ CreditsProven votingSetup (votingRun
        [voting [4] "BlockFinalized" [] (staked [8]), voting [5] "BlockConfirmed" [8] none]) ∧
      ¬ CreditsProven votingSetup (votingRun [voting [4] "BlockFinalized" [] (staked [5]),
         voting [5] "BlockConfirmed" [5] none, voting [4] "BlockFinalized" [] (staked [8])]) := by
  constructor
  · exact not_creditsProven votedBlock.currentHash {[9], [8]} 10
      ((∅ : StakeSet).insert [8] 10) (by decide +kernel) rfl
      (by decide +kernel)
  · exact not_creditsProven votedBlock.currentHash {[9], [5]} 10
      ((∅ : StakeSet).insert [8] 10) (by decide +kernel) rfl
      (by decide +kernel)

/-- `[5]` votes for itself, and its stake is what is recorded. -/
theorem own_vote_counted : (votingRun [voting [4] "BlockFinalized" [] (staked [5]),
        voting [5] "BlockConfirmed" [5] none]).confirmationVotes.lookup
          votedBlock.currentHash = some ({[9], [5]}, 10) ∧ CreditsProven votingSetup (votingRun
        [voting [4] "BlockFinalized" [] (staked [5]), voting [5] "BlockConfirmed" [5] none]) := by
  refine ⟨by decide +kernel, creditsProven_of_safe rfl rfl
    ⟨fun _ => ⟨fun h => ?_, fun _ _ _ _ _ hv => absurd rfl hv⟩,
      fun _ => ⟨fun _ blockHash voterKey hvt => ?_, fun h => ?_⟩, trivial⟩⟩
  · exact absurd h (by decide)
  · cases hvt
    rfl
  · exact absurd h (by decide)

end Pneumatic
