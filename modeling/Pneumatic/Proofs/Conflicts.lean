import Pneumatic.Proofs.CommitOutcome

/-!
# How far a Commit gets

`check_and_commit_transaction_results` leaves one of four things behind, by how
far it got: it is refused before the conflict check, it loses to a candidate at
its position, it wins or is unopposed and its block does not go on the chain, or
the block goes on. `CommitEffect` says for each of them what the state before
must have been and which fields can differ after; what a failure later on the
way undoes or leaves half done is inside the fields it leaves open.

The results about forks, slashes and leader batches only look at the chains,
the candidates and the stakes, so they are case analyses of this.
-/

namespace Pneumatic

open Handler HandlerM CommitterState Finmap

variable {C : Codec} {P : ShieldedPrimitives} {cfg : CommitterConfig}
  {world : CommitterWorld} {s : CommitterState}

/-- The pool takes a Commit's block, and its state is stored where the block
brings a delta. -/
def PoolAccepts (C : Codec) (P : ShieldedPrimitives) (cfg : CommitterConfig)
    (world : CommitterWorld) (pool : ShieldedPool)
    (commit : TransactionCommit) : Prop :=
  ∃ pool' outcome, pool.applyUpdate C P cfg.env commit.proposedBlock = (pool', .ok outcome) ∧
      (outcome = .applied → world.savePool pool'.stateSnapshot = true)

/-- A Commit whose block goes on the token's chain if it wins its conflict. -/
structure GoesOn (C : Codec) (P : ShieldedPrimitives) (cfg : CommitterConfig)
    (world : CommitterWorld) (s : CommitterState) (commit : TransactionCommit)
    (token : Token) : Prop where
  env : commit.envId = cfg.environmentId
  pool : PoolAccepts C P cfg world s.pool commit
  lands : Lands C cfg world s.tokens commit (s.rollbackTarget commit) token

/-- What a Commit can make of the state. -/
inductive CommitEffect (C : Codec) (P : ShieldedPrimitives)
    (cfg : CommitterConfig) (world : CommitterWorld) (s : CommitterState)
    (commit : TransactionCommit) (key : Bytes) : CommitterState → Prop
  | refused {pending : PendingRegistry} (hnot : ¬ CommitReady C s commit)
      (hpending : AgreeOff commit.txId s.pending pending) :
      CommitEffect C P cfg world s commit key { s with pending := pending }
  | discarded {pending : PendingRegistry} {candidate : Block × Bytes}
      (hready : CommitReady C s commit)
      (hpending : AgreeOff commit.txId s.pending pending)
      (hlost : s.unbeaten commit key = some candidate) :
      CommitEffect C P cfg world s commit key
        { s with
          pending := pending
          candidates := s.candidates.erase commit.position
          stakes := stakesAfter cfg s.stakes (resolveBlockConflict
            commit.proposedBlock.currentHash candidate.1.currentHash key
            candidate.2 s.stakes) }
  | unlanded {pending : PendingRegistry}
      {tokens : TokenMap} {pool : ShieldedPool}
      (hready : CommitReady C s commit)
      (hpending : AgreeOff commit.txId s.pending pending)
      (hbeats : ∀ c ∈ s.candidatesAt commit.position, Beats s.stakes commit key c)
      (hnot : ∀ token, ¬ GoesOn C P cfg world s commit token)
      (hcached : StillCached s.tokens tokens)
      (hothers : AgreeOff commit.tokenId s.tokens tokens) :
      CommitEffect C P cfg world s commit key
        { s with
          pending := pending
          tokens := tokens
          pool := pool
          candidates := s.candidatesAfter commit key }
  | landed {pending : PendingRegistry}
      {tokens : TokenMap} {pool : ShieldedPool}
      {committedTxs : Finmap (fun _ : String => Nat × Bytes)} {token : Token}
      (hready : CommitReady C s commit)
      (hpending : AgreeOff commit.txId s.pending pending)
      (hbeats : ∀ c ∈ s.candidatesAt commit.position, Beats s.stakes commit key c)
      (hgoes : GoesOn C P cfg world s commit token)
      (hchain : tokens.lookup commit.tokenId =
        some (token.commitBlock C cfg.validators commit.proposedBlock (s.rollbackTarget commit)).1)
      (hothers : AgreeOff commit.tokenId s.tokens tokens)
      (hunbooked : ∀ txId, txId ≠ commit.txId →
        s.committedTxs.lookup txId = none → committedTxs.lookup txId = none) :
      CommitEffect C P cfg world s commit key
        { s with
          pending := pending
          tokens := tokens
          pool := pool
          committedTxs := committedTxs
          candidates := s.candidatesAfter commit key
          log := landedLog C commit (s.rollbackTarget commit) token s.log }

variable {s' : CommitterState} {commit : TransactionCommit} {key : Bytes}

variable {position : Bytes × Bytes}

theorem candidatesAt_erase
    (h : s'.candidates = s.candidates.erase position) : s'.candidatesAt position = [] := by
  rw [candidatesAt, h, lookup_erase]
  rfl

theorem candidatesAt_candidatesAfter (h : s'.candidates = s.candidatesAfter commit key) :
    s'.candidatesAt commit.position =
      if s.candidatesAt commit.position = [] then
        [(commit.proposedBlock, key)]
      else [] := by
  rw [candidatesAfter] at h
  split at h
  · next hnil =>
    rw [if_pos hnil, candidatesAt, h, lookup_insert]
    rfl
  · next hne => rw [if_neg hne]; exact candidatesAt_erase h

theorem rollbackTarget_of_nil
    (h : s.candidatesAt commit.position = []) : s.rollbackTarget commit = none := by
  rw [rollbackTarget, h]
  rfl

theorem CommitReady.congr (h : CommitReady C s commit)
    (hb : s'.committedTxs.lookup commit.txId = none)
    (hpn : s'.pending.lookup commit.txId = s.pending.lookup commit.txId)
    (hs : s'.shielded = s.shielded) : CommitReady C s' commit := by
  obtain ⟨tx, hh, hp⟩ := h.held
  refine ⟨hb, tx, ?_, ?_⟩
  · rw [HeldFor, hpn]
    exact hh
  · rw [checkPayload, hs]
    exact hp

theorem lookup_pruneCommittedTxs {booked : Finmap (fun _ : String => Nat × Bytes)}
    {txId : String} (h : booked.lookup txId = none) :
    (pruneCommittedTxs world booked).lookup txId = none := by
  rw [lookup_eq_none] at h ⊢
  intro hmem
  obtain ⟨entry, he, rfl⟩ := Multiset.mem_map.mp (mem_def.mp hmem)
  exact h (mem_def.mpr (Multiset.mem_map_of_mem Sigma.fst (Multiset.mem_filter.mp he).1))

theorem lookup_booked_of_ne {committedTxs : Finmap (fun _ : String => Nat × Bytes)}
    {txId id : String} {block : Block} (hne : id ≠ txId) (h : committedTxs.lookup id = none) :
    (booked world committedTxs txId block).lookup id = none := by
  have hi : (committedTxs.insert txId (block.epochNumber, block.currentHash)).lookup id = none := by
    rw [lookup_insert_of_ne _ hne]
    exact h
  unfold booked
  dsimp only
  split
  · exact lookup_pruneCommittedTxs hi
  · exact hi

/-- Whichever way a Commit ends, it leaves one of the four things behind. -/
theorem CommitExit.effect {verdict : Except CommitterError Unit}
    (h : CommitExit C P cfg world s commit key verdict s') :
    CommitEffect C P cfg world s commit key s' := by
  cases h with
  | finished hf hp ha hs hst hh hpd =>
    refine .landed hf.ready ?_ hf.beats ⟨ha.env, ⟨_, _, hp.applied, hp.saved⟩, ha.lands⟩
      (lookup_insert _) (.insert _ _ _) fun id hne => lookup_booked_of_ne hne
    exact (agreeOff_taken _ _ _ _).trans (agreeOff_released _ _ _ _)
  | duplicate hb =>
    exact .refused (fun hr => hb hr.unbooked) (.refl _ _)
  | untaken hun hn =>
    refine .refused (fun hr => ?_) (agreeOff_taken _ _ _ _)
    obtain ⟨tx, hh, -⟩ := hr.held
    exact hn tx hh
  | mismatched hun hh hpy =>
    refine .refused (fun hr => ?_) (agreeOff_taken _ _ _ _)
    obtain ⟨tx, hh', hok⟩ := hr.held
    rw [hh.unique hh'] at hpy
    exact hpy hok
  | discarded hr hl =>
    exact .discarded hr (agreeOff_taken _ _ _ _) hl
  | unpooled hf hrf =>
    refine .unlanded hf.ready (agreeOff_taken _ _ _ _) hf.beats (fun token hg => ?_)
      (fun _ _ h => h) (.refl _ _)
    obtain ⟨pool', o, hap, -⟩ := hg.pool
    cases hrf.symm.trans hap
  | unstored hf hap hu =>
    refine .unlanded hf.ready (agreeOff_taken _ _ _ _) hf.beats (fun token hg => ?_)
      (fun _ _ h => h) (.refl _ _)
    obtain ⟨pool', o, hap', hs⟩ := hg.pool
    cases hap.symm.trans hap'
    exact hu (hs rfl)
  | unlanded hf hp hnot hw ho =>
    refine .unlanded hf.ready (agreeOff_taken _ _ _ _) hf.beats (fun token hg => ?_) hw.kept ho
    exact hnot token ⟨hg.env, hg.lands⟩
  | unsaved hf hp ha hu
  | unsettled hf hp ha hs hus
  | unfinished hf hp ha hs hst hh hup =>
    exact .landed hf.ready (agreeOff_taken _ _ _ _) hf.beats
      ⟨ha.env, ⟨_, _, hp.applied, hp.saved⟩, ha.lands⟩ (lookup_insert _) (.insert _ _ _)
      fun _ _ h => h

theorem commitEffect (commit : TransactionCommit) (key : Bytes) :
    CommitEffect C P cfg world s commit key
      ((checkAndCommitTransactionResults C P cfg world commit key).exec s).2 :=
  (commitExit C P cfg world s commit key).effect

section Frame

variable {commit : TransactionCommit} {key : Bytes} {s' : CommitterState}

section

variable (h : CommitEffect C P cfg world s commit key s')

include h

theorem CommitEffect.candidatesAt_of_ne
    (hne : position ≠ commit.position) : s'.candidatesAt position = s.candidatesAt position := by
  have he : (s.candidates.erase commit.position).lookup position =
      s.candidates.lookup position := lookup_erase_ne hne
  have ha : (s.candidatesAfter commit key).lookup position = s.candidates.lookup position := by
    unfold candidatesAfter
    split
    · exact lookup_insert_of_ne _ hne
    · exact he
  cases h with
  | refused _ _ => rfl
  | discarded _ _ _ => exact congrArg (Option.getD · []) he
  | unlanded _ _ _ _ _ _ | landed _ _ _ _ _ _ _ => exact congrArg (Option.getD · []) ha

theorem CommitEffect.mem_candidatesAt
    {c : Block × Bytes} (hc : c ∈ s'.candidatesAt position) : c ∈ s.candidatesAt position ∨
      (position = commit.position ∧ c = (commit.proposedBlock, key)) := by
  by_cases hp : position = commit.position
  · subst hp
    have ha : s'.candidates = s.candidatesAfter commit key → c = (commit.proposedBlock, key) := by
      intro hcn
      rw [candidatesAt_candidatesAfter hcn] at hc
      split at hc
      · exact List.mem_singleton.mp hc
      · cases hc
    cases h with
    | refused _ _ => exact .inl hc
    | discarded _ _ _ =>
      rw [candidatesAt_erase rfl] at hc
      cases hc
    | unlanded _ _ _ _ _ _ | landed _ _ _ _ _ _ _ => exact .inr ⟨rfl, ha rfl⟩
  · rw [h.candidatesAt_of_ne hp] at hc
    exact .inl hc

theorem CommitEffect.tokens : AgreeOff commit.tokenId s.tokens s'.tokens := by
  cases h with
  | refused _ _ => exact .refl _ _
  | discarded _ _ _ => exact .refl _ _
  | unlanded _ _ _ _ _ ho => exact ho
  | landed _ _ _ _ _ ho _ => exact ho

end

end Frame

end Pneumatic
