import Pneumatic.Proofs.CommitterEffects

/-!
# Where a Commit ends

`check_and_commit_transaction_results` has eleven ways out, and what a Commit
leaves behind is decided by the one it takes. `CommitExit` lists them in the order
of the source, each with what must have held for the call to get there, its
verdict and the exact state it leaves: the lock that stays taken, the block that
stays on the chain when the token is not saved, the pool after a revert.

What the errors say is left open where an undo on the way may replace it.
-/

namespace Pneumatic

open Handler HandlerM Finmap Option ShieldedPool PendingRegistry

variable {C : Codec} {P : ShieldedPrimitives} {cfg : CommitterConfig}
  {world : CommitterWorld} {s : CommitterState}

/-! ## The states on the way -/

def booked (world : CommitterWorld)
    (committedTxs : Finmap (fun _ : String => Nat × Bytes)) (txId : String)
    (block : Block) : Finmap (fun _ : String => Nat × Bytes) :=
  let booked := committedTxs.insert txId (block.epochNumber, block.currentHash)
  if pruneThreshold < booked.keys.card then pruneCommittedTxs world booked
  else booked

namespace CommitterState

def taken (s : CommitterState) (commit : TransactionCommit) (key : Bytes) : CommitterState :=
  { s with
    pending := s.pending.taken commit.txId commit key }

/-- The state after a conflict check that lets the Commit go on. -/
def contested (s : CommitterState) (commit : TransactionCommit) (key : Bytes) : CommitterState :=
  { s.taken commit key with candidates := s.candidatesAfter commit key }

/-- The state with the block on the chain of its token. -/
def extended (C : Codec) (cfg : CommitterConfig) (s : CommitterState)
    (commit : TransactionCommit) (key : Bytes) (token : Token) : CommitterState :=
  { s.contested commit key with
    tokens := s.tokens.insert commit.tokenId
      (token.commitBlock C cfg.validators commit.proposedBlock
        (s.rollbackTarget commit)).1
    log := landedLog C commit (s.rollbackTarget commit) token s.log }

end CommitterState

section

variable (C : Codec) (P : ShieldedPrimitives) (cfg : CommitterConfig) (world : CommitterWorld)
  (s : CommitterState) (commit : TransactionCommit) (pool : ShieldedPool)

def ShieldedPool.undone (blockHash : Bytes) (outcome : PoolApplyOutcome) : ShieldedPool :=
  if outcome = .applied then (pool.revertUpdate P blockHash).1 else pool

/-- The pool without the delta of the block that was rolled back. -/
def ShieldedPool.settled (rollback : Option Bytes) : ShieldedPool :=
  match rollback with
  | none => pool
  | some loser => (pool.revertUpdate P loser).1

/-- The loser's delta can be taken out, and the pool be saved after that. -/
def Settles (rollback : Option Bytes) : Prop :=
  ∀ loser, rollback = some loser → ((pool.revertUpdate P loser).2 = .ok () ∨
      ∃ hash, (pool.revertUpdate P loser).2 = .error (.poolRollback hash)) ∧
    world.savePool (pool.revertUpdate P loser).1.stateSnapshot = true

/-! ## The ways out -/

/-- The Commit is ready and beats every candidate of its position. -/
structure Uncontested (key : Bytes) : Prop where
  ready : CommitReady C s commit
  beats : ∀ c ∈ s.candidatesAt commit.position, Beats s.stakes commit key c

/-- The pool takes the block, and is saved where the block brings a delta. -/
structure Pooled (outcome : PoolApplyOutcome) : Prop where
  applied : s.pool.applyUpdate C P cfg.env commit.proposedBlock = (pool, .ok outcome)
  saved : outcome = .applied → world.savePool pool.stateSnapshot = true

/-- The Commit is of this environment and its block lands on the token. -/
structure Appends (token : Token) : Prop where
  env : commit.envId = cfg.environmentId
  lands : Lands C cfg world s.tokens commit (s.rollbackTarget commit) token

end

/-- The ways out, with the verdict and the state. -/
inductive CommitExit (C : Codec) (P : ShieldedPrimitives) (cfg : CommitterConfig)
    (world : CommitterWorld) (s : CommitterState) (commit : TransactionCommit)
    (key : Bytes) : Except CommitterError Unit → CommitterState → Prop
  | duplicate {e : CommitterError}
      (hbooked : s.committedTxs.lookup commit.txId ≠ none) :
      CommitExit C P cfg world s commit key (.error e) s
  | untaken {e : CommitterError}
      (hunbooked : s.committedTxs.lookup commit.txId = none)
      (hnone : ∀ tx, ¬ HeldFor s.pending commit.txId commit tx) :
      CommitExit C P cfg world s commit key (.error e) (s.taken commit key)
  | mismatched {e : CommitterError} {tx : Transaction}
      (hunbooked : s.committedTxs.lookup commit.txId = none)
      (hheld : HeldFor s.pending commit.txId commit tx)
      (hpayload : checkPayload C s commit.txId commit tx ≠ .ok ()) :
      CommitExit C P cfg world s commit key (.error e) (s.taken commit key)
  | discarded {candidate : Block × Bytes} (hready : CommitReady C s commit)
      (hlost : s.unbeaten commit key = some candidate) :
      CommitExit C P cfg world s commit key (.error .loserDiscarded)
        { s.taken commit key with
          candidates := s.candidates.erase commit.position
          stakes := stakesAfter cfg s.stakes (resolveBlockConflict
            commit.proposedBlock.currentHash candidate.1.currentHash key
            candidate.2 s.stakes) }
  | unpooled {e : CommitterError} {pool : ShieldedPool} (hfree : Uncontested C s commit key)
      (hrefused : s.pool.applyUpdate C P cfg.env commit.proposedBlock = (pool, .error e)) :
      CommitExit C P cfg world s commit key (.error e)
        { s.contested commit key with pool := pool }
  | unstored {e : CommitterError} {pool : ShieldedPool} (hfree : Uncontested C s commit key)
      (happlied : s.pool.applyUpdate C P cfg.env commit.proposedBlock = (pool, .ok .applied))
      (hunsaved : world.savePool pool.stateSnapshot ≠ true) :
      CommitExit C P cfg world s commit key (.error e)
        { s.contested commit key with
          pool := (pool.revertUpdate P commit.proposedBlock.currentHash).1 }
  | unlanded {e : CommitterError} {pool : ShieldedPool}
      {outcome : PoolApplyOutcome} {tokens : TokenMap}
      (hfree : Uncontested C s commit key)
      (hpooled : Pooled C P cfg world s commit pool outcome)
      (hnot : ∀ token, ¬ Appends C cfg world s commit token)
      (hwarmed : Warmed world s.tokens tokens)
      (hothers : AgreeOff commit.tokenId s.tokens tokens) :
      CommitExit C P cfg world s commit key (.error e)
        { s.contested commit key with
          tokens := tokens
          pool := pool.undone P commit.proposedBlock.currentHash outcome }
  | unsaved {e : CommitterError} {pool : ShieldedPool} {outcome : PoolApplyOutcome} {token : Token}
      (hfree : Uncontested C s commit key)
      (hpooled : Pooled C P cfg world s commit pool outcome)
      (happends : Appends C cfg world s commit token)
      (hunsaved : world.saveToken commit.tokenId
        (token.commitBlock C cfg.validators commit.proposedBlock
          (s.rollbackTarget commit)).1 ≠ true) :
      CommitExit C P cfg world s commit key (.error e)
        { s.extended C cfg commit key token with
          pool := pool.undone P commit.proposedBlock.currentHash outcome }
  | unsettled {e : CommitterError} {pool : ShieldedPool}
      {outcome : PoolApplyOutcome} {token : Token}
      (hfree : Uncontested C s commit key)
      (hpooled : Pooled C P cfg world s commit pool outcome)
      (happends : Appends C cfg world s commit token)
      (hsaved : world.saveToken commit.tokenId
        (token.commitBlock C cfg.validators commit.proposedBlock
          (s.rollbackTarget commit)).1 = true)
      (hunsettled : ¬ Settles P world pool (s.rollbackTarget commit)) :
      CommitExit C P cfg world s commit key (.error e)
        { s.extended C cfg commit key token with
          pool := pool.settled P (s.rollbackTarget commit) }
  | unfinished {e : CommitterError} {pool : ShieldedPool}
      {outcome : PoolApplyOutcome} {token : Token} {tx : Transaction}
      (hfree : Uncontested C s commit key)
      (hpooled : Pooled C P cfg world s commit pool outcome)
      (happends : Appends C cfg world s commit token)
      (hsaved : world.saveToken commit.tokenId
        (token.commitBlock C cfg.validators commit.proposedBlock
          (s.rollbackTarget commit)).1 = true)
      (hsettles : Settles P world pool (s.rollbackTarget commit))
      (hheld : HeldFor s.pending commit.txId commit tx)
      (hunpaid : ¬ (GasDebited world s.gas commit.txId tx.sender ∧
        applyDeltas world (adoptResult tx commit.proposedBlock.signedTrans.transaction)
          commit.proposedBlock.epochNumber = .ok ())) :
      CommitExit C P cfg world s commit key (.error e)
        { s.extended C cfg commit key token with
          pool := pool.settled P (s.rollbackTarget commit) }
  | finished {pool : ShieldedPool} {outcome : PoolApplyOutcome} {token : Token}
      {tx : Transaction} (hfree : Uncontested C s commit key)
      (hpooled : Pooled C P cfg world s commit pool outcome)
      (happends : Appends C cfg world s commit token)
      (hsaved : world.saveToken commit.tokenId
        (token.commitBlock C cfg.validators commit.proposedBlock
          (s.rollbackTarget commit)).1 = true)
      (hsettles : Settles P world pool (s.rollbackTarget commit))
      (hheld : HeldFor s.pending commit.txId commit tx)
      (hpaid : GasDebited world s.gas commit.txId tx.sender ∧ applyDeltas world
          (adoptResult tx commit.proposedBlock.signedTrans.transaction)
          commit.proposedBlock.epochNumber = .ok ()) :
      CommitExit C P cfg world s commit key (.ok ())
        { s.extended C cfg commit key token with
          pool := pool.settled P (s.rollbackTarget commit)
          pending := (s.pending.taken commit.txId commit key).released commit.txId
              (adoptResult tx commit.proposedBlock.signedTrans.transaction)
              commit.proposedBlock.currentHash
          committedTxs := booked world s.committedTxs
            commit.txId commit.proposedBlock }

/-! ## The pool and chain part -/

variable {rollback : Option Bytes}

section Parts

variable {commit : TransactionCommit} {E : CommitterError → CommitterState → Prop}

variable {Q : Unit → CommitterState → Prop}

/-- The pool after a revert does not depend on its verdict. -/
theorem ends_poolRevert {blockHash : Bytes}
    (hQ : Q () { s with pool := (s.pool.revertUpdate P blockHash).1 })
    (hE : ∀ e, E e { s with pool := (s.pool.revertUpdate P blockHash).1 }) :
    Ends (poolRevert P blockHash) s Q E := by
  refine ends_iff_exec.mpr ?_
  rw [exec_poolRevert]
  exact ⟨fun _ _ => hQ, fun e _ => hE e⟩

theorem ends_shieldedCommitApply_exact {Q : PoolApplyOutcome → CommitterState → Prop}
    (hr : ∀ e pool, s.pool.applyUpdate C P cfg.env commit.proposedBlock =
      (pool, .error e) → E e { s with pool := pool })
    (hu : ∀ e pool, s.pool.applyUpdate C P cfg.env commit.proposedBlock =
      (pool, .ok .applied) → world.savePool pool.stateSnapshot ≠ true →
      E e { s with
        pool := (pool.revertUpdate P commit.proposedBlock.currentHash).1 })
    (hp : ∀ outcome pool, Pooled C P cfg world s commit pool outcome →
      Q outcome { s with pool := pool }) :
    Ends (shieldedCommitApply C P cfg world commit) s Q E := by
  simp only [shieldedCommitApply, ends_bind]
  refine ends_poolApply (fun outcome pool ha => ?_) hr
  cases outcome with
  | alreadyApplied | plain => exact hp _ pool ⟨ha, fun h => by cases h⟩
  | applied =>
    simp only [ends_bind, ends_attempt, poolSave, ends_getState, ends_require]
    refine ⟨fun hs => hp _ pool ⟨ha, fun _ => hs⟩, fun hun => ?_⟩
    have hl := fun e => hu e pool ha hun
    exact ends_poolRevert (hl _) fun _ => hl _

theorem ends_shieldedCommitUndo_exact {outcome : PoolApplyOutcome}
    (hQ : Q () { s with
      pool := s.pool.undone P commit.proposedBlock.currentHash outcome })
    (hE : ∀ e, E e { s with
      pool := s.pool.undone P commit.proposedBlock.currentHash outcome }) :
    Ends (shieldedCommitUndo P world commit outcome) s Q E := by
  cases outcome with
  | alreadyApplied => exact hQ
  | plain => exact hQ
  | applied =>
    simp only [shieldedCommitUndo, ends_bind]
    exact ends_poolRevert (ends_poolSave hQ fun _ => hE) hE

theorem ends_settleLoser_exact (hQ : Settles P world s.pool rollback →
      Q () { s with pool := s.pool.settled P rollback })
    (hE : ¬ Settles P world s.pool rollback → ∀ e,
      E e { s with pool := s.pool.settled P rollback }) :
    Ends (settleLoser P world rollback) s Q E := by
  cases rollback with
  | none => exact hQ fun loser h => by cases h
  | some loser =>
    simp only [settleLoser, revertLoser, ends_bind, ends_attempt]
    cases hr : s.pool.revertUpdate P loser with
    | mk pool verdict =>
      have hrun : (poolRevert P loser).exec s = (verdict, { s with pool := pool }) := by
        rw [exec_poolRevert, hr]
      simp only [Settles, some.injEq, forall_eq', settled, hr] at hQ hE
      have hs : (verdict = .ok () ∨ ∃ hash, verdict = .error (.poolRollback hash)) →
          Ends (poolSave world) { s with pool := pool } Q E := by
        intro hv
        simp only [poolSave, ends_bind, ends_getState, ends_require]
        exact ⟨fun hsv => hQ ⟨hv, hsv⟩, fun hu => hE (fun h => hu h.2) _⟩
      cases verdict with
      | ok _ => exact ends_of_ok hrun (hs (.inl rfl))
      | error e =>
        refine ends_of_error hrun ?_
        cases e with
        | poolRollback hash => exact hs (.inr ⟨hash, rfl⟩)
        | _ =>
          refine hE (fun h => ?_) _
          rcases h.1 with h | ⟨hash, h⟩
          · cases h
          · cases h

theorem ends_applyCommit_exact (hr : ∀ e pool, s.pool.applyUpdate C P cfg.env commit.proposedBlock =
      (pool, .error e) → E e { s with pool := pool })
    (hus : ∀ e pool, s.pool.applyUpdate C P cfg.env commit.proposedBlock =
      (pool, .ok .applied) → world.savePool pool.stateSnapshot ≠ true →
      E e { s with
        pool := (pool.revertUpdate P commit.proposedBlock.currentHash).1 })
    (hun : ∀ e pool outcome t, Pooled C P cfg world s commit pool outcome →
      ¬ (commit.envId = cfg.environmentId ∧
        ∃ token, Lands C cfg world s.tokens commit rollback token) →
      Warmed world s.tokens t → AgreeOff commit.tokenId s.tokens t →
      E e { s with
        tokens := t
        pool := pool.undone P commit.proposedBlock.currentHash outcome })
    (ha : ∀ pool outcome token, Pooled C P cfg world s commit pool outcome →
      commit.envId = cfg.environmentId → Lands C cfg world s.tokens commit rollback token →
      let token' := (token.commitBlock C cfg.validators commit.proposedBlock
        rollback).1
      let after := { s with
        tokens := s.tokens.insert commit.tokenId token'
        log := landedLog C commit rollback token s.log }
      (world.saveToken commit.tokenId token' ≠ true → ∀ e, E e { after with
        pool := pool.undone P commit.proposedBlock.currentHash outcome }) ∧
      (world.saveToken commit.tokenId token' = true →
        (¬ Settles P world pool rollback → ∀ e,
          E e { after with pool := pool.settled P rollback }) ∧
        (Settles P world pool rollback →
          Q () { after with pool := pool.settled P rollback }))) :
    Ends (applyCommit C P cfg world commit rollback) s Q E := by
  simp only [applyCommit, ends_bind, ends_attempt]
  refine ends_shieldedCommitApply_exact hr hus fun outcome pool hp => ?_
  refine ends_commitBlock (fun token token' t henv hl ht hc ho => ?_)
    (fun e t hnot hw ho => ?_)
  · obtain rfl := ho.eq_insert hc
    subst ht
    obtain ⟨hu, hsv⟩ := ha pool outcome token hp henv hl
    refine ⟨fun hs => ?_, fun hs e => ?_⟩
    · exact ends_settleLoser_exact (hsv hs).2 (hsv hs).1
    · simp only [ends_fail]
      exact ends_shieldedCommitUndo_exact (hu hs e) (hu hs)
  · have hf := fun e => hun e pool outcome t hp hnot hw ho
    simp only [ends_fail]
    exact ends_shieldedCommitUndo_exact (hf e) hf

end Parts

/-! ## The whole call -/

variable (C P cfg world s) in
/-- Every call of `check_and_commit_transaction_results` leaves by one of the ways
out. -/
theorem commitExit (commit : TransactionCommit) (key : Bytes) :
    CommitExit C P cfg world s commit key
      ((checkAndCommitTransactionResults C P cfg world commit key).exec s).1
      ((checkAndCommitTransactionResults C P cfg world commit key).exec s).2 := by
  refine ends_verdict.mp ?_
  simp only [checkAndCommitTransactionResults, ends_bind]
  refine ends_duplicateGate (fun hu => ?_) (fun hb e => .duplicate hb)
  refine ends_takeTransaction (fun tx hh => ?_) (fun e hn => .untaken hu hn)
  simp only [ends_getState, ends_lift]
  refine ⟨fun _ hpy => ?_, fun e hpy => .mismatched hu hh ?_⟩
  · have hr : CommitReady C s commit := ⟨hu, tx, hh, hpy⟩
    refine ends_handleConflictAtCommit (fun outcome hout hbt => ?_) (fun c hls => .discarded hr hls)
    have hf : Uncontested C s commit key := ⟨hr, hbt⟩
    rw [hout]
    refine ends_applyCommit_exact (fun e pool hrf => .unpooled hf hrf)
      (fun e pool hap hun => .unstored hf hap hun)
      (fun e pool outcome t hp hnot hw ho => ?_)
      (fun pool outcome token hp henv hl => ?_)
    · refine .unlanded hf ⟨hp.applied, hp.saved⟩ ?_ hw ho
      exact fun token ha => hnot ⟨ha.env, token, ha.lands⟩
    · have hp : Pooled C P cfg world s commit pool outcome :=
        ⟨hp.applied, hp.saved⟩
      have ha : Appends C cfg world s commit token := ⟨henv, hl⟩
      refine ⟨fun hun e => .unsaved hf hp ha hun, fun hsv => ⟨fun hus e => ?_, fun hs => ?_⟩⟩
      · exact .unsettled hf hp ha hsv hus
      · -- the gas and the deltas come last
        simp only [finishCommit, ends_bind]
        refine ends_debitGas (fun hdb => ?_) (fun hud e => ?_)
        · rw [ends_lift]
          refine ⟨fun _ hd => ?_, fun e hd => ?_⟩
          · refine ends_releaseEntry (mem_taken _ _ _ _) ?_
            exact .finished hf hp ha hsv hs hh ⟨hdb, hd⟩
          · refine .unfinished hf hp ha hsv hs hh fun h => ?_
            cases hd.symm.trans h.2
        · exact .unfinished hf hp ha hsv hs hh fun h => hud h.1
  · intro hok
    cases hpy.symm.trans hok

/-! ## What a Commit leaves -/

def TransactionCommit.landing (C : Codec) (commit : TransactionCommit) : ChainEvent :=
  .appended ⟨commit.tokenId, Token.hashed C commit.proposedBlock, .commit⟩

section Leaves

variable {commit : TransactionCommit} {key : Bytes}
  {verdict : Except CommitterError Unit} {s' : CommitterState}

theorem landing_mem_landedLog (rollback : Option Bytes) (token : Token) (log : List ChainEvent) :
    commit.landing C ∈ landedLog C commit rollback token log := by
  unfold landedLog logCommit
  split
  · exact List.mem_append_right _ List.mem_cons_self
  · exact List.mem_append_right _ (List.mem_cons_of_mem _ List.mem_cons_self)

theorem mem_landedLog_of_mem {token : Token}
    {log : List ChainEvent} {event : ChainEvent} (h : event ∈ log) :
    event ∈ landedLog C commit rollback token log := by
  unfold landedLog logCommit
  split <;> exact List.mem_append_left _ h

theorem CommitExit.orphans_eq (h : CommitExit C P cfg world s commit key verdict s') :
    s'.orphans = s.orphans := by
  cases h with
  | duplicate | untaken | mismatched | discarded | unpooled | unstored | unlanded
    | unsaved | unsettled | unfinished | finished => rfl

theorem CommitExit.mem_log (h : CommitExit C P cfg world s commit key verdict s')
    {event : ChainEvent} (he : event ∈ s.log) : event ∈ s'.log := by
  cases h with
  | duplicate | untaken | mismatched | discarded | unpooled | unstored | unlanded =>
    exact he
  | unsaved | unsettled | unfinished | finished => exact mem_landedLog_of_mem he

variable {txId : String} {entry : PendingTransaction} {hash : Bytes} {tx : Transaction}
  {after : ShieldedPool} {block : Block} {outcome : PoolApplyOutcome}

/-- What is booked afterwards was booked before, or is the block that landed. -/
theorem CommitExit.booked_cases (h : CommitExit C P cfg world s commit key verdict s')
    {booking : Nat × Bytes} (hb : s'.committedTxs.lookup txId = some booking) :
    s.committedTxs.lookup txId = some booking ∨ (commit.txId = txId ∧
        booking.2 = commit.proposedBlock.currentHash ∧ commit.landing C ∈ s'.log) := by
  cases h with
  | duplicate | untaken | mismatched | discarded | unpooled | unstored | unlanded
    | unsaved | unsettled | unfinished => exact .inl hb
  | finished =>
    have hi : (s.committedTxs.insert commit.txId
        (commit.proposedBlock.epochNumber,
          commit.proposedBlock.currentHash)).lookup txId = some booking := by
      unfold booked at hb
      dsimp only at hb
      split at hb
      · have hk := Multiset.mem_filter.mp (mem_lookup_iff.mp hb)
        exact mem_lookup_iff.mpr hk.1
      · exact hb
    rcases lookup_insert_cases hi with ⟨hid, rfl⟩ | hold
    · exact .inr ⟨hid, rfl, landing_mem_landedLog _ _ _⟩
    · exact .inl hold

theorem committed_of_taken {pending : PendingRegistry} {id : String}
    (h : (pending.taken txId commit key).lookup id = some entry)
    (hs : entry.state = .committed tx hash) :
    ∃ b, pending.lookup id = some b ∧ b.state = .committed tx hash := by
  unfold taken at h
  split at h
  · rcases lookup_insert_cases h with ⟨-, rfl⟩ | hold
    · cases hs
    · exact ⟨entry, hold, hs⟩
  · next held hh =>
    split at h
    · exact ⟨entry, h, hs⟩
    · next l hl =>
      rcases lookup_insert_cases h with ⟨rfl, rfl⟩ | hold
      · refine ⟨held, hh, ?_⟩
        unfold PendingTransaction.acquire at hl
        split at hl
        · cases hl
        · cases hl
        · obtain rfl := some.inj hl
          exact hs
      · exact ⟨entry, hold, hs⟩

theorem committed_of_released {pending : PendingRegistry} {id : String}
    {tx' : Transaction} {hash' : Bytes}
    (h : (pending.released txId tx' hash').lookup id = some entry)
    (hs : entry.state = .committed tx hash) :
    pending.lookup id = some entry ∨ (txId = id ∧ hash' = hash) := by
  unfold released at h
  split at h
  · exact .inl h
  · split at h
    · by_cases hid : id = txId
      · rw [hid, lookup_erase] at h
        cases h
      · rw [lookup_erase_ne hid] at h
        exact .inl h
    · rcases lookup_insert_cases h with ⟨hid, rfl⟩ | hold
      · cases hs
        exact .inr ⟨hid, rfl⟩
      · exact .inl hold

/-- An entry that is `Committed` afterwards was so before, or names the block that
landed. -/
theorem CommitExit.committed_cases (h : CommitExit C P cfg world s commit key verdict s')
    (he : s'.pending.lookup txId = some entry) (hs : entry.state = .committed tx hash) :
    (∃ b, s.pending.lookup txId = some b ∧ b.state = .committed tx hash) ∨
      (commit.txId = txId ∧
        hash = commit.proposedBlock.currentHash ∧ commit.landing C ∈ s'.log) := by
  cases h with
  | duplicate => exact .inl ⟨entry, he, hs⟩
  | untaken | mismatched | discarded | unpooled | unstored | unlanded | unsaved
    | unsettled | unfinished => exact .inl (committed_of_taken he hs)
  | finished =>
    rcases committed_of_released he hs with hold | ⟨hid, hh⟩
    · exact .inl (committed_of_taken hold hs)
    · exact .inr ⟨hid, hh.symm, landing_mem_landedLog _ _ _⟩

theorem UniqueInv.taken_of_ok {pool : ShieldedPool} {env : EnvironmentMetadata}
    (h : UniqueInv P pool) (hkey : blockKey C block = block.currentHash)
    (ha : pool.applyUpdate C P env block = (after, .ok outcome)) :
    Taken P block outcome pool after := by
  rcases h.applyUpdate env hkey with ⟨pool', outcome', heq, ht⟩ | ⟨e, heq⟩
  · cases heq.symm.trans ha
    exact ht
  · cases heq.symm.trans ha

theorem Taken.undone {before : ShieldedPool} (hb : UniqueInv P before)
    (h : Taken P block outcome before after) :
    SameHashes P before (after.undone P block.currentHash outcome) := by
  unfold ShieldedPool.undone
  split
  · next ha =>
    subst ha
    obtain ⟨pool, hr, hs⟩ := h.revert
    rw [hr]
    exact hs
  · next hne =>
    rw [h.same hne]
    exact hb.refl

theorem Taken.settled_of {before : ShieldedPool} (h : Taken P block outcome before after)
    (rollback : Option Bytes) : Settled P block rollback before (after.settled P rollback) := by
  cases rollback with
  | none => exact h.settled
  | some loser =>
    show Settled P block (some loser) before (after.revertUpdate P loser).1
    rcases h.unique.revertUpdate loser with ⟨pool, hr, hu, hmem⟩ | ⟨hr, hnot⟩
    · rw [hr]
      exact h.settled_some hu hmem
    · rw [hr]
      refine h.settled_some h.unique fun hash => ?_
      exact ⟨fun hin => ⟨hin, fun heq => hnot (heq ▸ hin)⟩, And.left⟩

/-- Nothing is appended and the pool has the hashes it had; or the block is in the log,
and the pool has the hashes it had if the token was not saved, and is settled if it
was. -/
theorem CommitExit.landing_cases (h : CommitExit C P cfg world s commit key verdict s')
    (hu : UniqueInv P s.pool) (hkey : blockKey C commit.proposedBlock =
      commit.proposedBlock.currentHash) : (SameHashes P s.pool s'.pool ∧ s'.log = s.log) ∨
      ∃ token, s.committedTxs.lookup commit.txId = none ∧
        Lands C cfg world s.tokens commit (s.rollbackTarget commit) token ∧
        s'.log = landedLog C commit (s.rollbackTarget commit) token s.log ∧
        ((SameHashes P s.pool s'.pool ∧ ∃ token', world.saveToken commit.tokenId token' ≠ true) ∨
          Settled P commit.proposedBlock (s.rollbackTarget commit) s.pool s'.pool) := by
  have ht : ∀ {pool : ShieldedPool} {outcome : PoolApplyOutcome},
      s.pool.applyUpdate C P cfg.env commit.proposedBlock = (pool, .ok outcome) →
      Taken P commit.proposedBlock outcome s.pool pool := hu.taken_of_ok hkey
  cases h with
  | duplicate | untaken | mismatched | discarded => exact .inl ⟨hu.refl, rfl⟩
  | unpooled hf hr =>
    left
    rcases hu.applyUpdate cfg.env hkey with ⟨pool', outcome', heq, -⟩ | ⟨e', heq⟩
    · cases heq.symm.trans hr
    · cases heq.symm.trans hr
      exact ⟨hu.refl, rfl⟩
  | unstored hf hap => exact .inl ⟨(ht hap).undone hu, rfl⟩
  | unlanded hf hp => exact .inl ⟨(ht hp.applied).undone hu, rfl⟩
  | unsaved hf hp ha hun =>
    exact .inr ⟨_, hf.ready.unbooked, ha.lands, rfl, .inl ⟨(ht hp.applied).undone hu, _, hun⟩⟩
  | unsettled hf hp ha | unfinished hf hp ha
  | finished hf hp ha =>
    exact .inr ⟨_, hf.ready.unbooked, ha.lands, rfl, .inr ((ht hp.applied).settled_of _)⟩

/-- The pool has the hashes it had, or is settled and the block has landed. -/
theorem CommitExit.pool_cases (h : CommitExit C P cfg world s commit key verdict s')
    (hu : UniqueInv P s.pool) (hkey : blockKey C commit.proposedBlock =
      commit.proposedBlock.currentHash) : SameHashes P s.pool s'.pool ∨
      (Settled P commit.proposedBlock (s.rollbackTarget commit) s.pool s'.pool ∧
        commit.landing C ∈ s'.log) := by
  rcases h.landing_cases hu hkey with
    ⟨hs, -⟩ | ⟨token, -, -, hlog, ⟨hs, -⟩ | hst⟩
  · exact .inl hs
  · exact .inl hs
  · refine .inr ⟨hst, ?_⟩
    rw [hlog]
    exact landing_mem_landedLog _ _ _

end Leaves

/-! ## A Commit message -/

/-- A Commit that passes the gates of `handle_commit`. -/
structure CommitChecked (C : Codec) (cfg : CommitterConfig) (world : CommitterWorld)
    (s : CommitterState) (message : Message) (commit : TransactionCommit) :
    Prop where
  sender : authenticateSender C world message = .ok ()
  decoded : C.decodeTransactionCommit message.body = some commit
  valid : validateTransactionMessage cfg commit = .ok ()
  authority : commitAuthority C world s.pending commit message.publicKey = .ok ()

theorem CommitChecked.admitted {message : Message} {commit : TransactionCommit}
    (h : CommitChecked C cfg world s message commit)
    (hu : s.committedTxs.lookup commit.txId = none) :
    CommitAdmitted C cfg world s message commit :=
  ⟨h.sender, h.decoded, h.valid, h.authority, hu⟩

/-- A Commit message is turned away at a gate, or its Commit leaves by one of the
ways out. -/
inductive CommitMessageExit (C : Codec) (P : ShieldedPrimitives)
    (cfg : CommitterConfig) (world : CommitterWorld) (s : CommitterState)
    (message : Message) : Except CommitterError Unit → CommitterState → Prop
  | refused {e : CommitterError} (hnot : ∀ commit, ¬ CommitChecked C cfg world s message commit) :
      CommitMessageExit C P cfg world s message (.error e) s
  | handled {commit : TransactionCommit} {verdict : Except CommitterError Unit}
      {s' : CommitterState} (hchecked : CommitChecked C cfg world s message commit)
      (hexit : CommitExit C P cfg world s commit message.publicKey verdict s') :
      CommitMessageExit C P cfg world s message verdict s'

variable (C P cfg world s) in
theorem commitMessageExit (message : Message) : CommitMessageExit C P cfg world s message
      ((handleMessage C P cfg world .commit message).exec s).1
      ((handleMessage C P cfg world .commit message).exec s).2 := by
  refine ends_verdict.mp ?_
  simp only [handleMessage, handleCommit, ends_bind, ends_ofOption, ends_lift, ends_getState]
  refine ⟨fun _ hs => ⟨fun commit hd => ⟨fun _ hv =>
    ⟨fun _ ha => ?_, fun e hf => ?_⟩, fun e hf => ?_⟩,
    fun hf => ?_⟩, fun e hf => ?_⟩
  · have hc : CommitChecked C cfg world s message commit :=
      ⟨hs, hd, hv, ha⟩
    refine (ends_verdict.mpr (commitExit C P cfg world s commit message.publicKey)).mono
      (fun _ _ he => .handled hc he)
      (fun _ _ he => .handled hc he)
  · refine .refused fun commit' h => ?_
    obtain rfl := mem_unique hd h.decoded
    cases hf.symm.trans h.authority
  · refine .refused fun commit' h => ?_
    obtain rfl := mem_unique hd h.decoded
    cases hf.symm.trans h.valid
  · exact .refused fun commit h => by cases hf.symm.trans h.decoded
  · exact .refused fun commit h => by cases hf.symm.trans h.sender

end Pneumatic
