import Pneumatic.Committer.Records
import Pneumatic.Proofs.GossipOutcome

/-!
# What a Commit leaves in the records

`RecordedExit` lists where `check_and_commit_transaction_results` ends once more, now
with the records and with every call of the data provider able to fail on its own.
The pool is taken to be well formed, as every pool is, and then an undo gives back
exactly the pool there was: a Commit that does not get to the chain leaves the pool,
and of the records at most the pool's. One that gets there and fails afterwards
leaves its block on the chain.

A gossiped block writes no token and no user to the records, so where the pool can be
saved the handler on the node simulates the one above that only asks, and the ways out
are those of `GossipExit`.
-/

namespace Pneumatic

open Handler HandlerM ShieldedPool Finmap CommitterNode Records Except

variable {C : Codec} {K : ContractCodec} {P : ShieldedPrimitives} {cfg : RecordsConfig}
  {around : Surroundings} {faults : Faults} {n : CommitterNode}
  {commit : TransactionCommit} {key : Bytes}

/-- What the provider answers now. -/
abbrev CommitterNode.world (C : Codec) (K : ContractCodec) (cfg : RecordsConfig)
    (around : Surroundings) (faults : Faults) (n : CommitterNode) : CommitterWorld :=
  n.records.answers C K cfg around faults

/-! ## Records on the way -/

variable {tx : Transaction} {epochNumber : Nat}

namespace Records

def pooled (cfg : RecordsConfig) (records : Records) (pool : ShieldedPool)
    (outcome : PoolApplyOutcome) : Records :=
  if outcome = .applied then records.withPool cfg pool else records

def undone (cfg : RecordsConfig) (faults : Faults) (records : Records)
    (pool : ShieldedPool) (outcome : PoolApplyOutcome) : Records :=
  if outcome = .applied ∧ faults.savePoolUndone = false then records.withPool cfg pool
  else records

def charged (cfg : RecordsConfig) (records : Records)
    (gas : GasMap) (txId : String) (sender : Bytes) : Records :=
  match gas.lookup txId, records.users.lookup (cfg.tokenPartitionId, sender) with
  | some gasUsed, some user => records.debited cfg sender user gasUsed
  | _, _ => records

section

variable (outcome : PoolApplyOutcome)

include outcome

section

variable (pool : ShieldedPool)

include pool

@[simp]
theorem pooled_tokens (records : Records) :
    (records.pooled cfg pool outcome).tokens = records.tokens := by
  unfold pooled
  split <;> rfl

@[simp]
theorem pooled_users (records : Records) :
    (records.pooled cfg pool outcome).users = records.users := by
  unfold pooled
  split <;> rfl

@[simp]
theorem undone_tokens (records : Records) :
    (records.undone cfg faults pool outcome).tokens = records.tokens := by
  unfold undone
  split <;> rfl

@[simp]
theorem undone_users (records : Records) :
    (records.undone cfg faults pool outcome).users = records.users := by
  unfold undone
  split <;> rfl

end

end

@[simp]
theorem charged_tokens (records : Records) (gas : GasMap)
    (txId : String) (sender : Bytes) :
    (records.charged cfg gas txId sender).tokens = records.tokens := by
  unfold charged
  split <;> rfl

section Deltas

variable {records records' : Records}

theorem charged_users (h : records.users = records'.users)
    (gas : GasMap) (txId : String) (sender : Bytes) :
    (records.charged cfg gas txId sender).users = (records'.charged cfg gas txId sender).users := by
  unfold charged
  rw [h]
  split
  · rw [debited, debited, h]
  · exact h

section

variable (h : records.tokens = records'.tokens)

include h

/-- The deltas read and write tokens only. -/
theorem saveContract_eq (tokenId : Bytes) (token : Token) :
    records.saveContract cfg faults tokenId token =
      (records'.saveContract cfg faults tokenId token).map fun w =>
        { records with tokens := w.tokens } := by
  unfold saveContract
  split
  · rfl
  · rw [h]
    rfl

theorem getContract_eq (tokenId : Bytes) :
    records.getContract cfg faults tokenId = records'.getContract cfg faults tokenId := by
  rw [getContract, getContract, h]

theorem ok_eq : (.ok records : Except CommitterError Records) = (ok records').map fun w =>
        { records with tokens := w.tokens } := by
  show ok records = ok { records with tokens := records'.tokens }
  rw [← h]

theorem applyDeployDelta_eq (tx : Transaction) : records.applyDeployDelta C K cfg faults tx =
      (records'.applyDeployDelta C K cfg faults tx).map fun w =>
        { records with tokens := w.tokens } := by
  unfold applyDeployDelta
  simp only [getContract_eq h]
  split
  · rfl
  · split
    · rfl
    · split
      · rfl
      · split
        · exact ok_eq h
        · exact saveContract_eq h _ _

theorem applyStorageDelta_eq (tx : Transaction) : records.applyStorageDelta C K cfg faults tx =
      (records'.applyStorageDelta C K cfg faults tx).map fun w =>
        { records with tokens := w.tokens } := by
  unfold applyStorageDelta
  rw [getContract_eq h]
  split
  · exact ok_eq h
  · split
    · exact ok_eq h
    · split
      · exact ok_eq h
      · split
        · rfl
        · split
          · rfl
          · split
            · rfl
            · exact saveContract_eq h _ _

theorem applyUpgradeDelta_eq (tx : Transaction)
    (epochNumber : Nat) : records.applyUpgradeDelta C K cfg faults tx epochNumber =
      (records'.applyUpgradeDelta C K cfg faults tx epochNumber).map fun w =>
        { records with tokens := w.tokens } := by
  unfold applyUpgradeDelta
  rw [getContract_eq h]
  split
  · exact ok_eq h
  · split
    · rfl
    · dsimp only
      split
      · rfl
      · split
        · exact ok_eq h
        · split
          · exact ok_eq h
          · split
            · exact ok_eq h
            · exact saveContract_eq h _ _

theorem applyDeltas_eq (tx : Transaction)
    (epochNumber : Nat) : records.applyDeltas C K cfg faults tx epochNumber =
      (records'.applyDeltas C K cfg faults tx epochNumber).map fun w =>
        { records with tokens := w.tokens } := by
  unfold applyDeltas
  split
  · exact applyDeployDelta_eq h tx
  · split
    · exact applyStorageDelta_eq h tx
    · split
      · exact applyUpgradeDelta_eq h tx epochNumber
      · exact ok_eq h

theorem applyDeltas_ok {written : Records}
    (hok : records'.applyDeltas C K cfg faults tx epochNumber = .ok written) :
    records.applyDeltas C K cfg faults tx epochNumber =
      .ok { records with tokens := written.tokens } := by
  rw [applyDeltas_eq h, hok]
  rfl

end

theorem applyDeltas_users {written : Records}
    (hok : records.applyDeltas C K cfg faults tx epochNumber = .ok written) :
    written.users = records.users := by
  rw [ok.inj (hok.symm.trans (applyDeltas_ok rfl hok))]

end Deltas

end Records

/-! ## What the answers depend on -/

variable {rollback : Option Bytes} {txId : String}

section Answers

variable {records records' : Records} {tokens tokens' : TokenMap}

section

variable (h : records.tokens = records'.tokens)

include h

theorem cachedToken_answers (tokenId : Bytes) :
    cachedToken (records.answers C K cfg around faults) tokens tokenId =
      cachedToken (records'.answers C K cfg around faults) tokens tokenId := by
  simp only [cachedToken, answers, h]

theorem Lands.of_tokens_eq {token : Token}
    (hl : Lands C cfg (records.answers C K cfg around faults)
      tokens commit rollback token) :
    Lands C cfg (records'.answers C K cfg around faults) tokens commit rollback token :=
  ⟨(cachedToken_answers h _).symm.trans hl.cached, hl.accepted⟩

theorem Warmed.of_tokens_eq (hw : Warmed (records.answers C K cfg around faults) tokens tokens') :
    Warmed (records'.answers C K cfg around faults) tokens tokens' :=
  ⟨hw.kept, fun ti token hl =>
    (cachedToken_answers h _).symm.trans (hw.only ti token hl)⟩

end

theorem GasDebited.of_users_eq {gas : GasMap}
    {sender : Bytes} (h : records.users = records'.users)
    (hp : GasDebited (records.answers C K cfg around faults) gas txId sender) :
    GasDebited (records'.answers C K cfg around faults) gas txId sender := by
  simpa only [GasDebited, answers, h] using hp

end Answers

/-! ## The ways out -/

/-- What follows the append goes through: the token is saved, the pool after a
rollback too, the gas is debited and the contract delta applied. -/
structure Finishes (C : Codec) (K : ContractCodec) (cfg : RecordsConfig)
    (around : Surroundings) (faults : Faults) (n : CommitterNode)
    (commit : TransactionCommit) (token : Token) (tx : Transaction)
    (written : Records) : Prop where
  saved : faults.saveToken = false
  settled : n.base.rollbackTarget commit = none ∨ faults.savePoolSettled = false
  paid : GasDebited (n.world C K cfg around faults) n.base.gas
    commit.txId tx.sender
  deltas : (n.records.withToken cfg commit.tokenId
      (token.commitBlock C cfg.validators commit.proposedBlock
        (n.base.rollbackTarget commit)).1).applyDeltas C K cfg faults
    (adoptResult tx commit.proposedBlock.signedTrans.transaction)
    commit.proposedBlock.epochNumber = .ok written

/-- The ways out, with the verdict and the node. -/
inductive RecordedExit (C : Codec) (K : ContractCodec) (P : ShieldedPrimitives)
    (cfg : RecordsConfig) (around : Surroundings) (faults : Faults) (n : CommitterNode)
    (commit : TransactionCommit) (key : Bytes) :
    Except CommitterError Unit → CommitterNode → Prop
  | duplicate {e : CommitterError}
      (hbooked : n.base.committedTxs.lookup commit.txId ≠ none) :
      RecordedExit C K P cfg around faults n commit key (.error e) n
  | unready {e : CommitterError}
      (hunbooked : n.base.committedTxs.lookup commit.txId = none)
      (hnot : ¬ CommitReady C n.base commit) :
      RecordedExit C K P cfg around faults n commit key (.error e)
        { n with base := n.base.taken commit key }
  | discarded {candidate : Block × Bytes} (hready : CommitReady C n.base commit)
      (hlost : n.base.unbeaten commit key = some candidate) :
      RecordedExit C K P cfg around faults n commit key (.error .loserDiscarded)
        { n with
          base := { n.base.taken commit key with
            candidates := n.base.candidates.erase commit.position
            stakes := stakesAfter cfg n.base.stakes
              (resolveBlockConflict commit.proposedBlock.currentHash
                candidate.1.currentHash key candidate.2 n.base.stakes) } }
  | unpooled {e : CommitterError} (hfree : Uncontested C n.base commit key)
      (hnot : ∀ pool outcome, ¬ Pooled C P cfg
        (n.world C K cfg around faults) n.base commit pool outcome) :
      RecordedExit C K P cfg around faults n commit key (.error e)
        { n with base := n.base.contested commit key }
  | unlanded {e : CommitterError} {pool : ShieldedPool} {outcome : PoolApplyOutcome}
      {tokens : TokenMap}
      (hfree : Uncontested C n.base commit key)
      (hpooled : Pooled C P cfg (n.world C K cfg around faults) n.base commit pool outcome)
      (hnot : ∀ token, ¬ Appends C cfg
        (n.world C K cfg around faults) n.base commit token)
      (hwarmed : Warmed (n.world C K cfg around faults) n.base.tokens tokens) :
      RecordedExit C K P cfg around faults n commit key (.error e)
        { base := { n.base.contested commit key with tokens := tokens }
          records := (n.records.pooled cfg pool outcome).undone cfg faults n.base.pool
            outcome }
  | unfinished {e : CommitterError} {pool : ShieldedPool} {outcome : PoolApplyOutcome}
      {token : Token} {n' : CommitterNode}
      (hfree : Uncontested C n.base commit key)
      (hpooled : Pooled C P cfg (n.world C K cfg around faults) n.base commit pool outcome)
      (happends : Appends C cfg (n.world C K cfg around faults) n.base commit token)
      (hnot : ∀ tx written, HeldFor n.base.pending commit.txId
        commit tx → ¬ Finishes C K cfg around faults n commit token tx written)
      (hchain : n'.base.tokens.lookup commit.tokenId =
        some (token.commitBlock C cfg.validators commit.proposedBlock
          (n.base.rollbackTarget commit)).1) :
      RecordedExit C K P cfg around faults n commit key (.error e) n'
  | finished {pool : ShieldedPool} {outcome : PoolApplyOutcome} {token : Token}
      {tx : Transaction} {written records : Records}
      (hfree : Uncontested C n.base commit key)
      (hpooled : Pooled C P cfg (n.world C K cfg around faults) n.base commit pool outcome)
      (happends : Appends C cfg (n.world C K cfg around faults) n.base commit token)
      (hheld : HeldFor n.base.pending commit.txId commit tx)
      (hfinishes : Finishes C K cfg around faults n commit token tx written)
      (htokens : records.tokens = written.tokens)
      (husers : records.users = (n.records.charged cfg n.base.gas
        commit.txId tx.sender).users) :
      RecordedExit C K P cfg around faults n commit key (.ok ())
        { base := { n.base.extended C cfg commit key token with
            pool := pool.settled P (n.base.rollbackTarget commit)
            pending := (n.base.pending.taken commit.txId commit key).released commit.txId
                (adoptResult tx commit.proposedBlock.signedTrans.transaction)
                commit.proposedBlock.currentHash
            committedTxs := booked (n.world C K cfg around faults)
              n.base.committedTxs commit.txId
              commit.proposedBlock }
          records := records }

/-! ## Parts -/

namespace CommitterNode

section Parts

variable {α : Type} {Q : α → CommitterNode → Prop} {E : CommitterError → CommitterNode → Prop}

@[simp]
theorem ends_onBase {m : CommitterM α} :
    Ends (onBase m) n Q E ↔ Ends m n.base (fun a s => Q a { n with base := s })
      (fun e s => E e { n with base := s }) :=
  ends_zoom

@[simp]
theorem ends_onRecords {m : CommitterWorld → CommitterM α} :
    Ends (onRecords C K cfg around faults m) n Q E ↔ Ends (m (n.world C K cfg around faults)) n.base
        (fun a s => Q a { n with base := s }) (fun e s => E e { n with base := s }) := by
  unfold onRecords
  rw [ends_bind, ends_getState, ends_onBase]

variable {Q : Unit → CommitterNode → Prop}

theorem ends_poolSave {fails : Bool} (hQ : fails = false →
      Q () { n with records := n.records.withPool cfg n.base.pool })
    (hE : fails = true → E .poolPersist n) : Ends (poolSave cfg fails) n Q E := by
  simp only [poolSave, ends_bind, ends_require, ends_update]
  exact ⟨hQ, fun hf => hE (Bool.eq_true_of_not_eq_false hf)⟩

/-- A block that claims its key, on a well-formed pool: the delta is in and saved, or
nothing has changed. -/
theorem ends_shieldedCommitApply (hpl : PoolInv P n.base.pool)
    (hkey : blockKey C commit.proposedBlock = commit.proposedBlock.currentHash)
    {Q : PoolApplyOutcome → CommitterNode → Prop}
    (hQ : ∀ pool outcome, Pooled C P cfg
        (n.world C K cfg around faults) n.base commit pool outcome →
      Q outcome { base := { n.base with pool := pool }
                  records := n.records.pooled cfg pool outcome })
    (hE : (∀ pool outcome, ¬ Pooled C P cfg
      (n.world C K cfg around faults) n.base commit pool outcome) → ∀ e, E e n) :
    Ends (shieldedCommitApply C P cfg faults commit) n Q E := by
  simp only [shieldedCommitApply, ends_bind, ends_onBase]
  refine ends_poolApply (fun outcome pool ha => ?_) (fun e pool ha => ?_)
  · cases outcome with
    | alreadyApplied | plain => exact hQ pool _ ⟨ha, fun h => by cases h⟩
    | applied =>
      have hr := hpl.revert_applyUpdate ha
      rw [hkey] at hr
      have hun : (poolRevert P commit.proposedBlock.currentHash).exec
          { n.base with pool := pool } = (.ok (), n.base) := by
        rw [exec_poolRevert, hr]
      simp only [ends_bind, ends_attempt]
      refine ends_poolSave (fun hs => ?_) (fun hu => ?_)
      · refine hQ pool _ ⟨ha, fun _ => ?_⟩
        show (!faults.savePool) = true
        rw [hs]
        rfl
      · refine ends_onBase.mpr (ends_of_ok hun (hE (fun pool' outcome hp => ?_) _))
        obtain ⟨rfl, hout⟩ := Prod.mk.inj (ha.symm.trans hp.applied)
        have hs : (!faults.savePool) = true :=
          hp.saved (ok.inj hout).symm
        rw [hu] at hs
        cases hs
  · obtain rfl : n.base.pool = pool := by
      rcases applyUpdate_cases (C := C) (P := P) cfg.env n.base.pool
        commit.proposedBlock with ⟨stx, fs, -, heq⟩ | ⟨hsm, -⟩
      · cases heq.symm.trans ha
      · rw [ha] at hsm
        exact hsm.symm
    refine hE (fun pool' outcome hp => ?_) e
    cases ha.symm.trans hp.applied

theorem ends_shieldedCommitUndo {before : ShieldedPool} {outcome : PoolApplyOutcome}
    (hr : outcome = .applied →
      n.base.pool.revertUpdate P commit.proposedBlock.currentHash = (before, .ok ()))
    (hsm : outcome ≠ .applied → n.base.pool = before)
    (hQ : Q () { base := { n.base with pool := before }
                 records := n.records.undone cfg faults before outcome })
    (hE : ∀ e, E e { base := { n.base with pool := before }
                     records := n.records.undone cfg faults before outcome }) :
    Ends (shieldedCommitUndo P cfg faults commit outcome) n Q E := by
  cases outcome with
  | alreadyApplied | plain =>
    obtain rfl := hsm (by decide)
    exact hQ
  | applied =>
    have hun : (poolRevert P commit.proposedBlock.currentHash).exec n.base =
        (.ok (), { n.base with pool := before }) := by
      rw [exec_poolRevert, hr rfl]
    simp only [shieldedCommitUndo, ends_bind]
    refine ends_onBase.mpr (ends_of_ok hun (ends_poolSave (fun hs => ?_) (fun hu => ?_)))
    · rw [Records.undone, if_pos ⟨rfl, hs⟩] at hQ
      exact hQ
    · have hl := hE .poolPersist
      rw [Records.undone, if_neg fun h => by cases hu.symm.trans h.2] at hl
      exact hl

theorem ends_commitBlock (ha : ∀ token, commit.envId = cfg.environmentId →
      Lands C cfg (n.world C K cfg around faults) n.base.tokens commit rollback token →
      let token' := (token.commitBlock C cfg.validators commit.proposedBlock rollback).1
      let base := { n.base with
        tokens := n.base.tokens.insert commit.tokenId token'
        log := landedLog C commit rollback token n.base.log }
      (faults.saveToken = false →
        Q () { base := base, records := n.records.withToken cfg commit.tokenId token' }) ∧
      (faults.saveToken = true → ∀ e, E e { n with base := base }))
    (hE : ∀ e tokens, ¬ (commit.envId = cfg.environmentId ∧ ∃ token,
        Lands C cfg (n.world C K cfg around faults) n.base.tokens
          commit rollback token) → Warmed (n.world C K cfg around faults) n.base.tokens tokens →
      E e { n with base := { n.base with tokens := tokens } }) :
    Ends (commitBlock C K cfg around faults commit rollback) n Q E := by
  simp only [commitBlock, ends_bind, ends_onRecords, ends_update]
  refine Pneumatic.ends_commitBlock (fun token token' tokens henv hl ht hc ho => ?_)
    (fun e tokens hnot hw _ => hE e tokens hnot hw)
  obtain rfl := ho.eq_insert hc
  subst ht
  obtain ⟨hsv, hu⟩ := ha token henv hl
  refine ⟨fun hs => ?_, fun hs e => ?_⟩
  · have hfn : faults.saveToken = false := by simpa [answers] using hs
    have hd := hsv hfn
    simp only [lookup_insert]
    exact hd
  · have hf : faults.saveToken = true := by simpa [answers] using hs
    exact hu hf e

theorem ends_settleLoser (hp : PoolInv P n.base.pool)
    (hQ : rollback = none ∨ faults.savePoolSettled = false → ∀ records : Records,
      records.tokens = n.records.tokens → records.users = n.records.users →
      Q () { base := { n.base with pool := n.base.pool.settled P rollback }
             records := records })
    (hE : ¬ (rollback = none ∨ faults.savePoolSettled = false) → ∀ e pool,
      E e { n with base := { n.base with pool := pool } }) :
    Ends (settleLoser P cfg faults rollback) n Q E := by
  cases rollback with
  | none => exact hQ (.inl rfl) n.records rfl rfl
  | some loser =>
    simp only [settleLoser, revertLoser, ends_bind, ends_onBase, ends_attempt]
    have hs : Ends (poolSave cfg faults.savePoolSettled)
        { n with base := { n.base with pool := (n.base.pool.revertUpdate P loser).1 } }
        Q E := by
      refine ends_poolSave (fun hsv => hQ (.inr hsv) _ rfl rfl) (fun hu => ?_)
      refine hE (fun h => ?_) _ _
      rcases h with h | h
      · cases h
      · cases hu.symm.trans h
    have hrun := exec_poolRevert (P := P) (s := n.base) loser
    rcases revertUpdate_cases hp loser with ⟨i, d, r, -, heq⟩ | ⟨-, heq⟩
    · rw [heq] at hrun hs
      exact ends_of_ok hrun hs
    · rw [heq] at hrun hs
      exact ends_of_error hrun hs

theorem ends_applyCommit (hpl : PoolInv P n.base.pool)
    (hkey : blockKey C commit.proposedBlock = commit.proposedBlock.currentHash)
    (hup : (∀ pool outcome, ¬ Pooled C P cfg
      (n.world C K cfg around faults) n.base commit pool outcome) → ∀ e, E e n)
    (hul : ∀ e pool outcome tokens, Pooled C P cfg
        (n.world C K cfg around faults) n.base commit pool outcome →
      ¬ (commit.envId = cfg.environmentId ∧ ∃ token,
        Lands C cfg (n.world C K cfg around faults) n.base.tokens
          commit rollback token) → Warmed (n.world C K cfg around faults) n.base.tokens tokens →
      E e { base := { n.base with tokens := tokens }
            records := (n.records.pooled cfg pool outcome).undone cfg faults n.base.pool
              outcome })
    (ha : ∀ pool outcome token, Pooled C P cfg
        (n.world C K cfg around faults) n.base commit pool outcome →
      commit.envId = cfg.environmentId →
      Lands C cfg (n.world C K cfg around faults) n.base.tokens commit rollback token →
      let token' := (token.commitBlock C cfg.validators commit.proposedBlock rollback).1
      let after := faults.saveToken = false ∧
        (rollback = none ∨ faults.savePoolSettled = false)
      (¬ after → ∀ e n', n'.base.tokens.lookup commit.tokenId = some token' → E e n') ∧
      (after → ∀ records : Records,
        records.tokens = (n.records.withToken cfg commit.tokenId token').tokens →
        records.users = n.records.users →
        Q () { base := { n.base with
                 tokens := n.base.tokens.insert commit.tokenId token'
                 log := landedLog C commit rollback token n.base.log
                 pool := pool.settled P rollback }
               records := records })) :
    Ends (applyCommit C K P cfg around faults commit rollback) n Q E := by
  simp only [applyCommit, ends_bind, ends_attempt]
  refine ends_shieldedCommitApply hpl hkey (fun pool outcome hp => ?_) hup
  obtain ⟨hpl', hr, hsm⟩ := hpl.applyUpdate_ok hp.applied
  rw [hkey] at hr
  have ht : (n.records.pooled cfg pool outcome).tokens = n.records.tokens :=
    pooled_tokens _ _ _
  refine ends_commitBlock (fun token henv hln => ?_) (fun e tokens hnot hw => ?_)
  · obtain ⟨hu, hd⟩ :=
      ha pool outcome token hp henv (hln.of_tokens_eq ht)
    refine ⟨fun hsv => ?_, fun hus e => ?_⟩
    · refine ends_settleLoser hpl' (fun hs records hrc hur => ?_) (fun hun e _ => ?_)
      · refine hd ⟨hsv, hs⟩ records ?_ (hur.trans (pooled_users _ _ _))
        rw [hrc, withToken, withToken, ht]
      · exact hu (fun h => hun h.2) e _ (lookup_insert _)
    · have hl := fun e n' hc => hu (fun h => by cases hus.symm.trans h.1) e n' hc
      exact ends_shieldedCommitUndo hr hsm (ends_fail.mpr (hl e _ (lookup_insert _)))
        (fun e => hl e _ (lookup_insert _))
  · have hl := fun e => hul e pool outcome tokens hp
      (fun h => hnot ⟨h.1, h.2.imp fun _ hln => hln.of_tokens_eq ht.symm⟩)
      (hw.of_tokens_eq ht)
    exact ends_shieldedCommitUndo hr hsm (ends_fail.mpr (hl e)) hl

theorem ends_debitGas {sender : Bytes}
    (hQ : GasDebited (n.world C K cfg around faults) n.base.gas txId sender →
      Q () { n with records := n.records.charged cfg n.base.gas txId sender })
    (hE : ¬ GasDebited (n.world C K cfg around faults) n.base.gas txId sender → ∀ e, E e n) :
    Ends (debitGas cfg faults txId sender) n Q E := by
  simp only [debitGas, ends_bind, ends_getState]
  cases hgas : n.base.gas.lookup txId with
  | none =>
    have hd := hQ fun gu hs => by cases hgas.symm.trans hs
    rw [charged, hgas] at hd
    exact hd
  | some gu =>
    simp only [ends_bind, ends_ofOption, ends_require, ends_update]
    refine ⟨fun user hu => ?_, fun hn => ?_⟩
    · split at hu
      · cases hu
      · next hr =>
        refine ⟨fun hsv => ?_, fun hun => hE (fun hp => ?_) _⟩
        · have hp : GasDebited (n.world C K cfg around faults) n.base.gas txId sender := by
            intro gu' hs
            obtain rfl := Option.mem_unique hgas hs
            exact ⟨user.fuelBalance, by simp [answers, hr, hu],
              by simp [answers, hsv]⟩
          have hd := hQ hp
          simp only [charged, hgas, hu] at hd
          exact hd
        · obtain ⟨b, -, hsa⟩ := hp gu hgas
          exact hun (by simpa [answers] using hsa)
    · refine hE (fun hp => ?_) _
      obtain ⟨b, hget, -⟩ := hp gu hgas
      simp only [answers] at hget
      split at hget
      · cases hget
      · next hr =>
        rw [if_neg hr] at hn
        rw [hn] at hget
        cases hget

theorem ends_applyDeltas
    (hQ : ∀ w, n.records.applyDeltas C K cfg faults tx epochNumber = .ok w →
      Q () { n with records := w })
    (hE : ∀ e, n.records.applyDeltas C K cfg faults tx epochNumber = .error e → E e n) :
    Ends (applyDeltas C K cfg faults tx epochNumber) n Q E := by
  cases hd : n.records.applyDeltas C K cfg faults tx epochNumber with
  | error e =>
    have hrun : (applyDeltas C K cfg faults tx epochNumber).exec n = (.error e, n) := by
      simp only [applyDeltas, exec, hd]
    exact ends_of_error hrun (hE e hd)
  | ok w =>
    have hrun : (applyDeltas C K cfg faults tx epochNumber).exec n =
        (.ok (), { n with records := w }) := by
      simp only [applyDeltas, exec, hd]
    exact ends_of_ok hrun (hQ w hd)

theorem ends_finishCommit {block : Block} (hmem : txId ∈ n.base.pending)
    (hQ : ∀ w records : Records,
      GasDebited (n.world C K cfg around faults) n.base.gas txId tx.sender →
      n.records.applyDeltas C K cfg faults tx block.epochNumber = .ok w →
      records.tokens = w.tokens →
      records.users = (n.records.charged cfg n.base.gas txId tx.sender).users →
      Q () { base := { n.base with
               pending := n.base.pending.released txId tx block.currentHash
               committedTxs := booked (n.world C K cfg around faults)
                 n.base.committedTxs txId block }
             records := records })
    (hE : (∀ w, ¬ (GasDebited (n.world C K cfg around faults) n.base.gas txId tx.sender ∧
          n.records.applyDeltas C K cfg faults tx block.epochNumber = .ok w)) →
      ∀ e records, E e { n with records := records }) :
    Ends (finishCommit C K cfg around faults txId tx block) n Q E := by
  simp only [finishCommit, ends_bind]
  refine ends_debitGas (fun (hp : GasDebited (n.world C K cfg around faults) _ _ _) => ?_)
    (fun hu e => ?_)
  · -- the debit writes no token, so the deltas are those of the records before it
    have ht : (n.records.charged cfg n.base.gas txId tx.sender).tokens =
        n.records.tokens := charged_tokens _ _ _ _
    refine ends_applyDeltas (fun records hd => ?_) (fun e hd => ?_)
    · rw [ends_onBase]
      refine ends_releaseEntry hmem ?_
      rw [ends_onRecords]
      exact hQ _ records hp (applyDeltas_ok ht.symm hd) rfl (applyDeltas_users hd)
    · refine hE (fun w h => ?_) e _
      cases hd.symm.trans (applyDeltas_ok ht h.2)
  · exact hE (fun _ h => hu h.1) e n.records

end Parts

end CommitterNode

/-! ## The whole call -/

/-- Every call of `check_and_commit_transaction_results` leaves by one of the ways
out. -/
theorem recordedExit (hpl : PoolInv P n.base.pool)
    (hkey : blockKey C commit.proposedBlock = commit.proposedBlock.currentHash) (key : Bytes) :
    RecordedExit C K P cfg around faults n commit key
      ((CommitterNode.checkAndCommitTransactionResults C K P cfg around faults commit key).exec n).1
      ((CommitterNode.checkAndCommitTransactionResults C K P cfg around faults commit
        key).exec n).2 := by
  refine ends_verdict.mp ?_
  simp only [CommitterNode.checkAndCommitTransactionResults, ends_bind, CommitterNode.ends_onBase]
  refine ends_duplicateGate (fun hu => ?_) (fun hb e => .duplicate hb)
  refine ends_takeTransaction (fun tx hh => ?_) (fun e hn => ?_)
  · simp only [ends_getState, ends_lift]
    refine ⟨fun _ hpy => ?_, fun e hpy => .unready hu fun hr => ?_⟩
    · have hr : CommitReady C n.base commit := ⟨hu, tx, hh, hpy⟩
      refine ends_handleConflictAtCommit (fun outcome hout hbt => ?_)
        (fun c hls => .discarded hr hls)
      have hf : Uncontested C n.base commit key := ⟨hr, hbt⟩
      rw [hout]
      have hpl' : PoolInv P
        { n with base := n.base.contested commit key : CommitterNode }.base.pool := hpl
      refine ends_applyCommit hpl' hkey (fun hnot e => ?_)
        (fun e pool outcome tokens hp hnot hw => ?_)
        (fun pool outcome token hp henv hl => ?_)
      · exact .unpooled hf fun pool outcome hp =>
          hnot pool outcome ⟨hp.applied, hp.saved⟩
      · refine .unlanded hf ⟨hp.applied, hp.saved⟩ ?_ hw
        exact fun token ha => hnot ⟨ha.env, token, ha.lands⟩
      · have hp : Pooled C P cfg (n.world C K cfg around faults)
            n.base commit pool outcome := ⟨hp.applied, hp.saved⟩
        have ha : Appends C cfg (n.world C K cfg around faults)
            n.base commit token := ⟨henv, hl⟩
        refine ⟨fun hnot e n' hc => ?_, fun haf records ht hus => ?_⟩
        · exact .unfinished hf hp ha (fun tx w _ h => hnot ⟨h.saved, h.settled⟩) hc
        · refine ends_finishCommit (mem_taken _ _ _ _) (fun w records' hpd hd ht' hus' => ?_)
            (fun hnot e records' => ?_)
          · have hpd : GasDebited (n.world C K cfg around faults) n.base.gas
                commit.txId tx.sender := hpd.of_users_eq hus
            exact .finished hf hp ha hh ⟨haf.1, haf.2, hpd, applyDeltas_ok ht.symm hd⟩ ht'
              (hus'.trans (charged_users hus _ _ _))
          · refine .unfinished hf hp ha (fun tx' w hh' h => ?_) (lookup_insert _)
            obtain rfl := hh.unique hh'
            exact hnot _ ⟨h.paid.of_users_eq hus.symm, applyDeltas_ok ht h.deltas⟩
    · obtain ⟨-, tx', hh', hpy'⟩ := hr
      obtain rfl := hh.unique hh'
      cases hpy.symm.trans hpy'
  · refine .unready hu fun hr => ?_
    obtain ⟨-, tx, hh, -⟩ := hr
    exact hn tx hh

/-! ## Gossip -/

/-- The tokens and the users in the records are the same. -/
structure SameRecords (n n' : CommitterNode) : Prop where
  tokens : n'.records.tokens = n.records.tokens
  users : n'.records.users = n.records.users

theorem SameRecords.refl (n : CommitterNode) : SameRecords n n := ⟨rfl, rfl⟩

variable {n' : CommitterNode}

theorem SameRecords.trans {n n'' : CommitterNode} (h : SameRecords n n')
    (h' : SameRecords n' n'') : SameRecords n n'' :=
  ⟨h'.tokens.trans h.tokens, h'.users.trans h.users⟩

theorem SameRecords.world_eq (h : SameRecords n n') :
    n'.world C K cfg around faults = n.world C K cfg around faults := by
  have hmap : ∀ (r : Except CommitterError Records) (f : Records → Records),
      (r.map f).map (fun _ => ()) = r.map fun _ => () := by
    intro r f
    cases r with
    | error e => rfl
    | ok w => rfl
  simp only [answers, h.tokens, h.users, applyDeployDelta_eq h.tokens,
    applyStorageDelta_eq h.tokens, applyUpgradeDelta_eq h.tokens, hmap]

namespace CommitterNode

theorem simulates_onBase {α : Type} (m : CommitterM α) (n : CommitterNode) :
    Simulates base SameRecords (onBase m) m n :=
  .zoom (fun _ => rfl) fun _ => ⟨rfl, rfl⟩

theorem simulates_onRecords {α : Type} (m : CommitterWorld → CommitterM α) (h : SameRecords n n') :
    Simulates base SameRecords (onRecords C K cfg around faults m)
      (m (n.world C K cfg around faults)) n' := by
  rw [← h.world_eq]
  exact .getState (simulates_onBase _ n')

theorem simulates_poolSave {world : CommitterWorld}
    (hs : ∀ s, world.savePool s = true) (n : CommitterNode) :
    Simulates base SameRecords (poolSave cfg false) (Pneumatic.poolSave world) n := by
  have hrun : (Pneumatic.poolSave world).exec n.base = (.ok (), n.base) := by
    refine exec_of_ends ?_
    simp [Pneumatic.poolSave, hs]
  refine ⟨?_, ?_, ⟨rfl, rfl⟩⟩
  · rw [hrun]
    rfl
  · rw [hrun]
    rfl

theorem simulates_applyFinalized {world : CommitterWorld}
    (hf : ∀ hash, faults.savePoolFinalized hash = false)
    (hs : ∀ s, world.savePool s = true) (blocks : List Block) (n : CommitterNode) :
    Simulates base SameRecords (applyFinalized C P cfg faults blocks)
      (Pneumatic.applyFinalized C P cfg world blocks) n := by
  induction blocks generalizing n with
  | nil => exact .pure (.refl n) ()
  | cons block rest ih =>
    refine .bind .trans (simulates_onBase _ n) fun outcome n' _ => ?_
    cases outcome with
    | applied =>
      rw [hf]
      exact .bind .trans (simulates_poolSave hs n') fun _ n'' _ => ih n''
    | alreadyApplied => exact ih n'
    | plain => exact ih n'

/-- A gossiped block on a node whose provider works. -/
theorem simulates_gossip (message : Message) : Simulates base SameRecords
      (handleMessage C K P cfg around Faults.none .blockFinalized message)
      (Pneumatic.handleMessage C P cfg
        (n.world C K cfg around Faults.none) .blockFinalized message) n := by
  refine .getState (.bind .trans (.lift (.refl n) _) fun _ n₁ h₁ => ?_)
  refine .bind .trans (.ofOption (.refl n₁) _ _) fun block n₂ h₂ => ?_
  have h₂ := h₁.trans h₂
  refine .getState (.getState_part ?_)
  have hw : n₂.records.answers C K cfg around Faults.none =
      n.world C K cfg around Faults.none := h₂.world_eq
  refine .bind .trans (.lift (.refl n₂) _) fun _ n₃ h₃ => ?_
  have h₃ := h₂.trans h₃
  refine .bind .trans (simulates_onRecords _ h₃) fun token n₄ h₄ => ?_
  have h₄ := h₃.trans h₄
  refine .bind .trans (simulates_onBase _ n₄) fun outcome n₅ h₅ => ?_
  have h₅ := h₄.trans h₅
  cases outcome with
  | linkageMismatch => exact simulates_onRecords _ h₅
  | invalidHash => exact .fail (.refl n₅) _
  | appended =>
    refine .bind .trans (simulates_onRecords _ h₅) fun p n₆ _ => ?_
    exact simulates_applyFinalized (fun _ => rfl) (fun _ => rfl) _ n₆

end CommitterNode

/-! ## A concrete node

The concrete Committer, with the empty token in its records. -/

def sampleContracts : ContractCodec where
  rmpSmartContract _ := []
  rmpDeployId _ _ _ _ := []
  rmpCreateTokenDelta _ := []
  rmpReplaceAssetDelta _ := []
  decodeSmartContract _ := none
  decodeDeployParams _ := none
  decodeUpgradeParams _ := none
  decodeWasmResult _ := none

def sampleRecords : RecordsConfig :=
  { sampleCommitter with tokenPartitionId := "tokens" }

def sampleSurroundings : Surroundings where
  roles := obligingWorld.roles
  currentEpochNumber := 0
  now := 0

def bootNode : CommitterNode where
  base := bootState
  records :=
    { tokens := (∅ : Finmap fun _ : String × Bytes => Token).insert ("tokens", [7])
        emptyToken
      users := ∅
      pools := ∅ }

/-- The Commit of a transaction in a first block on the empty token. -/
def plainCommit (id : String) : TransactionCommit where
  transId := asBytes id
  tokenId := [7]
  envId := "env"
  proposedBlock := blockOn [] (signedCarrier (routedTransaction id) none)

end Pneumatic
