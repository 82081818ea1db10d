import Pneumatic.Proofs.RecordsOutcome

/-!
# What a failed Commit leaves behind

A Commit that fails undoes its delta in the pool when the block does not get on the
chain, and nothing else. The entry made from the wire block and the lock taken on it
stay, whatever fails after them; a failure behind the append leaves the block on the
chain. And where the entry is terminal already no lock is taken, yet one is released
when the Commit goes through.

So a call leaves no trace in three cases only: it is refused as a duplicate; it
meets a terminal entry and its block does not get on the chain; or it goes through,
and then a terminal entry had no locks.
-/

namespace Pneumatic

open Handler HandlerM ShieldedPool PendingRegistry Finmap CommitterNode PendingTransaction

variable {C : Codec} {K : ContractCodec} {P : ShieldedPrimitives} {cfg : RecordsConfig}
  {around : Surroundings} {faults : Faults} {n n' : CommitterNode}
  {commit : TransactionCommit} {key : Bytes}

namespace PendingRegistry

def locks (pending : PendingRegistry) (txId : String) : Nat :=
  ((pending.lookup txId).map PendingTransaction.lockCount).getD 0

/-- There is an entry, and it gives no locks any more. -/
def Terminal (pending : PendingRegistry) (txId : String) : Prop :=
  ∃ entry, pending.lookup txId = some entry ∧ entry.acquire = none

end PendingRegistry

section

variable (C : Codec) (K : ContractCodec) (P : ShieldedPrimitives) (cfg : RecordsConfig)
  (around : Surroundings) (faults : Faults) (n : CommitterNode) (commit : TransactionCommit)
  (key : Bytes)

/-- The token as the node shows it: the cached one, or else the stored one. -/
def CommitterNode.visibleToken (tokenId : Bytes) : Option Token :=
  (n.base.tokens.lookup tokenId).or (n.records.tokens.lookup (cfg.tokenPartitionId, tokenId))

/-- Tokens, pool, balances and pending entries are as they were. The stored pool is
the one there was, or the one in memory. -/
structure Untouched (n' : CommitterNode) : Prop where
  visible : ∀ tokenId, n'.visibleToken cfg tokenId = n.visibleToken cfg tokenId
  stored : n'.records.tokens = n.records.tokens
  users : n'.records.users = n.records.users
  pool : n'.base.pool = n.base.pool
  storedPool : n'.records.pools = n.records.pools ∨
    n'.records.pools = (n.records.withPool cfg n.base.pool).pools
  pending : n'.base.pending = n.base.pending

/-- A call that fails leaves everything untouched, and any call leaves as many locks
on each transaction as there were. -/
def LeavesNoTrace : Prop :=
  let result := (CommitterNode.checkAndCommitTransactionResults C K P cfg around faults
    commit key).exec n
  (result.1 ≠ .ok () → Untouched cfg n result.2) ∧
    ∀ txId, result.2.base.pending.locks txId = n.base.pending.locks txId

/-- The Commit meets a terminal entry and its block does not get on the chain. If the
pool had taken the delta, the undo is saved, or the stored pool had it already. -/
structure PassedBy : Prop where
  terminal : n.base.pending.Terminal commit.txId
  unlanded : ∀ pool outcome token, Uncontested C n.base commit key →
    Pooled C P cfg (n.world C K cfg around faults) n.base commit pool outcome →
    ¬ Appends C cfg (n.world C K cfg around faults) n.base commit token
  undone : ∀ pool, Uncontested C n.base commit key →
    Pooled C P cfg (n.world C K cfg around faults) n.base commit pool .applied →
    faults.savePoolUndone = false ∨
      n.records.pools.lookup cfg.tokenPartitionId = some pool.stateSnapshot

/-- The Commit passes every stage, with what each stage finds. -/
structure GoesThrough (pool : ShieldedPool)
    (outcome : PoolApplyOutcome) (token : Token) (tx : Transaction)
    (written : Records) : Prop where
  free : Uncontested C n.base commit key
  pooled : Pooled C P cfg (n.world C K cfg around faults) n.base commit pool outcome
  appends : Appends C cfg (n.world C K cfg around faults) n.base commit token
  held : HeldFor n.base.pending commit.txId commit tx
  finishes : Finishes C K cfg around faults n commit token tx written

/-- Every step succeeds, and no lock of someone else's is released. -/
def CleanCommit : Prop :=
  (∃ pool outcome token tx written,
    GoesThrough C K P cfg around faults n commit key pool outcome token tx written) ∧
  (n.base.pending.Terminal commit.txId → n.base.pending.locks commit.txId = 0)

end

theorem PendingTransaction.lockCount_of_acquire {entry locked : PendingTransaction}
    (h : entry.acquire = some locked) : locked.lockCount = entry.lockCount + 1 := by
  unfold acquire at h
  split at h
  · cases h
  · cases h
  · obtain rfl := Option.some.inj h
    rfl

variable {pending : PendingRegistry} {txId : String} {token : Token} {pool : ShieldedPool}
  {outcome : PoolApplyOutcome}

theorem taken_eq_iff : pending.taken txId commit key = pending ↔ pending.Terminal txId := by
  unfold taken
  split
  · next hn =>
    refine iff_of_false (fun heq => ?_) (fun ht => ?_)
    · have hl := congrArg (lookup txId) heq
      rw [lookup_insert, hn] at hl
      cases hl
    · obtain ⟨entry, he, -⟩ := ht
      cases hn.symm.trans he
  · next entry he =>
    split
    · next ha => exact iff_of_true rfl ⟨entry, he, ha⟩
    · next l ha =>
      refine iff_of_false (fun heq => ?_) (fun ht => ?_)
      · have hl := congrArg (lookup txId) heq
        rw [lookup_insert, he] at hl
        have hc := lockCount_of_acquire ha
        rw [Option.some.inj hl] at hc
        omega
      · obtain ⟨entry', he', hn⟩ := ht
        obtain rfl := Option.mem_unique he he'
        cases ha.symm.trans hn

theorem locks_eq {entry : PendingTransaction}
    (h : pending.lookup txId = some entry) : pending.locks txId = entry.lockCount := by
  rw [locks, h]
  rfl

theorem locks_taken (h : ¬ pending.Terminal txId) :
    (pending.taken txId commit key).locks txId = pending.locks txId + 1 := by
  unfold taken
  split
  · next hn =>
    rw [locks_eq (lookup_insert _), locks, hn]
    rfl
  · next entry he =>
    split
    · next ha => exact absurd ⟨entry, he, ha⟩ h
    · next l ha =>
      rw [locks_eq (lookup_insert _), locks_eq he]
      exact lockCount_of_acquire ha

theorem locks_released (pending : PendingRegistry) (txId : String) (tx : Transaction)
    (hash : Bytes) : (pending.released txId tx hash).locks txId = pending.locks txId - 1 := by
  unfold released
  split
  · next hn =>
    rw [locks, hn]
    rfl
  · next entry he =>
    rw [locks_eq he]
    split
    · next hl =>
      rw [locks, lookup_erase]
      exact hl.symm
    · exact locks_eq (lookup_insert _)

/-- Taking and releasing gives every lock back, unless there was none to take and
others held some. -/
theorem locks_released_taken {tx : Transaction} {hash : Bytes} :
    (∀ id, ((pending.taken txId commit key).released txId tx hash).locks id = pending.locks id) ↔
      (pending.Terminal txId → pending.locks txId = 0) := by
  constructor
  · intro hb ht
    have hown := hb txId
    rw [locks_released, taken_eq_iff.mpr ht] at hown
    omega
  · intro hf id
    by_cases hid : id = txId
    · subst hid
      rw [locks_released]
      by_cases ht : pending.Terminal id
      · rw [taken_eq_iff.mpr ht]
        have hn := hf ht
        omega
      · rw [locks_taken ht]
        rfl
    · have hoff := (agreeOff_taken pending txId commit key).trans (agreeOff_released _ txId tx hash)
      rw [locks, hoff id hid, locks]

theorem visibleToken_of_cached {tokenId : Bytes}
    (h : cachedToken (n.world C K cfg around faults) n.base.tokens tokenId =
      some token) : n.visibleToken cfg tokenId = some token := by
  unfold cachedToken at h
  unfold visibleToken
  cases hl : n.base.tokens.lookup tokenId with
  | some c =>
    rw [hl] at h
    exact h
  | none =>
    rw [hl] at h
    simp only [Records.answers] at h
    split at h
    · cases h
    · exact h

/-- Reading tokens into the cache shows what was shown before. -/
theorem visibleToken_of_warmed {tokens : TokenMap}
    (hw : Warmed (n.world C K cfg around faults) n.base.tokens tokens)
    (hc : n'.base.tokens = tokens) (hs : n'.records.tokens = n.records.tokens)
    (tokenId : Bytes) : n'.visibleToken cfg tokenId = n.visibleToken cfg tokenId := by
  cases hl : tokens.lookup tokenId with
  | some token =>
    rw [visibleToken_of_cached (hw.only tokenId token hl), visibleToken, hc, hl]
    rfl
  | none =>
    have hb : n.base.tokens.lookup tokenId = none := by
      cases hsm : n.base.tokens.lookup tokenId with
      | none => rfl
      | some token => cases hl.symm.trans (hw.kept tokenId token hsm)
    rw [visibleToken, visibleToken, hc, hl, hb, hs]

/-- Where the tokens, the balances and the pool in memory are as they were, the rest
is the registry and the stored pool. -/
theorem untouched_iff (hv : ∀ ti, n'.visibleToken cfg ti = n.visibleToken cfg ti)
    (hs : n'.records.tokens = n.records.tokens) (hu : n'.records.users = n.records.users)
    (hp : n'.base.pool = n.base.pool) : Untouched cfg n n' ↔ n'.base.pending = n.base.pending ∧
      (n'.records.pools = n.records.pools ∨
        n'.records.pools = (n.records.withPool cfg n.base.pool).pools) :=
  ⟨fun h => ⟨h.pending, h.storedPool⟩, fun h => ⟨hv, hs, hu, hp, h.2, h.1⟩⟩

theorem untouched_iff_terminal {base : CommitterState}
    (ht : base.tokens = n.base.tokens) (hpl : base.pool = n.base.pool)
    (hp : base.pending = n.base.pending.taken commit.txId commit key) :
    Untouched cfg n { n with base := base } ↔
      n.base.pending.Terminal commit.txId := by
  have hv : ∀ tokenId, { n with base := base : CommitterNode }.visibleToken cfg
      tokenId = n.visibleToken cfg tokenId := fun tokenId => by
    rw [visibleToken, visibleToken, ht]
  rw [untouched_iff hv rfl rfl hpl, hp, taken_eq_iff]
  exact ⟨And.left, fun h => ⟨h, .inl rfl⟩⟩

theorem stateSnapshot_ne {env : EnvironmentMetadata} {pool' : ShieldedPool}
    {block : Block} (h : pool.applyUpdate C P env block = (pool', .ok .applied)) :
    pool'.stateSnapshot ≠ pool.stateSnapshot := by
  rcases applyUpdate_cases (C := C) (P := P) env pool block with
    ⟨stx, fs, -, heq⟩ | ⟨-, hnot⟩
  · obtain rfl := (Prod.mk.inj (heq.symm.trans h)).1
    intro hs
    have hl := congrArg (fun s => s.applied.length) hs
    simp [stateSnapshot, afterRound, PoolState.recordDelta] at hl
  · rw [h] at hnot
    exact absurd rfl hnot

theorem pools_undone_iff
    (hp : Pooled C P cfg (n.world C K cfg around faults) n.base commit pool outcome) :
    (((n.records.pooled cfg pool outcome).undone cfg faults n.base.pool outcome).pools =
        n.records.pools ∨
      ((n.records.pooled cfg pool outcome).undone cfg faults n.base.pool outcome).pools =
        (n.records.withPool cfg n.base.pool).pools) ↔
      (outcome = .applied → faults.savePoolUndone = false ∨
        n.records.pools.lookup cfg.tokenPartitionId = some pool.stateSnapshot) := by
  cases outcome with
  | alreadyApplied | plain => exact iff_of_true (.inl rfl) fun h => by cases h
  | applied =>
    simp only [Records.pooled, Records.undone, if_true, true_and, forall_const]
    by_cases hu : faults.savePoolUndone = false
    · rw [if_pos hu]
      exact iff_of_true (.inr (insert_insert _)) (.inl hu)
    · rw [if_neg hu]
      constructor
      · rintro (hsm | ho)
        · rw [← hsm]
          exact .inr (lookup_insert _)
        · have hl := congrArg (lookup cfg.tokenPartitionId) ho
          simp only [Records.withPool, lookup_insert] at hl
          exact absurd (Option.some.inj hl) (stateSnapshot_ne hp.applied)
      · intro hs
        exact .inl (insert_eq_self_iff.mpr (hs.resolve_left hu))

theorem terminal_iff (hu : n.base.committedTxs.lookup commit.txId = none)
    (hnot : Uncontested C n.base commit key → ∀ pool outcome,
      ¬ Pooled C P cfg (n.world C K cfg around faults) n.base commit
        pool outcome) : n.base.pending.Terminal commit.txId ↔
      n.base.committedTxs.lookup commit.txId ≠ none ∨
        PassedBy C K P cfg around faults n commit key := by
  constructor
  · intro ht
    exact .inr ⟨ht, fun _ _ _ hf hp => absurd hp (hnot hf _ _),
      fun _ hf hp => absurd hp (hnot hf _ _)⟩
  · rintro (hb | hps)
    · exact absurd hu hb
    · exact hps.terminal

theorem Pooled.unique {world : CommitterWorld} {pool' : ShieldedPool} {outcome' : PoolApplyOutcome}
    (h : Pooled C P cfg world n.base commit pool outcome)
    (h' : Pooled C P cfg world n.base commit pool' outcome') :
    pool = pool' ∧ outcome = outcome' := by
  obtain ⟨hp, hout⟩ := Prod.mk.inj (h.applied.symm.trans h'.applied)
  exact ⟨hp, Except.ok.inj hout⟩

theorem Appends.unique {world : CommitterWorld} {token' : Token}
    (h : Appends C cfg world n.base commit token)
    (h' : Appends C cfg world n.base commit token') : token = token' :=
  Option.mem_unique h.lands.cached h'.lands.cached

theorem commitBlock_ne {validators : BlockValidators} {block : Block} {rollback : Option Bytes}
    (h : (token.rolled rollback).validateBlock C validators (Token.hashed C block) = .ok ()) :
    (token.commitBlock C validators block rollback).1 ≠ token := by
  intro hs
  have hc := congrArg Token.sequenceNumber hs
  have hr : (token.rolled rollback).sequenceNumber = token.sequenceNumber := by
    unfold Token.rolled
    split <;> rfl
  simp only [Token.commitBlock, Token.commitBlockAs, h, hr] at hc
  omega

theorem RecordedExit.untouched_iff {e : CommitterError}
    (h : RecordedExit C K P cfg around faults n commit key (.error e) n') : Untouched cfg n n' ↔
      n.base.committedTxs.lookup commit.txId ≠ none ∨
        PassedBy C K P cfg around faults n commit key := by
  cases h with
  | duplicate hb =>
    exact iff_of_true ⟨fun _ => rfl, rfl, rfl, rfl, .inl rfl, rfl⟩ (.inl hb)
  | unready hub hnot =>
    exact Iff.trans (untouched_iff_terminal rfl rfl rfl)
      (terminal_iff hub fun hf => absurd hf.ready hnot)
  | discarded hr hl =>
    obtain ⟨hmem, hun⟩ := mem_of_unbeaten hl
    exact Iff.trans (untouched_iff_terminal rfl rfl rfl)
      (terminal_iff hr.unbooked fun hf => absurd (hf.beats _ hmem) hun)
  | unpooled hf hnot =>
    exact Iff.trans (untouched_iff_terminal rfl rfl rfl)
      (terminal_iff hf.ready.unbooked fun _ => hnot)
  | @unlanded e pool outcome t hf hp hnot hw =>
    have ht : ((n.records.pooled cfg pool outcome).undone cfg faults n.base.pool
        outcome).tokens = n.records.tokens := by simp
    have hus : ((n.records.pooled cfg pool outcome).undone cfg faults n.base.pool
        outcome).users = n.records.users := by simp
    refine Iff.trans (Pneumatic.untouched_iff (visibleToken_of_warmed hw rfl ht) ht hus rfl) ?_
    refine Iff.trans (and_congr taken_eq_iff (pools_undone_iff hp)) ?_
    constructor
    · rintro ⟨htr, hud⟩
      refine .inr ⟨htr, fun _ _ token _ _ => hnot token, fun pool' _ hp' => ?_⟩
      obtain ⟨rfl, rfl⟩ := hp.unique hp'
      exact hud rfl
    · rintro (hb | hps)
      · exact absurd hf.ready.unbooked hb
      · refine ⟨hps.terminal, fun hap => ?_⟩
        subst hap
        exact hps.undone pool hf hp
  | unfinished hf hp ha hnot hc =>
    refine iff_of_false (fun hu => ?_) (fun h => ?_)
    · have haf := hu.visible commit.tokenId
      rw [visibleToken_of_cached ha.lands.cached, visibleToken, hc] at haf
      exact commitBlock_ne ha.lands.accepted (Option.some.inj haf)
    · rcases h with hb | hps
      · exact hb hf.ready.unbooked
      · exact hps.unlanded _ _ _ hf hp ha

theorem RecordedExit.not_goesThrough {e : CommitterError}
    (h : RecordedExit C K P cfg around faults n commit key (.error e) n')
    {tx : Transaction} {written : Records} :
    ¬ GoesThrough C K P cfg around faults n commit key pool outcome token tx written := by
  intro hg
  cases h with
  | duplicate hb => exact hb hg.free.ready.unbooked
  | unready hun hnot => exact hnot hg.free.ready
  | discarded hr hl =>
    obtain ⟨hmem, hu⟩ := mem_of_unbeaten hl
    exact hu (hg.free.beats _ hmem)
  | unpooled hf hnot => exact hnot _ _ hg.pooled
  | unlanded hf hp hnot => exact hnot _ hg.appends
  | unfinished hf hp ha hnot =>
    obtain rfl := hg.appends.unique ha
    exact hnot tx written hg.held hg.finishes

/-- A call leaves no trace exactly when it is refused as a duplicate, is passed by at
a terminal entry, or goes through without releasing another's lock. -/
theorem leavesNoTrace_iff (hpool : PoolInv P n.base.pool)
    (hvalid : validateTransactionMessage cfg commit = .ok ()) :
    LeavesNoTrace C K P cfg around faults n commit key ↔
      n.base.committedTxs.lookup commit.txId ≠ none ∨
        PassedBy C K P cfg around faults n commit key ∨
        CleanCommit C K P cfg around faults n commit key := by
  have hkey : blockKey C commit.proposedBlock = commit.proposedBlock.currentHash :=
    blockKey_of_ne_nil (currentHash_ne_nil hvalid)
  have he : RecordedExit C K P cfg around faults n commit key _ _ :=
    recordedExit hpool hkey key
  unfold LeavesNoTrace
  generalize (CommitterNode.checkAndCommitTransactionResults C K P cfg around faults
    commit key).exec n = result at he ⊢
  obtain ⟨v, n'⟩ := result
  cases v with
  | error e =>
    have hfl : ¬ CleanCommit C K P cfg around faults n commit key := by
      rintro ⟨⟨pool, outcome, token, tx, w, hg⟩, -⟩
      exact he.not_goesThrough hg
    rw [← or_assoc, ← he.untouched_iff, or_iff_left hfl]
    constructor
    · intro h
      exact h.1 (by simp)
    · intro hu
      exact ⟨fun _ => hu, fun txId => by rw [hu.pending]⟩
  | ok _ =>
    cases he with
    | finished hf hp ha hh hfn =>
      constructor
      · rintro ⟨-, hb⟩
        exact .inr (.inr ⟨⟨_, _, _, _, _, hf, hp, ha, hh, hfn⟩, locks_released_taken.mp hb⟩)
      · rintro (hbk | hps | hc)
        · exact absurd hf.ready.unbooked hbk
        · exact absurd ha (hps.unlanded _ _ _ hf hp)
        · exact ⟨fun h => absurd rfl h, locks_released_taken.mpr hc.2⟩

/-- A node whose registry has the transaction committed with this very block, and a
lock on it; the booking has been pruned. -/
def lockedNode : CommitterNode :=
  { bootNode with
    base := { bootState with
      pending := (∅ : PendingRegistry).insert "m"
        ⟨.committed (routedTransaction "m")
          (plainCommit "m").proposedBlock.currentHash, 1⟩ } }

/-- The token cannot be saved: the Commit fails, its block stays on the chain, and a
new entry stays with a lock. Another Commit goes through and releases the lock that
someone else holds. -/
theorem failed_commit_leaves_block :
    let failed := (CommitterNode.checkAndCommitTransactionResults sampleCodec
      sampleContracts samplePrimitives sampleRecords sampleSurroundings
      { Faults.none with saveToken := true } (plainCommit "m") [4]).exec bootNode
    let p := (CommitterNode.checkAndCommitTransactionResults sampleCodec
      sampleContracts samplePrimitives sampleRecords sampleSurroundings Faults.none
      (plainCommit "m") [4]).exec lockedNode
    (failed.1 ≠ .ok () ∧ (bootNode.visibleToken sampleRecords [7]).map Token.chain = some [] ∧
      (failed.2.visibleToken sampleRecords [7]).map Token.chain =
        some [(plainCommit "m").proposedBlock] ∧ bootNode.base.pending.lookup "m" = none ∧
      failed.2.base.pending.locks "m" = 1) ∧
    (p.1 = .ok () ∧ lockedNode.base.pending.locks "m" = 1 ∧
      p.2.base.pending.locks "m" = 0) ∧
    ¬ LeavesNoTrace sampleCodec sampleContracts samplePrimitives sampleRecords
      sampleSurroundings { Faults.none with saveToken := true } bootNode
      (plainCommit "m") [4] ∧
    ¬ LeavesNoTrace sampleCodec sampleContracts samplePrimitives sampleRecords
      sampleSurroundings Faults.none lockedNode (plainCommit "m") [4] := by
  refine ⟨by decide +kernel, by decide +kernel, fun h => ?_, fun h => ?_⟩
  · have hl := h.2 "m"
    revert hl
    decide +kernel
  · have hl := h.2 "m"
    revert hl
    decide +kernel

theorem bootNode_goesThrough :
    GoesThrough sampleCodec sampleContracts samplePrimitives sampleRecords
      sampleSurroundings Faults.none bootNode (plainCommit "m") [4] bootState.pool .plain
      emptyToken (routedTransaction "m")
      (bootNode.records.withToken sampleRecords [7]
        { emptyToken with
          chain := [(plainCommit "m").proposedBlock], sequenceNumber := 1 }) where
  free := ⟨⟨rfl, _, rfl, rfl⟩, fun c hc => by cases hc⟩
  pooled := ⟨rfl, fun h => by cases h⟩
  appends := ⟨rfl, ⟨rfl, rfl⟩⟩
  held := rfl
  finishes := ⟨rfl, .inl rfl, fun gas h => (by cases h), rfl⟩

/-- Without faults the Commit leaves no trace beyond its effect. -/
theorem plainCommit_leavesNoTrace :
    LeavesNoTrace sampleCodec sampleContracts samplePrimitives sampleRecords
      sampleSurroundings Faults.none bootNode (plainCommit "m") [4] :=
  (leavesNoTrace_iff (PoolInv.new 10) rfl).mpr
    (.inr (.inr ⟨⟨_, _, _, _, _, bootNode_goesThrough⟩, fun h => by
      obtain ⟨entry, he, -⟩ := h
      cases he⟩))

end Pneumatic
