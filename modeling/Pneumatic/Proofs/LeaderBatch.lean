import Pneumatic.Proofs.Slashing

/-!
# How much of a leader's batch lands

The leader builds every block of a batch on the tip it sees before the first of
them is committed, so no two of them can be linked to each other. A batch lands
whole when it is empty or a single transaction that is not booked, wins against
the candidates on the tip and does not have the tip rolled back under it.
-/

namespace Pneumatic

open Handler HandlerM List Option Run ShieldedPool

variable {C : Codec} {P : ShieldedPrimitives} {cfg : CommitterConfig}
  {setup : LeaderSetup} {answers : TurnWorld} {st led : LeaderState}
  {tokenId : Bytes} {token : Token} {limit : Nat} {batch : List Transaction}

/-- The token's validation spec accepts the block. -/
def PassesSpec (validators : BlockValidators) (token : Token) (block : Block) : Prop :=
  let name :=
    if token.blockValidationSpecName.isEmpty then
      (token.metadata.lookup "validator_name").getD ""
    else token.blockValidationSpecName
  ∃ spec, validators name = some spec ∧ spec block token = none

/-- This node leads once an expired epoch has been advanced, the token's chain
is valid, and the dequeued transactions are validated, unrouted and accepted by
the token's spec. `fresh` is what a hash function is for: no block hashes to its
own parent. -/
structure LeadsBatch (C : Codec) (cfg : CommitterConfig) (setup : LeaderSetup)
    (answers : TurnWorld) (st led : LeaderState) (tokenId : Bytes) (limit : Nat)
    (token : Token) (batch : List Transaction) : Prop where
  advanced : (advanceIfExpired C setup answers).exec st = (.ok (), led)
  leader : led.isLeader setup = true
  cached : st.base.tokens.lookup tokenId = some token
  valid : currentChainState C token.chain = some (lastHashIn C token.chain)
  dequeued : List.Forall₂ (fun id tx =>
      (∃ validation, (st.base.pending.lookup id).map PendingTransaction.state =
        some (.validated tx validation)) ∧ tx.id = id ∧ tx.selection = none)
    ((st.queue.queue tokenId).take limit) batch
  passes : ∀ commit ∈ leaderCommits C cfg setup answers tokenId token led.epochNumber 0 batch,
    PassesSpec cfg.validators token (Token.hashed C commit.proposedBlock)
  fresh : ∀ commit ∈ leaderCommits C cfg setup answers tokenId token led.epochNumber 0 batch,
    createHash C commit.proposedBlock ≠ commit.proposedBlock.previousHash

/-- The proposals are those of the dequeued transactions in their order, their
blocks and nothing else go on the token's chain in this order, and each is
linked to the one before it. -/
structure LandsWhole (C : Codec) (tokenId tip : Bytes) (dequeued : List String)
    (before after : CommitterState) (commits : List TransactionCommit) : Prop where
  inOrder : commits.map (·.proposedBlock.signedTrans.transaction.id) = dequeued
  appended : after.log = before.log ++ commits.map fun commit =>
    .appended ⟨tokenId, Token.hashed C commit.proposedBlock, .commit⟩
  linked : Follows tip (commits.map (Token.hashed C ·.proposedBlock))
  last : ∀ commit, commits.getLast? = some commit →
    ∃ token, after.tokens.lookup tokenId = some token ∧
      token.chain.getLast? = some (Token.hashed C commit.proposedBlock)

/-- A single transaction lands where it is not booked, its block beats every
candidate on the tip, and the last of them is not the tip itself. A proposed
block claims the empty hash. -/
structure LandsAlone (C : Codec) (setup : LeaderSetup) (s : CommitterState)
    (tokenId : Bytes) (token : Token) (id : String) : Prop where
  unbooked : s.committedTxs.lookup id = none
  wins : ∀ c ∈ s.candidatesAt (tokenId, lastHashIn C token.chain),
    resolveBlockConflict [] c.1.currentHash setup.publicKey c.2 s.stakes = .discardLoser []
  tipStays : token.defeatedTip ((s.candidatesAt (tokenId, lastHashIn C token.chain)).getLast?.map
      (·.1.currentHash)) = none

theorem validateBlock_ok_iff {validators : BlockValidators} {block : Block} :
    token.validateBlock C validators block = .ok () ↔ validateNextBlock C token.chain block = true ∧
        PassesSpec validators token block := by
  unfold Token.validateBlock PassesSpec
  cases hn : validateNextBlock C token.chain block with
  | false => simp
  | true =>
    simp only [Bool.true_eq_false, if_false, true_and]
    cases validators _ with
    | none => simp
    | some spec => cases hs : spec block token <;> simp [hs]

theorem base_of_advanced {verdict : Except CommitterError Unit}
    (h : (advanceIfExpired C setup answers).exec st = (verdict, led)) :
    led.base = st.base ∧ led.queue = st.queue := by
  have hk : Keeps (advanceIfExpired C setup answers) st fun led =>
      led.base = st.base ∧ led.queue = st.queue :=
    ends_advanceIfExpired fun _ _ _ => ⟨⟨rfl, rfl⟩, fun _ => ⟨rfl, rfl⟩⟩
  have hled := keeps_iff.mp hk
  rw [h] at hled
  exact hled

section

variable (h : LeadsBatch C cfg setup answers st led tokenId limit token batch)

include h

theorem LeadsBatch.base : led.base = st.base ∧ led.queue = st.queue :=
  base_of_advanced h.advanced

theorem LeadsBatch.proposeBlocks :
    (Pneumatic.proposeBlocks C cfg setup answers tokenId limit).exec st =
      (.ok (leaderCommits C cfg setup answers tokenId token led.epochNumber 0 batch),
        { led with queue := (st.queue.dequeueForLeader tokenId limit).2 }) := by
  refine exec_of_ends ?_
  obtain ⟨hbs, hq⟩ := h.base
  simp only [Pneumatic.proposeBlocks, ends_bind]
  refine ends_of_ok h.advanced ?_
  have hb : (st.queue.dequeueForLeader tokenId limit).1.mapM
      st.base.pending.getTransaction = .ok batch := by
    refine mapM_eq_ok_iff.mpr (h.dequeued.imp ?_)
    rintro id tx ⟨⟨v, hs⟩, -⟩
    cases he : st.base.pending.lookup id with
    | none => rw [he] at hs; cases hs
    | some entry =>
      rw [he] at hs
      simp only [PendingRegistry.getTransaction, he, some.inj hs]
  simp only [ends_getState, ends_ite, h.leader, Bool.true_eq_false, false_imp_iff,
    true_and, ends_bind, proposeBatch, ends_update, ends_lift, hbs, hq, hb]
  refine fun _ => ⟨fun batch' heq => ?_, fun e heq => by cases heq⟩
  obtain rfl := Except.ok.inj heq
  cases batch with
  | nil => exact ⟨rfl, rfl⟩
  | cons tx rest =>
    simp only [ends_bind, ends_ofOption, ends_pure, h.cached]
    refine ⟨fun token' ht => ?_, fun hn => by cases hn⟩
    obtain rfl := some.inj ht
    exact ⟨rfl, trivial⟩

theorem LeadsBatch.inOrder (index : Nat) :
    (leaderCommits C cfg setup answers tokenId token led.epochNumber index batch).map
        (·.proposedBlock.signedTrans.transaction.id) = (st.queue.queue tokenId).take limit := by
  have hd := h.dequeued
  clear h
  generalize (st.queue.queue tokenId).take limit = ids at hd
  induction hd generalizing index with
  | nil => rfl
  | cons hf _ ih =>
    obtain ⟨-, hid, hs⟩ := hf
    rw [leaderCommits, hs, if_neg (by simp), map_cons, ih]
    rw [← hid]
    rfl

end

section Single

variable {tx : Transaction}

def onlyCommit (C : Codec) (cfg : CommitterConfig) (setup : LeaderSetup)
    (answers : TurnWorld) (led : LeaderState) (tokenId : Bytes) (token : Token)
    (tx : Transaction) : TransactionCommit :=
  leaderCommit C cfg setup answers tokenId token led.epochNumber 0 tx

section

variable (h : LeadsBatch C cfg setup answers st led tokenId limit token [tx])

include h

theorem LeadsBatch.commits_single :
    leaderCommits C cfg setup answers tokenId token led.epochNumber 0 [tx] =
      [onlyCommit C cfg setup answers led tokenId token tx] := by
  obtain ⟨id, -, ⟨-, -, hs⟩, -, -⟩ :=
    forall₂_cons_right_iff.mp h.dequeued
  rw [leaderCommits, hs, if_neg (by simp)]
  rfl

theorem LeadsBatch.effect : CommitEffect C P cfg
      { answers.commit 0 with currentEpochNumber := led.epochNumber } st.base
      (onlyCommit C cfg setup answers led tokenId token tx) setup.publicKey
      ((epochTurn C P cfg setup answers limit tokenId).exec st).2.base := by
  have hrun : ((epochTurn C P cfg setup answers limit tokenId).exec st).2.base =
      ((checkAndCommitTransactionResults C P cfg
        { answers.commit 0 with currentEpochNumber := led.epochNumber }
        (onlyCommit C cfg setup answers led tokenId token tx) setup.publicKey).exec st.base).2 := by
    rw [epochTurn, exec_bind, h.proposeBlocks, h.commits_single, ← h.base.1]
    rfl
  rw [hrun]
  exact commitEffect _ _

theorem LeadsBatch.ready_iff :
    CommitReady C st.base (onlyCommit C cfg setup answers led tokenId token tx) ↔
      st.base.committedTxs.lookup tx.id = none := by
  have hid : (onlyCommit C cfg setup answers led tokenId token tx).txId = tx.id :=
    fromUtf8Lossy_asBytes tx.id
  obtain ⟨id, -, ⟨⟨v, hs⟩, rfl, -⟩, -, -⟩ :=
    forall₂_cons_right_iff.mp h.dequeued
  constructor
  · intro hr
    have hu := hr.unbooked
    rw [hid] at hu
    exact hu
  · intro hu
    refine ⟨by rw [hid]; exact hu, tx, ?_, ?_⟩
    · rw [hid, HeldFor, hs]
    · simp [checkPayload, onlyCommit, leaderCommit, fromTransaction, leaderCarrier]

/-- The block of a single proposal goes on the chain if the tip stays. -/
theorem LeadsBatch.goesOn {world : CommitterWorld} (htip : token.defeatedTip (st.base.rollbackTarget
      (onlyCommit C cfg setup answers led tokenId token tx)) = none) :
    GoesOn C P cfg world st.base (onlyCommit C cfg setup answers led tokenId token tx) token where
  env := rfl
  pool := ⟨_, .plain, rfl, fun heq => by cases heq⟩
  lands := by
    have hp := h.passes _ (by rw [h.commits_single]; exact mem_singleton.mpr rfl)
    refine ⟨?_, ?_⟩
    · show cachedToken world st.base.tokens tokenId = some token
      rw [cachedToken, h.cached]
    · rw [Token.rolled, htip]
      refine validateBlock_ok_iff.mpr ⟨?_, hp⟩
      rw [validateNextBlock, h.valid]
      exact Bool.and_eq_true_iff.mpr ⟨links_of_eq rfl, beq_self_eq_true _⟩

theorem LeadsBatch.single_iff :
    LandsWhole C tokenId (lastHashIn C token.chain) ((st.queue.queue tokenId).take limit) st.base
        ((epochTurn C P cfg setup answers limit tokenId).exec st).2.base
        [onlyCommit C cfg setup answers led tokenId token tx] ↔
      LandsAlone C setup st.base tokenId token tx.id := by
  have hr := h.ready_iff
  have hg : ∀ world, token.defeatedTip (st.base.rollbackTarget
      (onlyCommit C cfg setup answers led tokenId token tx)) = none →
      GoesOn C P cfg world st.base _ token := fun world htip => h.goesOn htip
  have hc : ∀ world token', cachedToken world st.base.tokens tokenId =
      some token' → token' = token := by
    intro world token' ht
    rw [cachedToken, h.cached] at ht
    exact (some.inj ht).symm
  have ho := h.inOrder 0
  rw [h.commits_single] at ho
  have he := h.effect (P := P)
  generalize ((epochTurn C P cfg setup answers limit tokenId).exec st).2.base = after at he
  constructor
  · intro hw
    have hgr : after.log.length = st.base.log.length + 1 := by
      rw [hw.appended, length_append]
      rfl
    cases he with
    | refused _ _ | discarded _ _ _ | unlanded _ _ _ _ _ _ => simp at hgr
    | landed hr' _ hb hg' _ _ _ =>
      obtain rfl := hc _ _ hg'.lands.cached
      refine ⟨hr.mp hr', hb, ?_⟩
      cases htip : Token.defeatedTip _ (st.base.rollbackTarget
          (onlyCommit C cfg setup answers led tokenId _ tx)) with
      | none => exact htip
      | some loser => simp [landedLog, htip, logCommit] at hgr
  · intro ha
    cases he with
    | refused hnot _ => exact absurd (hr.mpr ha.unbooked) hnot
    | discarded _ _ hl =>
      obtain ⟨hmem, hnot⟩ := mem_of_unbeaten hl
      exact absurd (ha.wins _ hmem) hnot
    | unlanded _ _ _ hnot _ _ => exact absurd (hg _ ha.tipStays) (hnot token)
    | landed _ _ _ hg' hch _ _ =>
      obtain rfl := hc _ _ hg'.lands.cached
      refine ⟨ho, ?_, ⟨rfl, trivial⟩, fun c hcm => ?_⟩
      · rw [landedLog, show Token.defeatedTip _ (st.base.rollbackTarget _) = none from ha.tipStays]
        rfl
      · obtain rfl := some.inj hcm
        exact ⟨_, hch, Token.commitBlockAs_getLast? hg'.lands.accepted⟩

end

end Single

/-- A batch lands whole exactly when it is empty or a single transaction that
lands alone. -/
theorem landsWhole_iff (h : LeadsBatch C cfg setup answers st led tokenId limit token batch) :
    (∃ commits, ((proposeBlocks C cfg setup answers tokenId limit).exec st).1 = .ok commits ∧
      LandsWhole C tokenId (lastHashIn C token.chain) ((st.queue.queue tokenId).take limit) st.base
        ((epochTurn C P cfg setup answers limit tokenId).exec st).2.base commits) ↔
      (st.queue.queue tokenId).take limit = [] ∨ ∃ id, (st.queue.queue tokenId).take limit = [id] ∧
          LandsAlone C setup st.base tokenId token id := by
  have hp := congrArg Prod.fst h.proposeBlocks
  have hl := h.dequeued.length_eq
  have ho : ∀ commits, ((proposeBlocks C cfg setup answers tokenId limit).exec st).1 = .ok commits →
        commits = leaderCommits C cfg setup answers tokenId token led.epochNumber 0 batch :=
    fun commits hc => Except.ok.inj (hc.symm.trans hp)
  rcases batch with _ | ⟨first, _ | ⟨s, rest⟩⟩
  · have hnil : (st.queue.queue tokenId).take limit = [] :=
      length_eq_zero_iff.mp hl
    refine ⟨fun _ => .inl hnil, fun _ => ⟨[], hp, ?_⟩⟩
    have hb : ((epochTurn C P cfg setup answers limit tokenId).exec st).2.base = st.base := by
      rw [epochTurn, exec_bind, h.proposeBlocks]
      exact h.base.1
    rw [hb, hnil]
    exact ⟨rfl, (append_nil _).symm, trivial, fun c hcm => by cases hcm⟩
  · obtain ⟨id, ids, ⟨-, rfl, -⟩, hr, hids⟩ :=
      forall₂_cons_right_iff.mp h.dequeued
    obtain rfl := forall₂_nil_right_iff.mp hr
    have hs := h.single_iff (P := P)
    rw [h.commits_single] at hp ho
    constructor
    · rintro ⟨commits, hc, hw⟩
      obtain rfl := ho commits hc
      exact .inr ⟨first.id, hids, hs.mp hw⟩
    · rintro (hnil | ⟨id, hid, ha⟩)
      · rw [hnil] at hids
        cases hids
      · obtain ⟨rfl, -⟩ := cons.inj (hids.symm.trans hid)
        exact ⟨_, hp, hs.mpr ha⟩
  · constructor
    · rintro ⟨commits, hc, hw⟩
      obtain rfl := ho commits hc
      obtain ⟨_, _, ⟨-, -, hfr⟩, ht, -⟩ :=
        forall₂_cons_right_iff.mp h.dequeued
      obtain ⟨_, _, ⟨-, -, hsc⟩, -, -⟩ := forall₂_cons_right_iff.mp ht
      -- the second block names the tip, and the first would have to hash to it
      have hln := hw.linked
      have hf := h.fresh
      simp only [leaderCommits, hfr, hsc, isSome_none,
        Bool.false_eq_true, if_false, map_cons, Follows] at hln hf
      exact absurd hln.2.1.symm (hf _ mem_cons_self)
    · rintro (hnil | ⟨id, hid, -⟩)
      · rw [hnil] at hl
        cases hl
      · rw [hid] at hl
        cases hl

theorem sampleLeader_leads {ids : List String}
    (hq : ((sampleLeader ids).queue.queue [7]).take 10 = ids)
    (hp : ∀ id ∈ ids, ((sampleLeader ids).base.pending.lookup id).map
      PendingTransaction.state = some (.validated (unroutedTransaction id)
        (.valid [] ⟨0, 0, false, false⟩))) :
    LeadsBatch namingCodec sampleCommitter sampleSetup (quietLoop.turn [7])
      (sampleLeader ids) (sampleLeader ids) [7] 10 emptyToken
      (ids.map unroutedTransaction) where
  advanced := rfl
  leader := rfl
  cached := Finmap.lookup_insert _
  valid := rfl
  dequeued := by
    rw [hq, forall₂_map_right_iff, forall₂_same]
    exact fun id hid => ⟨⟨_, hp id hid⟩, rfl, rfl⟩
  passes _ _ := ⟨_, rfl, rfl⟩
  fresh commit hcommit := by
    obtain ⟨place, tx, htx, -, rfl⟩ := exists_of_mem_leaderCommits hcommit
    obtain ⟨id, -, rfl⟩ := mem_map.mp htx
    -- the sample hash holds the token id
    exact fun heq => by cases heq

/-- Two transactions wait for an empty chain: after the loop the chain has the
first block only. -/
theorem second_of_batch_lost :
    LeadsBatch namingCodec sampleCommitter sampleSetup (quietLoop.turn [7])
        (sampleLeader ["t", "u"]) (sampleLeader ["t", "u"]) [7] 10 emptyToken
        (["t", "u"].map unroutedTransaction) ∧
      ((((runEpochLoop namingCodec ShieldedPool.samplePrimitives sampleCommitter
        sampleSetup quietLoop).exec (sampleLeader ["t", "u"])).2.base.tokens.lookup
          [7]).map fun token => token.chain.map (·.signedTrans.transactionId)) = some ["t"] ∧
      ¬ ∃ commits, ((proposeBlocks namingCodec sampleCommitter sampleSetup
          (quietLoop.turn [7]) [7] 10).exec (sampleLeader ["t", "u"])).1 = .ok commits ∧
        LandsWhole namingCodec [7] [] ["t", "u"] (sampleLeader ["t", "u"]).base
          ((epochTurn namingCodec ShieldedPool.samplePrimitives sampleCommitter
            sampleSetup (quietLoop.turn [7]) 10 [7]).exec
              (sampleLeader ["t", "u"])).2.base commits := by
  refine ⟨sampleLeader_leads rfl (by decide +kernel), by decide +kernel, ?_⟩
  rintro ⟨commits, hc, hw⟩
  have hlog : ((epochTurn namingCodec samplePrimitives sampleCommitter
      sampleSetup (quietLoop.turn [7]) 10 [7]).exec
        (sampleLeader ["t", "u"])).2.base.log.length = 1 := rfl
  have htwo : commits.length = 2 := by
    rw [← length_map, hw.inOrder]
    rfl
  rw [hw.appended, length_append, length_map, htwo] at hlog
  cases hlog

/-- One transaction waits, and lands. -/
theorem single_of_batch_lands : ∃ commits, ((proposeBlocks namingCodec sampleCommitter sampleSetup
        (quietLoop.turn [7]) [7] 10).exec (sampleLeader ["t"])).1 = .ok commits ∧
      LandsWhole namingCodec [7] [] ["t"] (sampleLeader ["t"]).base
        ((epochTurn namingCodec ShieldedPool.samplePrimitives sampleCommitter
          sampleSetup (quietLoop.turn [7]) 10 [7]).exec (sampleLeader ["t"])).2.base commits := by
  have hq : ((sampleLeader ["t"]).queue.queue [7]).take 10 = ["t"] := by
    decide +kernel
  have hl := (landsWhole_iff (P := samplePrimitives)
    (sampleLeader_leads hq (by decide +kernel))).mpr
    (.inr ⟨"t", hq, rfl, fun c hc => (by cases hc), rfl⟩)
  exact hl

/-! ## What a proposal takes out of the queue

A proposal dequeues before it looks anything up, and neither a lookup that fails
nor a Commit that does puts an id back. A leader proposes from the queue only.
-/

section

variable (C P cfg setup answers)

/-- This node leads the running epoch; if that one is over, it leads the next,
and both snapshots of it are saved. -/
def Leads (st : LeaderState) : Prop :=
  ∃ current, st.detector = some current ∧
    let number := current.currentEpoch.epochNumber + 1
    if current.isEpochExpired answers.now = true ∧ st.epochNumber < number then
      answers.saveStakeSnapshot number st.base.stakes = true ∧
        answers.saveExecutorSet number st.base.stakes = true ∧
        (current.advanceToNewEpoch setup st.base.stakes
          (canonicalChainTip C st.base.tokens)).currentLeader = some setup.publicKey
    else current.currentLeader = some setup.publicKey

/-- The token of the ids in front of the queue is cached, and each of them is
validated and not routed to a Finalizer. -/
def Proposable (st : LeaderState) (tokenId : Bytes) (limit : Nat) : Prop :=
  ∀ id ∈ (st.queue.queue tokenId).take limit, (st.base.tokens.lookup tokenId).isSome ∧
    ∃ tx, st.base.pending.getTransaction id = .ok tx ∧ tx.selection = none

/-- An id in front of the queue that a proposal does not return stands where it
stood. -/
def KeepsUnreturned (tokenId : Bytes) (limit : Nat) (st : LeaderState)
    (proposed : Except CommitterError (List TransactionCommit) × LeaderState) : Prop :=
  ∀ (i : Nat) id, ((st.queue.queue tokenId).take limit)[i]? = some id →
    (∀ commits, proposed.1 = .ok commits → id ∉ commits.map (·.txId)) →
    (proposed.2.queue.queue tokenId)[i]? = some id

/-- One Commit of a turn, with its place among the proposals. -/
def proposalStep (st : LeaderState) (proposal : TransactionCommit × Nat) : LeaderState :=
  ((commitCall C P cfg (answers.commit proposal.2) true proposal.1
    setup.publicKey).exec st).2

/-- A transaction that is not booked, and whose block this Commit does not put on
the chain, can be proposed again. -/
def WaitsAgain (tokenId : Bytes) (st : LeaderState) (proposal : TransactionCommit × Nat) : Prop :=
  st.base.committedTxs.lookup proposal.1.txId = none →
  (proposalStep C P cfg setup answers st proposal).base.log = st.base.log →
  proposal.1.txId ∈ (proposalStep C P cfg setup answers st proposal).queue.queue tokenId

/-- The transaction is booked, or it is ready, its block beats every candidate of
its position and goes on the chain. -/
def CanLand (st : LeaderState) (proposal : TransactionCommit × Nat) : Prop :=
  st.base.committedTxs.lookup proposal.1.txId = none →
    CommitReady C st.base proposal.1 ∧
    (∀ c ∈ st.base.candidatesAt proposal.1.position,
      Beats st.base.stakes proposal.1 setup.publicKey c) ∧
    ∃ token, GoesOn C P cfg
      { answers.commit proposal.2 with currentEpochNumber := st.epochNumber } st.base
      proposal.1 token

end

/-- The Commits of a turn are the run of their steps. -/
theorem exec_commitProposals (index : Nat) (commits : List TransactionCommit) :
    ((commitProposals C P cfg setup answers index commits).exec st).2 =
      run (proposalStep C P cfg setup answers) st (commits.zipIdx index) := by
  induction commits generalizing index st with
  | nil => rfl
  | cons commit rest ih =>
    rw [commitProposals, exec_bind]
    exact ih (index + 1)

theorem ends_advanceIfExpired_leads : Ends (advanceIfExpired C setup answers) st
    (fun _ led => led.isLeader setup = true ↔ Leads C setup answers st)
    (fun _ _ => ¬ Leads C setup answers st) := by
  simp only [advanceIfExpired, ends_bind, ends_getState]
  cases hd : st.detector with
  | none => simp [Leads, hd, LeaderState.isLeader]
  | some current =>
    have hi : st.isLeader setup = true ↔ current.currentLeader = some setup.publicKey := by
      rw [LeaderState.isLeader, hd, beq_iff_eq]
    simp only [Leads, hd, some.injEq, exists_eq_left', ends_ite, ends_bind, ends_pure,
      advanceEpochTo, ends_getState, ends_ofOption, ends_update, ends_require, forall_eq',
      reduceCtorEq, false_imp_iff, and_true]
    refine ⟨fun hx => ⟨fun hle => ?_, fun hlt => ⟨fun hs => ⟨fun he => ?_, fun he => ?_⟩,
      fun hs => ?_⟩⟩, fun hx => ?_⟩
    · rw [if_neg (fun hc => absurd hc.2 (Nat.not_lt.mpr hle)), hi]
    · rw [if_pos ⟨hx, Nat.lt_of_not_le hlt⟩]
      simp [LeaderState.isLeader, hs, he]
    · rw [if_pos ⟨hx, Nat.lt_of_not_le hlt⟩]
      exact fun hc => he hc.2.1
    · rw [if_pos ⟨hx, Nat.lt_of_not_le hlt⟩]
      exact fun hc => hs hc.1
    · rw [if_neg (fun hc => hx hc.1), hi]

theorem ids_leaderCommits (number index : Nat) (batch : List Transaction) :
    (leaderCommits C cfg setup answers tokenId token number index batch).map
        (·.txId) = (batch.filter (·.selection.isNone)).map Transaction.id := by
  induction batch generalizing index with
  | nil => rfl
  | cons tx rest ih =>
    rw [leaderCommits]
    cases hs : tx.selection with
    | some _ => simp [hs, ih]
    | none => simp [hs, ih, leaderCommit, TransactionCommit.txId, fromUtf8Lossy_asBytes]

section

variable (hk : ∀ id tx, st.base.pending.getTransaction id = .ok tx → tx.id = id)

include hk

/-- The blocks of a batch are those of the ids it was looked up for that are not
routed to a Finalizer. -/
theorem mem_ids_of_batch {number : Nat} {ids : List String} {id : String}
    (hm : ids.mapM st.base.pending.getTransaction = .ok batch) :
    id ∈ (leaderCommits C cfg setup answers tokenId token number 0 batch).map
        (·.txId) ↔ id ∈ ids ∧
      ∃ tx, st.base.pending.getTransaction id = .ok tx ∧ tx.selection = none := by
  rw [ids_leaderCommits, List.mem_map]
  constructor
  · rintro ⟨tx, htx, rfl⟩
    obtain ⟨htx, hs⟩ := mem_filter.mp htx
    obtain ⟨id, hid, hg⟩ := exists_of_forall₂_of_mem (mapM_eq_ok_iff.mp hm) htx
    obtain rfl := hk id tx hg
    exact ⟨hid, tx, hg, isNone_iff_eq_none.mp hs⟩
  · rintro ⟨hid, tx, hg, hs⟩
    obtain ⟨tx', htx, hg'⟩ := exists_of_forall₂_of_mem (mapM_eq_ok_iff.mp hm).flip hid
    obtain rfl := Except.ok.inj (hg.symm.trans hg')
    exact ⟨tx, mem_filter.mpr ⟨htx, isNone_iff_eq_none.mpr hs⟩, hk id tx hg⟩

/-- A node that does not lead proposes nothing. What one that leads takes is out of
the queue, whatever comes of it. -/
theorem ends_proposeBlocks_taken : Ends (proposeBlocks C cfg setup answers tokenId limit) st
    (fun commits st' => ¬ Leads C setup answers st ∧ commits = [] ∧ st'.queue = st.queue ∨
      Leads C setup answers st ∧
        st'.queue.queue tokenId = (st.queue.queue tokenId).drop limit ∧
        (∀ commit ∈ commits, commit.txId ∈ (st.queue.queue tokenId).take limit) ∧
        (Proposable st tokenId limit ↔ ∀ id ∈ (st.queue.queue tokenId).take limit,
          id ∈ commits.map (·.txId)))
    (fun _ st' => ¬ Leads C setup answers st ∧ st'.queue = st.queue ∨
      Leads C setup answers st ∧
        st'.queue.queue tokenId = (st.queue.queue tokenId).drop limit ∧
        ¬ Proposable st tokenId limit) := by
  have hd : (st.queue.dequeueForLeader tokenId limit).2.queue tokenId =
      (st.queue.queue tokenId).drop limit := by
    rw [st.queue.queue_dequeueForLeader, if_pos rfl]
  have hv := ends_iff_exec.mp (@ends_advanceIfExpired_leads C setup answers st)
  simp only [proposeBlocks, ends_bind]
  cases ha : (advanceIfExpired C setup answers).exec st with
  | mk verdict led =>
    obtain ⟨hb, hq⟩ := base_of_advanced ha
    rw [ha] at hv
    cases verdict with
    | error e => exact ends_of_error ha (.inl ⟨hv.2 e rfl, hq⟩)
    | ok _ =>
      have hl := hv.1 () rfl
      refine ends_of_ok ha ?_
      simp only [ends_getState, ends_ite, ends_pure, ends_bind, proposeBatch, ends_update,
        ends_lift, hq, hb]
      refine ⟨fun hnot => .inl ⟨?_, trivial, trivial⟩, fun hld => ?_⟩
      · rw [← hl, hnot]
        exact Bool.false_ne_true
      replace hl := hl.mp (Bool.not_eq_false _ ▸ hld)
      refine ⟨fun batch hm => ?_, fun e he => .inr ⟨hl, hd, fun hp => ?_⟩⟩
      · replace hm : ((st.queue.queue tokenId).take limit).mapM
            st.base.pending.getTransaction = .ok batch := hm
        cases batch with
        | nil =>
          have hnil := forall₂_nil_right_iff.mp (mapM_eq_ok_iff.mp hm)
          refine .inr ⟨hl, hd, fun _ hc => (by cases hc), ?_⟩
          simp [Proposable, hnil]
        | cons tx rest =>
          simp only [ends_bind, ends_ofOption, ends_pure]
          refine ⟨fun token ht => .inr ⟨hl, hd, fun commit hc => ?_, ?_⟩,
            fun hn => .inr ⟨hl, hd, fun hp => ?_⟩⟩
          · exact ((mem_ids_of_batch hk hm).mp (mem_map_of_mem hc)).1
          · simp +contextual [Proposable, ht, mem_ids_of_batch hk hm]
          · obtain ⟨id, hid, -⟩ := exists_of_forall₂_of_mem (mapM_eq_ok_iff.mp hm) mem_cons_self
            exact absurd (hp id hid).1 (by simp [hn])
      · obtain ⟨batch, hm⟩ := exists_mapM_eq_ok fun id hid => ((hp id hid).2).imp fun _ => And.left
        cases he.symm.trans hm

end

theorem waitsAgain_iff {proposal : TransactionCommit × Nat}
    (hid : proposal.1.txId ∉ st.queue.queue tokenId) :
    WaitsAgain C P cfg setup answers tokenId st proposal ↔
      CanLand C P cfg setup answers st proposal := by
  have hg : proposal.1.txId ∉
      (proposalStep C P cfg setup answers st proposal).queue.queue tokenId :=
    fun hmem => hid ((queue_commitCall tokenId).subset hmem)
  have he : CommitEffect C P cfg
      { answers.commit proposal.2 with currentEpochNumber := st.epochNumber } st.base proposal.1
      setup.publicKey (proposalStep C P cfg setup answers st proposal).base :=
    commitEffect proposal.1 setup.publicKey
  refine forall_congr' fun hu => ⟨fun hw => ?_, fun hl hlog => ?_⟩
  · replace hw := fun hlog => hg (hw hlog)
    generalize (proposalStep C P cfg setup answers st proposal).base = after at he hw
    cases he with
    | refused _ _ | discarded _ _ _ | unlanded _ _ _ _ _ _ => exact absurd rfl hw
    | landed hr _ hb hgo _ _ _ => exact ⟨hr, hb, _, hgo⟩
  · obtain ⟨hr, hb, token, hgo⟩ := hl
    generalize (proposalStep C P cfg setup answers st proposal).base = after at he hlog
    cases he with
    | refused hnot _ => exact absurd hr hnot
    | discarded _ _ hlost =>
      obtain ⟨hmem, hnot⟩ := mem_of_unbeaten hlost
      exact absurd (hb _ hmem) hnot
    | unlanded _ _ _ hnot _ _ => exact absurd hgo (hnot token)
    | landed _ _ _ _ _ _ _ =>
      dsimp only [landedLog, logCommit] at hlog
      split at hlog <;> simp at hlog

/-- Over the Commits of a turn, the queue never gets an id it did not have. -/
theorem meets_waitsAgain_iff {proposals : List (TransactionCommit × Nat)}
    (hid : ∀ p ∈ proposals, p.1.txId ∉ st.queue.queue tokenId) :
    Meets (proposalStep C P cfg setup answers)
        (WaitsAgain C P cfg setup answers tokenId) st proposals ↔
      Meets (proposalStep C P cfg setup answers) (CanLand C P cfg setup answers) st proposals := by
  rw [meets_iff_forall, meets_iff_forall]
  refine forall₃_congr fun pre p post => forall_congr' fun hs => waitsAgain_iff fun hmem => ?_
  have hsub : (run (proposalStep C P cfg setup answers) st pre).queue.queue tokenId ⊆
      st.queue.queue tokenId :=
    @run_invariant_of_step LeaderState _ _
      (fun later => later.queue.queue tokenId ⊆ st.queue.queue tokenId) _
      (fun _ _ ih _ hid => ih ((queue_commitCall tokenId).subset hid)) pre fun _ hid => hid
  exact hid p (by simp [hs]) (hsub hmem)

/-- A proposal keeps what it does not return exactly when this node does not lead
or everything it takes can be proposed; what it returns can be proposed again
after a Commit without effect exactly when there is none. -/
theorem nothingLost_iff (C : Codec) (P : ShieldedPrimitives) (cfg : CommitterConfig)
    (setup : LeaderSetup) (answers : TurnWorld) (st : LeaderState) (tokenId : Bytes) (limit : Nat)
    (hk : ∀ id tx, st.base.pending.getTransaction id = .ok tx → tx.id = id)
    (hn : (st.queue.queue tokenId).Nodup) :
    (KeepsUnreturned tokenId limit st ((proposeBlocks C cfg setup answers tokenId limit).exec st) ↔
      (Leads C setup answers st → Proposable st tokenId limit)) ∧
    ∀ commits st',
      (proposeBlocks C cfg setup answers tokenId limit).exec st = (.ok commits, st') →
      (Meets (proposalStep C P cfg setup answers)
          (WaitsAgain C P cfg setup answers tokenId) st' commits.zipIdx ↔
        Meets (proposalStep C P cfg setup answers)
          (CanLand C P cfg setup answers) st' commits.zipIdx) := by
  obtain ⟨hok, her⟩ := ends_iff_exec.mp (@ends_proposeBlocks_taken C cfg setup answers st
    tokenId limit hk)
  rw [← take_append_drop limit (st.queue.queue tokenId)] at hn
  have hdj := disjoint_of_nodup_append hn
  have hgone (hl : Leads C setup answers st) :
      ((proposeBlocks C cfg setup answers tokenId limit).exec st).2.queue.queue tokenId =
        (st.queue.queue tokenId).drop limit := by
    cases hv : ((proposeBlocks C cfg setup answers tokenId limit).exec st).1 with
    | error e => exact ((her e hv).resolve_left fun h => h.1 hl).2.1
    | ok commits => exact ((hok commits hv).resolve_left fun h => h.1 hl).2.1
  refine ⟨⟨fun hkp hl => ?_, fun hc i id hi hno => ?_⟩, fun commits st' hr => ?_⟩
  · have hret : ∀ id ∈ (st.queue.queue tokenId).take limit, ∃ commits,
        ((proposeBlocks C cfg setup answers tokenId limit).exec st).1 = .ok commits ∧
          id ∈ commits.map (·.txId) := by
      intro id hid
      by_contra hno
      obtain ⟨i, hi⟩ := mem_iff_getElem?.mp hid
      have hst := mem_of_getElem? (hkp i id hi fun commits hc hmem => hno ⟨commits, hc, hmem⟩)
      rw [hgone hl] at hst
      exact hdj hid hst
    cases hv : ((proposeBlocks C cfg setup answers tokenId limit).exec st).1 with
    | error e =>
      intro id hid
      obtain ⟨_, hc, -⟩ := hret id hid
      cases hv.symm.trans hc
    | ok commits =>
      rcases hok commits hv with ⟨hnl, -⟩ | ⟨-, -, -, hiff⟩
      · exact absurd hl hnl
      · refine hiff.mpr fun id hid => ?_
        obtain ⟨_, hc, hmem⟩ := hret id hid
        cases hv.symm.trans hc
        exact hmem
  · have hs : (st.queue.queue tokenId)[i]? = some id := by
      rw [getElem?_take] at hi
      split at hi
      · exact hi
      · cases hi
    cases hv : ((proposeBlocks C cfg setup answers tokenId limit).exec st).1 with
    | error e =>
      rcases her e hv with ⟨-, hq⟩ | ⟨hl, -, hnot⟩
      · rw [hq]
        exact hs
      · exact absurd (hc hl) hnot
    | ok commits =>
      rcases hok commits hv with ⟨-, -, hq⟩ | ⟨hl, -, -, hiff⟩
      · rw [hq]
        exact hs
      · exact absurd (hiff.mp (hc hl) id (mem_of_getElem? hi)) (hno commits hv)
  · rw [hr] at hok
    refine meets_waitsAgain_iff fun p hpm => ?_
    have hc : p.1 ∈ commits := fst_mem_of_mem_zipIdx hpm
    rcases hok commits rfl with ⟨-, rfl, -⟩ | ⟨-, hq, hin, -⟩
    · cases hc
    · rw [hq]
      exact hdj (hin _ hc)

/-- Two transactions wait, and the registry knows the first only. -/
def halfKnown : LeaderState := { sampleLeader ["t", "u"] with base := (sampleLeader ["t"]).base }

/-- The proposal fails at the second, and neither is in the queue again. Where the
registry knows both, the second is proposed, does not land and is gone. -/
theorem failed_proposal_loses :
    (((proposeBlocks namingCodec sampleCommitter sampleSetup (quietLoop.turn [7]) [7] 10).exec
        halfKnown).1 = .error (.core (.registry (.notFound "u"))) ∧
      ¬ KeepsUnreturned [7] 10 halfKnown ((proposeBlocks namingCodec sampleCommitter sampleSetup
        (quietLoop.turn [7]) [7] 10).exec halfKnown)) ∧
    ∃ commits st', (proposeBlocks namingCodec sampleCommitter sampleSetup (quietLoop.turn [7])
        [7] 10).exec (sampleLeader ["t", "u"]) = (.ok commits, st') ∧
      commits.map (·.txId) = ["t", "u"] ∧
      ¬ Meets (proposalStep namingCodec samplePrimitives sampleCommitter sampleSetup
          (quietLoop.turn [7])) (WaitsAgain namingCodec samplePrimitives sampleCommitter
            sampleSetup (quietLoop.turn [7]) [7]) st' commits.zipIdx := by
  refine ⟨⟨rfl, fun hk => ?_⟩, _, _, rfl, by decide +kernel, fun hm => ?_⟩
  · cases hk 0 "t" rfl fun c hc => by cases hc
  · have hw := hm.2.1 (by decide +kernel) (by decide +kernel)
    revert hw
    decide +kernel

/-- One transaction waits: it is returned, and its block lands. -/
theorem single_proposal_kept :
    KeepsUnreturned [7] 10 (sampleLeader ["t"]) ((proposeBlocks namingCodec sampleCommitter
        sampleSetup (quietLoop.turn [7]) [7] 10).exec (sampleLeader ["t"])) ∧
      ∃ commits st', (proposeBlocks namingCodec sampleCommitter sampleSetup (quietLoop.turn [7])
          [7] 10).exec (sampleLeader ["t"]) = (.ok commits, st') ∧
        commits.map (·.txId) = ["t"] ∧
        Meets (proposalStep namingCodec samplePrimitives sampleCommitter sampleSetup
          (quietLoop.turn [7])) (WaitsAgain namingCodec samplePrimitives sampleCommitter
            sampleSetup (quietLoop.turn [7]) [7]) st' commits.zipIdx := by
  have hq : ((sampleLeader ["t"]).queue.queue [7]).take 10 = ["t"] := by decide +kernel
  have hb := sampleLeader_leads hq (by decide +kernel)
  have hkey (id : String) (tx : Transaction)
      (hg : (sampleLeader ["t"]).base.pending.getTransaction id = .ok tx) : tx.id = id := by
    by_cases hid : id = "t"
    · rw [hid] at hg ⊢
      cases hg
      rfl
    · have hnone : (sampleLeader ["t"]).base.pending.lookup id = none :=
        (Finmap.lookup_insert_of_ne _ hid).trans (Finmap.lookup_empty _)
      rw [PendingRegistry.getTransaction, hnone] at hg
      cases hg
  have hiff := nothingLost_iff namingCodec samplePrimitives sampleCommitter sampleSetup
    (quietLoop.turn [7]) (sampleLeader ["t"]) [7] 10 hkey (by decide +kernel)
  refine ⟨hiff.1.mpr fun _ id hid => ?_, _, _, hb.proposeBlocks, by decide +kernel, ?_⟩
  · rw [hq] at hid
    obtain rfl := mem_singleton.mp hid
    exact ⟨rfl, _, rfl, rfl⟩
  · refine (hiff.2 _ _ hb.proposeBlocks).mpr ⟨fun hu => ⟨hb.ready_iff.mpr hu, ?_, emptyToken, ?_⟩,
      trivial⟩
    · exact fun c hc => by cases hc
    · exact hb.goesOn rfl

end Pneumatic
