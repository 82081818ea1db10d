import Pneumatic.Proofs.CommitTrace

/-!
# The two ways onto a chain

One block, once in a `Commit` and once in a `BlockFinalized`, on two Committers in
the same state. Only the Commit looks at the booking, the pending entry, the rivals
and the token's validator, debits the gas, applies the contract delta and saves the
token; only the gossip looks at the orphans that wait for the block.

So the two agree where neither takes the block, or where both do and nothing of that
is to be seen: no tip is rolled back and no block trimmed, no orphan follows, the
pool has no delta of a rival, no gas is debited, and the records hold already what
the Commit writes.
-/

namespace Pneumatic

open Handler HandlerM ShieldedPool Finmap List Option Records CommitterState

variable {C : Codec} {K : ContractCodec} {P : ShieldedPrimitives} {cfg : RecordsConfig}
  {around : Surroundings} {n n' : CommitterNode} {block : Block}
  {commitMessage gossipMessage : Message}

/-! ## The property -/

/-- The Commit of a block, in the name of its transaction. -/
def Block.asCommit (cfg : RecordsConfig) (block : Block) : TransactionCommit where
  transId := asBytes block.signedTrans.transaction.id
  tokenId := block.signedTrans.transaction.tokenId
  envId := cfg.environmentId
  proposedBlock := block

/-- The block in two messages that pass the authority checks. -/
structure BothAuthorised (C : Codec) (K : ContractCodec) (cfg : RecordsConfig)
    (around : Surroundings) (n : CommitterNode) (block : Block)
    (commitMessage gossipMessage : Message) : Prop where
  committed : C.decodeTransactionCommit commitMessage.body = some (block.asCommit cfg)
  commitSender : authenticateSender C (n.world C K cfg around Faults.none) commitMessage = .ok ()
  commitAuthority : commitAuthority C (n.world C K cfg around Faults.none)
    n.base.pending (block.asCommit cfg) commitMessage.publicKey = .ok ()
  gossiped : C.decodeBlock gossipMessage.body = some block
  gossipSender : authenticateSender C (n.world C K cfg around Faults.none) gossipMessage = .ok ()
  gossipAuthority : gossipAuthority C (n.world C K cfg around Faults.none)
    n.base.pending block gossipMessage.publicKey = .ok ()

section

variable (C : Codec) (K : ContractCodec) (P : ShieldedPrimitives) (cfg : RecordsConfig)
  (around : Surroundings) (n : CommitterNode)

def CommitterNode.handled (action : CommitterAction) (message : Message) :
    Except CommitterError Unit × CommitterNode :=
  (CommitterNode.handleMessage C K P cfg around Faults.none action message).exec n

/-- A block is accepted when the call succeeds and has put it on a chain; one that is
buffered is not. -/
def Accepts (result : Except CommitterError Unit × CommitterNode) : Prop :=
  result.1 = .ok () ∧ result.2.base.log ≠ n.base.log

/-- What one sees of a token: its chain, and of its contract the bytecode, the storage
and the owners. -/
def Token.view (token : Token) :
    List Block × Option (Bytes × Finmap (fun _ : Bytes => Bytes) × List Bytes) :=
  (token.chain, (token.getAsset K).map fun contract =>
    (contract.bytecode, contract.storage, contract.owners))

/-- Two nodes with equal tokens, in memory and in the records, equal pools and equal
balances. -/
structure SameOutcome (n' : CommitterNode) : Prop where
  cached : ∀ tokenId, (n.base.tokens.lookup tokenId).map (Token.view K) =
    (n'.base.tokens.lookup tokenId).map (Token.view K)
  stored : ∀ key, (n.records.tokens.lookup key).map (Token.view K) =
    (n'.records.tokens.lookup key).map (Token.view K)
  pool : n.base.pool = n'.base.pool
  balances : ∀ key, (n.records.users.lookup key).map User.fuelBalance =
    (n'.records.users.lookup key).map User.fuelBalance

/-- The block is accepted by both or by none, and then leaves the same. -/
def PathsAgree (commitMessage gossipMessage : Message) : Prop :=
  let committed := n.handled C K P cfg around .commit commitMessage
  let gossiped := n.handled C K P cfg around .blockFinalized gossipMessage
  (Accepts n committed ↔ Accepts n gossiped) ∧
    (Accepts n committed → SameOutcome K committed.2 gossiped.2)

/-! ## The condition -/

/-- A Commit of the block goes through. -/
structure CommitTakes (block : Block)
    (key : Bytes) (pool : ShieldedPool) (outcome : PoolApplyOutcome) (token : Token)
    (tx : Transaction) (written : Records) : Prop where
  named : block.currentHash ≠ []
  goes : GoesThrough C K P cfg around Faults.none n (block.asCommit cfg) key pool outcome
    token tx written

end

/-- The gossip path takes the block, and the orphans that follow it. -/
structure GossipTakes (C : Codec) (P : ShieldedPrimitives) (cfg : CommitterConfig)
    (world : CommitterWorld) (s : CommitterState) (block : Block) (token : Token)
    (pool : ShieldedPool) : Prop where
  cached : cachedToken world s.tokens block.signedTrans.transaction.tokenId = some token
  linked : links (cachedTip token.chain) block = true
  hashed : createHash C block = block.currentHash
  pooled : finalizedPool C P cfg world s.pool (block :: (s.replayed C world block).2) =
    (pool, .ok ())

/-- Nothing only one of the paths does is to be seen. -/
structure InStep (C : Codec) (K : ContractCodec) (cfg : RecordsConfig)
    (around : Surroundings) (n : CommitterNode) (block : Block) (token : Token)
    (tx : Transaction) (written : Records) : Prop where
  tipStays : token.defeatedTip (n.base.rollbackTarget (block.asCommit cfg)) = none
  room : token.securityLevel = token.chain.length → token.chain = []
  unawaited : ∀ chosen, ((n.base.orphans.dropExpired around.now).takeMatching
      block.signedTrans.transaction.tokenId block.currentHash around.now).2 =
        some chosen → createHash C chosen ≠ chosen.currentHash
  noRivalDelta : ∀ loser, n.base.rollbackTarget (block.asCommit cfg) = some loser →
    loser ∉ n.base.pool.state.appliedIndex ∧ (block.isShielded = true → loser ≠ block.currentHash)
  noDebit : ∀ gasUsed user, n.base.gas.lookup block.signedTrans.transaction.id = some gasUsed →
    n.records.users.lookup (cfg.tokenPartitionId, tx.sender) = some user →
    gasUsed = 0 ∨ user.fuelBalance = 0
  current : ∀ key, (written.tokens.lookup key).map (Token.view K) =
    (n.records.tokens.lookup key).map (Token.view K)

/-! ## What the Commit leaves -/

/-- What such a Commit leaves behind. -/
structure CommitLeft (C : Codec) (P : ShieldedPrimitives) (cfg : RecordsConfig)
    (n : CommitterNode) (commit : TransactionCommit) (pool : ShieldedPool) (token : Token)
    (tx : Transaction) (written : Records) (n' : CommitterNode) : Prop where
  tokens : n'.base.tokens = n.base.tokens.insert commit.tokenId
    (token.commitBlock C cfg.validators commit.proposedBlock (n.base.rollbackTarget commit)).1
  pool : n'.base.pool = pool.settled P (n.base.rollbackTarget commit)
  log : commit.landing C ∈ n'.base.log.drop n.base.log.length
  storedTokens : n'.records.tokens = written.tokens
  users : n'.records.users =
    (n.records.charged cfg n.base.gas commit.txId tx.sender).users

variable {commit : TransactionCommit} {rollback : Option Bytes} {token token' : Token}
  {tx : Transaction} {written : Records} {outcome : PoolApplyOutcome}
  {pool pool' : ShieldedPool}

theorem landing_mem_drop {log : List ChainEvent} :
    commit.landing C ∈ (landedLog C commit rollback token log).drop log.length := by
  unfold landedLog logCommit
  split
  · rw [drop_left]
    exact mem_cons_self
  · rw [drop_left]
    exact mem_cons_of_mem _ mem_cons_self

theorem Finishes.unique {faults : Faults} {written' : Records}
    (h : Finishes C K cfg around faults n commit token tx written)
    (h' : Finishes C K cfg around faults n commit token tx written') : written = written' :=
  Except.ok.inj (h.deltas.symm.trans h'.deltas)

theorem RecordedExit.left_of_goesThrough {faults : Faults}
    {key : Bytes} {verdict : Except CommitterError Unit}
    (h : RecordedExit C K P cfg around faults n commit key verdict n')
    (hg : GoesThrough C K P cfg around faults n commit key pool outcome token tx written) :
    verdict = .ok () ∧ CommitLeft C P cfg n commit pool token tx written n' := by
  cases verdict with
  | error e => exact absurd hg h.not_goesThrough
  | ok _ =>
    cases h with
    | finished hfr hp ha hh hf ht hu =>
      obtain ⟨rfl, rfl⟩ := hp.unique hg.pooled
      obtain rfl := ha.unique hg.appends
      obtain rfl := hh.unique hg.held
      obtain rfl := hf.unique hg.finishes
      exact ⟨rfl, rfl, rfl, landing_mem_drop, ht, hu⟩

section

variable (h : BothAuthorised C K cfg around n block commitMessage gossipMessage)

include h

theorem BothAuthorised.commit_exit (hp : PoolInv P n.base.pool) :
    let r := n.handled C K P cfg around .commit commitMessage
    (block.currentHash = [] ∧ r.1 ≠ .ok ()) ∨
      (block.currentHash ≠ [] ∧ RecordedExit C K P cfg around Faults.none n
        (block.asCommit cfg) commitMessage.publicKey r.1 r.2) := by
  refine ends_verdict (R := fun v n' =>
    (block.currentHash = [] ∧ v ≠ .ok ()) ∨
      (block.currentHash ≠ [] ∧ RecordedExit C K P cfg around Faults.none n
        (block.asCommit cfg) commitMessage.publicKey v n')).mp ?_
  simp only [CommitterNode.handleMessage, CommitterNode.handleCommit, ends_bind,
    ends_getState, ends_lift, ends_ofOption]
  refine ⟨fun _ _ => ⟨fun commit hd => ?_, fun hnn => ?_⟩, fun e hf => ?_⟩
  · obtain rfl := mem_unique h.committed hd
    refine ⟨fun _ hv => ⟨fun _ _ => ?_, fun e hf => ?_⟩, fun e hf => ?_⟩
    · have hn : block.currentHash ≠ [] := currentHash_ne_nil hv
      have hkey : blockKey C (block.asCommit cfg).proposedBlock =
          (block.asCommit cfg).proposedBlock.currentHash := blockKey_of_ne_nil hn
      have he : RecordedExit C K P cfg around Faults.none n (block.asCommit cfg)
          commitMessage.publicKey _ _ := recordedExit hp hkey _
      exact (ends_verdict.mpr he).mono (fun _ _ he => .inr ⟨hn, he⟩) (fun _ _ he => .inr ⟨hn, he⟩)
    · cases hf.symm.trans h.commitAuthority
    · refine .inl ⟨?_, fun hok => by cases hok⟩
      by_contra hn
      have hv : validateTransactionMessage cfg (block.asCommit cfg) = .ok () := by
        simp [validateTransactionMessage, Block.asCommit, hn]
      cases hf.symm.trans hv
  · cases hnn.symm.trans h.committed
  · cases hf.symm.trans h.commitSender

theorem BothAuthorised.commit_accepts_iff
    (hpl : PoolInv P n.base.pool) : Accepts n (n.handled C K P cfg around .commit commitMessage) ↔
      ∃ pool outcome token tx written, CommitTakes C K P cfg around n block
        commitMessage.publicKey pool outcome token tx written := by
  rcases h.commit_exit hpl with ⟨hem, hr⟩ | ⟨hn, he⟩
  · refine iff_of_false (fun ha => hr ha.1) ?_
    rintro ⟨pool, outcome, token, tx, written, ht⟩
    exact ht.named hem
  · generalize n.handled C K P cfg around .commit commitMessage = result at he ⊢
    obtain ⟨v, n'⟩ := result
    constructor
    · rintro ⟨hok, -⟩
      obtain rfl : v = .ok () := hok
      cases he with
      | finished hfr hp hap hh hf =>
        exact ⟨_, _, _, _, _, hn, hfr, hp, hap, hh, hf⟩
    · rintro ⟨pool, outcome, token, tx, written, ht⟩
      obtain ⟨hok, hl⟩ := he.left_of_goesThrough ht.goes
      refine ⟨hok, fun hlog => ?_⟩
      have hmem := hl.log
      rw [show n'.base.log = n.base.log from hlog, drop_length] at hmem
      cases hmem

theorem BothAuthorised.commit_left (hp : PoolInv P n.base.pool)
    (ht : CommitTakes C K P cfg around n block commitMessage.publicKey pool outcome
      token tx written) : CommitLeft C P cfg n (block.asCommit cfg) pool token tx written
      (n.handled C K P cfg around .commit commitMessage).2 := by
  rcases h.commit_exit hp with ⟨he, -⟩ | ⟨-, hex⟩
  · exact absurd he ht.named
  · exact (hex.left_of_goesThrough ht.goes).2

/-! ## What the gossip leaves -/

/-- The node after a gossiped block that is taken. -/
structure GossipLeft (C : Codec) (n : CommitterNode) (world : CommitterWorld)
    (block : Block) (token : Token) (pool : ShieldedPool) (n' : CommitterNode) :
    Prop where
  tokens : n'.base.tokens = n.base.tokens.insert block.signedTrans.transaction.tokenId
    (token.grown (block :: (n.base.replayed C world block).2))
  pool : n'.base.pool = pool
  storedTokens : n'.records.tokens = n.records.tokens
  users : n'.records.users = n.records.users

/-- When a gossiped block is accepted, and what it leaves then. -/
theorem BothAuthorised.gossip_accepts :
    (Accepts n (n.handled C K P cfg around .blockFinalized gossipMessage) →
      ∃ token pool, GossipTakes C P cfg
        (n.world C K cfg around Faults.none) n.base block token pool) ∧
    (∀ token pool, GossipTakes C P cfg
        (n.world C K cfg around Faults.none) n.base block token pool →
      Accepts n (n.handled C K P cfg around .blockFinalized gossipMessage) ∧
      GossipLeft C n (n.world C K cfg around Faults.none) block token pool
        (n.handled C K P cfg around .blockFinalized gossipMessage).2) := by
  obtain ⟨hv, hpr, hr⟩ : Simulates CommitterNode.base SameRecords
    (CommitterNode.handleMessage C K P cfg around Faults.none .blockFinalized
      gossipMessage) _ n := CommitterNode.simulates_gossip gossipMessage
  have he := gossipExit C P cfg (n.world C K cfg around Faults.none) n.base gossipMessage
  rw [← hv, ← hpr] at he
  unfold CommitterNode.handled
  generalize (CommitterNode.handleMessage C K P cfg around Faults.none .blockFinalized
    gossipMessage).exec n = result at he hr ⊢
  obtain ⟨v, n'⟩ := result
  obtain ⟨base', r'⟩ := n'
  cases he with
  | refused hnot =>
    refine ⟨fun ha => (by cases ha.1), fun token pool ht => ?_⟩
    exact absurd ⟨h.gossipSender, h.gossiped, h.gossipAuthority, ht.cached⟩ (hnot block token)
  | buffered hc hl =>
    obtain rfl := mem_unique h.gossiped hc.decoded
    refine ⟨fun ha => absurd rfl ha.2, fun token pool ht => ?_⟩
    obtain rfl := mem_unique hc.cached ht.cached
    cases hl.symm.trans ht.linked
  | misnamed hc hl hh =>
    obtain rfl := mem_unique h.gossiped hc.decoded
    refine ⟨fun ha => (by cases ha.1), fun token pool ht => ?_⟩
    exact absurd ht.hashed hh
  | @appended block' token pool _ hc hl hh hp =>
    obtain rfl := mem_unique h.gossiped hc.decoded
    constructor
    · rintro ⟨hok, -⟩
      obtain rfl : v = .ok () := hok
      exact ⟨token, pool, hc.cached, hl, hh, hp⟩
    · intro token' pool' ht
      obtain rfl := mem_unique hc.cached ht.cached
      obtain ⟨rfl, rfl⟩ := Prod.mk.inj (hp.symm.trans ht.pooled)
      refine ⟨⟨rfl, fun hlog => ?_⟩, rfl, rfl, hr.tokens, hr.users⟩
      have hln := congrArg length hlog
      simp [gossipedTo, grown, Pneumatic.gossiped] at hln

end

/-! ## Where the two differ -/

/-- The chains are equal only where the Commit rolls nothing back and trims nothing,
and no orphan follows. -/
theorem commitBlock_chain_eq_iff {validators : BlockValidators} {promoted : List Block}
    (ha : (token.rolled rollback).validateBlock C validators
      (Token.hashed C block) = .ok ()) (hh : createHash C block = block.currentHash) :
    (token.commitBlock C validators block rollback).1.chain =
        (token.grown (block :: promoted)).chain ↔ token.defeatedTip rollback = none ∧
        (token.securityLevel = token.chain.length → token.chain = []) ∧ promoted = [] := by
  have hs : Token.hashed C block = block := by
    rw [Token.hashed, hh]
  have hc : (token.commitBlock C validators block rollback).1.chain =
      (if (token.rolled rollback).securityLevel = (token.rolled rollback).chain.length
        then (token.rolled rollback).chain.drop 1
        else (token.rolled rollback).chain) ++ [block] := by
    simp only [Token.commitBlock, Token.commitBlockAs, ha, Token.keptChain, true_and]
    rw [hs]
  rw [hc]
  show _ = token.chain ++ block :: promoted ↔ _
  constructor
  · intro heq
    have hl := congrArg length heq
    simp only [length_append, length_cons, length_nil] at hl
    cases hd : token.defeatedTip rollback with
    | some loser =>
      -- without the loser the chain is too short
      have hne : token.chain ≠ [] := by
        intro hnil
        have hls := Token.getLast?_of_defeatedTip hd
        rw [hnil] at hls
        cases hls
      have hpos := length_pos_iff.mpr hne
      simp only [Token.rolled, hd] at hl
      split at hl
      · simp only [length_drop, length_dropLast] at hl
        omega
      · simp only [length_dropLast] at hl
        omega
    | none =>
      simp only [Token.rolled, hd] at hl
      split at hl
      · next hf =>
        rw [length_drop] at hl
        exact ⟨rfl, fun _ => length_eq_zero_iff.mp (by omega), length_eq_zero_iff.mp (by omega)⟩
      · next hr =>
        exact ⟨rfl, fun hf => absurd hf hr, length_eq_zero_iff.mp (by omega)⟩
  · rintro ⟨hd, hr, rfl⟩
    simp only [Token.rolled, hd]
    split
    · next hf => rw [hr hf]; rfl
    · rfl

/-- No orphan follows a block where none waits for it, or the oldest that does has a
wrong hash. -/
theorem replayed_eq_nil_iff {world : CommitterWorld} {s : CommitterState} :
    (s.replayed C world block).2 = [] ↔ ∀ c, ((s.orphans.dropExpired world.now).takeMatching
        block.signedTrans.transaction.tokenId block.currentHash world.now).2 =
          some c → createHash C c ≠ c.currentHash := by
  unfold replayed
  cases ht : (s.orphans.dropExpired world.now).takeMatching
      block.signedTrans.transaction.tokenId block.currentHash world.now with
  | mk b c =>
    cases c with
    | none =>
      rw [OrphanBuffer.replay_none ht]
      exact iff_of_true rfl fun _ h => by cases h
    | some c =>
      by_cases hh : createHash C c = c.currentHash
      · rw [OrphanBuffer.replay_some ht hh]
        refine iff_of_false (fun h => by cases h) fun h => h c rfl hh
      · rw [OrphanBuffer.replay_wrong ht hh]
        refine iff_of_true rfl fun c' heq => ?_
        obtain rfl := some.inj heq
        exact hh

/-- Settling the pool leaves it only where the loser has no delta there. -/
theorem settled_eq_self_iff (hp : PoolInv P pool) : pool.settled P rollback = pool ↔
      ∀ loser, rollback = some loser → loser ∉ pool.state.appliedIndex := by
  cases rollback with
  | none => exact iff_of_true rfl fun _ h => by cases h
  | some loser =>
    have hiff : (∀ loser', some loser = some loser' →
        loser' ∉ pool.state.appliedIndex) ↔ loser ∉ pool.state.appliedIndex := by
      simp
    rw [hiff]
    show (pool.revertUpdate P loser).1 = pool ↔ _
    rcases revertUpdate_cases hp loser with ⟨i, d, r, hr, heq⟩ | ⟨hnot, heq⟩
    · rw [heq]
      refine iff_of_false (fun hsm => ?_) (fun hnot => ?_)
      · have hl := congrArg length hr.content
        have hs : r = pool.state := congrArg ShieldedPool.state hsm
        rw [hs, length_map, length_map, length_eraseIdx] at hl
        have hlt := (List.getElem?_eq_some_iff.mp hr.getElem).1
        rw [if_pos hlt] at hl
        omega
      · exact hnot (mem_iff.mpr ⟨i, hr.lookup⟩)
    · rw [heq]
      exact iff_of_true rfl hnot

/-- The hashes the pool knows after it has taken a block. -/
theorem mem_appliedIndex_iff {env : EnvironmentMetadata} {hash : Bytes}
    (h : pool.applyUpdate C P env block = (pool', .ok outcome)) : hash ∈ pool'.state.appliedIndex ↔
      hash ∈ pool.state.appliedIndex ∨ (block.isShielded = true ∧ hash = blockKey C block) := by
  cases hstx : block.signedTrans.shielded with
  | none =>
    have hp : block.isShielded = false := by rw [Block.isShielded, hstx]; rfl
    simp only [applyUpdate, hstx] at h
    obtain rfl := (Prod.mk.inj h).1
    simp [hp]
  | some stx =>
    have hs : block.isShielded = true := by rw [Block.isShielded, hstx]; rfl
    by_cases hkey : blockKey C block ∈ pool.state.appliedIndex
    · simp only [applyUpdate, hstx, if_pos hkey] at h
      obtain rfl := (Prod.mk.inj h).1
      refine ⟨.inl, ?_⟩
      rintro (hmem | ⟨-, rfl⟩)
      · exact hmem
      · exact hkey
    · cases hc : validateShielded P env pool.ownDeps stx with
      | error e =>
        simp only [applyUpdate, hstx, if_neg hkey, hc] at h
        cases h
      | ok r =>
        obtain ⟨fs, -, hr⟩ := exists_round (C := C) hstx hkey hc
        obtain rfl := (Prod.mk.inj (hr.symm.trans h)).1
        show hash ∈ insert _ _ _ ↔ _
        rw [mem_insert, PoolState.appendLeaves_appliedIndex, or_comm]
        simp [hs]

theorem finalizedPool_singleton {world : CommitterWorld} {config : CommitterConfig}
    (hs : ∀ s, world.savePool s = true) :
    finalizedPool C P config world pool [block] = (pool', .ok ()) ↔
      ∃ outcome, pool.applyUpdate C P config.env block = (pool', .ok outcome) := by
  cases ha : pool.applyUpdate C P config.env block with
  | mk after v =>
    cases v with
    | error e => simp [finalizedPool, ha]
    | ok outcome =>
      cases outcome with
      | applied => simp [finalizedPool, ha, hs]
      | alreadyApplied | plain => simp [finalizedPool, ha]

/-- The gas debit does not show where there is none to debit from, or no gas. -/
theorem charged_balances_iff {records : Records} {gas : GasMap}
    {txId : String} {sender : Bytes} :
    (∀ key, ((records.charged cfg gas txId sender).users.lookup key).map
        User.fuelBalance = (records.users.lookup key).map User.fuelBalance) ↔
      ∀ gu user, gas.lookup txId = some gu →
        records.users.lookup (cfg.tokenPartitionId, sender) = some user →
        gu = 0 ∨ user.fuelBalance = 0 := by
  unfold charged
  split
  · next gu user hgas hu =>
    constructor
    · intro hs gu' user' hgas' hu'
      obtain rfl := mem_unique hgas hgas'
      obtain rfl := mem_unique hu hu'
      have hown := hs (cfg.tokenPartitionId, sender)
      rw [debited, lookup_insert, hu] at hown
      have hb : user.fuelBalance - gu = user.fuelBalance :=
        some.inj hown
      omega
    · intro hn key
      by_cases hkey : key = (cfg.tokenPartitionId, sender)
      · subst hkey
        have hb : user.fuelBalance - gu = user.fuelBalance := by
          rcases hn gu user hgas hu with hz | hz
          · rw [hz, Nat.sub_zero]
          · rw [hz, Nat.zero_sub]
        rw [debited, lookup_insert, hu, map_some, map_some, hb]
      · rw [debited, lookup_insert_of_ne _ hkey]
  · next hnot =>
    exact iff_of_true (fun _ => rfl) fun gu user hgas hu =>
      absurd hu (hnot gu user hgas)

theorem view_eq_iff (h : token.assetData = token'.assetData) :
    token.view K = token'.view K ↔ token.chain = token'.chain := by
  unfold Token.view Token.getAsset
  rw [h]
  exact ⟨fun heq => (Prod.mk.inj heq).1, fun heq => by rw [heq]⟩

theorem commitBlock_assetData {validators : BlockValidators} :
    (token.commitBlock C validators block rollback).1.assetData = token.assetData := by
  have hr : (token.rolled rollback).assetData = token.assetData := by
    unfold Token.rolled
    split <;> rfl
  rw [← hr]
  unfold Token.commitBlock Token.commitBlockAs
  dsimp only
  split
  · split <;> rfl
  · rfl

theorem insert_views_iff {tokens : TokenMap} {tokenId : Bytes} :
    (∀ id, ((tokens.insert tokenId token).lookup id).map (Token.view K) =
        ((tokens.insert tokenId token').lookup id).map (Token.view K)) ↔
      token.view K = token'.view K := by
  constructor
  · intro h
    have hown := h tokenId
    rw [lookup_insert, lookup_insert] at hown
    exact some.inj hown
  · intro h id
    by_cases hid : id = tokenId
    · rw [hid, lookup_insert, lookup_insert, map_some, map_some, h]
    · rw [lookup_insert_of_ne _ hid, lookup_insert_of_ne _ hid]

/-- Where both paths take the block, the two nodes show the same exactly when they are
in step. -/
theorem sameOutcome_iff_inStep {left right : CommitterNode} {key : Bytes}
    (hpo : PoolInv P n.base.pool)
    (hc : CommitTakes C K P cfg around n block key pool outcome token tx written)
    (hg : GossipTakes C P cfg (n.world C K cfg around Faults.none)
      n.base block token' pool')
    (hl : CommitLeft C P cfg n (block.asCommit cfg) pool token tx written left)
    (hr : GossipLeft C n (n.world C K cfg around Faults.none) block token' pool' right) :
    SameOutcome K left right ↔ InStep C K cfg around n block token tx written := by
  obtain rfl : token = token' :=
    mem_unique hc.goes.appends.lands.cached hg.cached
  have hcc : (∀ ti, (left.base.tokens.lookup ti).map (Token.view K) =
      (right.base.tokens.lookup ti).map (Token.view K)) ↔
        token.defeatedTip (n.base.rollbackTarget (block.asCommit cfg)) = none ∧
          (token.securityLevel = token.chain.length → token.chain = []) ∧
          (n.base.replayed C (n.world C K cfg around Faults.none) block).2 = [] := by
    rw [hl.tokens, hr.tokens]
    refine Iff.trans insert_views_iff ?_
    refine Iff.trans (view_eq_iff commitBlock_assetData) ?_
    exact commitBlock_chain_eq_iff hc.goes.appends.lands.accepted hg.hashed
  have hb : (∀ key, (left.records.users.lookup key).map User.fuelBalance =
      (right.records.users.lookup key).map User.fuelBalance) ↔
        ∀ gu user, n.base.gas.lookup block.signedTrans.transaction.id = some gu →
        n.records.users.lookup (cfg.tokenPartitionId, tx.sender) = some user →
        gu = 0 ∨ user.fuelBalance = 0 := by
    have hid : (block.asCommit cfg).txId =
        block.signedTrans.transaction.id := fromUtf8Lossy_asBytes _
    rw [hl.users, hr.users, hid]
    exact charged_balances_iff
  have hpl : (n.base.replayed C (n.world C K cfg around Faults.none) block).2 = [] →
      (left.base.pool = right.base.pool ↔
        ∀ loser, n.base.rollbackTarget (block.asCommit cfg) = some loser →
          loser ∉ n.base.pool.state.appliedIndex ∧
            (block.isShielded = true → loser ≠ block.currentHash)) := by
    intro hn
    have hp := hg.pooled
    rw [hn] at hp
    obtain ⟨outcome', ha'⟩ := (finalizedPool_singleton fun _ => rfl).mp hp
    have ha : n.base.pool.applyUpdate C P cfg.env block = (pool, .ok outcome) :=
      hc.goes.pooled.applied
    obtain rfl := (Prod.mk.inj (ha.symm.trans ha')).1
    rw [hl.pool, hr.pool, settled_eq_self_iff (hpo.applyUpdate_ok ha).1]
    refine forall₂_congr fun loser _ => ?_
    rw [mem_appliedIndex_iff ha, blockKey_of_ne_nil hc.named, not_or, not_and]
  have hst : (∀ key, (left.records.tokens.lookup key).map (Token.view K) =
      (right.records.tokens.lookup key).map (Token.view K)) ↔
        ∀ key, (written.tokens.lookup key).map (Token.view K) =
          (n.records.tokens.lookup key).map (Token.view K) := by
    rw [hl.storedTokens, hr.storedTokens]
  constructor
  · intro hsm
    obtain ⟨htip, hrm, hn⟩ := hcc.mp hsm.cached
    exact ⟨htip, hrm, replayed_eq_nil_iff.mp hn, (hpl hn).mp hsm.pool,
      hb.mp hsm.balances, hst.mp hsm.stored⟩
  · intro hs
    have hn : (n.base.replayed C (n.world C K cfg around Faults.none) block).2 = [] :=
      replayed_eq_nil_iff.mpr hs.unawaited
    exact ⟨hcc.mpr ⟨hs.tipStays, hs.room, hn⟩, hst.mpr hs.current,
      (hpl hn).mpr hs.noRivalDelta, hb.mpr hs.noDebit⟩

/-- The two paths agree on a block exactly when none of them takes it, or both do and
are in step. -/
theorem pathsAgree_iff (hpool : PoolInv P n.base.pool)
    (h : BothAuthorised C K cfg around n block commitMessage gossipMessage) :
    PathsAgree C K P cfg around n commitMessage gossipMessage ↔
      ((∀ pool outcome token tx written, ¬ CommitTakes C K P cfg around n block
          commitMessage.publicKey pool outcome token tx written) ∧
        (∀ token pool, ¬ GossipTakes C P cfg
          (n.world C K cfg around Faults.none) n.base block token pool)) ∨
      ∃ pool outcome token tx written pool',
        CommitTakes C K P cfg around n block commitMessage.publicKey pool outcome token tx written ∧
        GossipTakes C P cfg (n.world C K cfg around Faults.none) n.base
          block token pool' ∧ InStep C K cfg around n block token tx written := by
  have hc := h.commit_accepts_iff hpool
  obtain ⟨hgs, hg⟩ := h.gossip_accepts (P := P)
  constructor
  · rintro ⟨hac, hs⟩
    by_cases ha : Accepts n (n.handled C K P cfg around .commit commitMessage)
    · obtain ⟨pool, outcome, token, tx, written, ht⟩ := hc.mp ha
      obtain ⟨token', pool', ht'⟩ := hgs (hac.mp ha)
      obtain rfl : token = token' :=
        mem_unique ht.goes.appends.lands.cached ht'.cached
      refine .inr ⟨pool, outcome, token, tx, written, pool', ht, ht', ?_⟩
      exact (sameOutcome_iff_inStep hpool ht ht' (h.commit_left hpool ht)
        (hg token pool' ht').2).mp (hs ha)
    · refine .inl ⟨fun pool outcome token tx written ht => ?_, fun token pool ht => ?_⟩
      · exact ha (hc.mpr ⟨pool, outcome, token, tx, written, ht⟩)
      · exact ha (hac.mpr (hg token pool ht).1)
  · rintro (⟨hn, hn'⟩ | ⟨pool, outcome, token, tx, written, pool', ht, ht', hst⟩)
    · have hr : ¬ Accepts n (n.handled C K P cfg around .commit commitMessage) := by
        intro ha
        obtain ⟨pool, outcome, token, tx, written, ht⟩ := hc.mp ha
        exact hn pool outcome token tx written ht
      have hr' : ¬ Accepts n (n.handled C K P cfg around .blockFinalized gossipMessage) := by
        intro ha
        obtain ⟨token, pool, ht⟩ := hgs ha
        exact hn' token pool ht
      exact ⟨iff_of_false hr hr', fun ha => absurd ha hr⟩
    · have ha := hc.mpr ⟨pool, outcome, token, tx, written, ht⟩
      obtain ⟨ha', hrg⟩ := hg token pool' ht'
      exact ⟨iff_of_true ha ha', fun _ => (sameOutcome_iff_inStep hpool ht
        ht' (h.commit_left hpool ht) hrg).mpr hst⟩

/-! ## One block, twice -/

def twiceSent : Block := (plainCommit "m").proposedBlock

def twiceCodec : Codec := carrying (twiceSent.asCommit sampleRecords) twiceSent

def finalizerMessage : Message := ⟨[4], [], []⟩

/-- A token that no block is valid for. -/
def refusingRecords : RecordsConfig :=
  { sampleRecords with validators := fun _ => some fun _ _ => some [] }

def sentToken : Token := { emptyToken with chain := [twiceSent], sequenceNumber := 1 }

/-- A node that has the empty token in memory, while the records hold it with the
block on its chain. -/
def laggingNode : CommitterNode where
  base := { bootState with
    tokens := (∅ : Finmap fun _ : Bytes => Token).insert [7] emptyToken }
  records := bootNode.records.withToken sampleRecords [7] sentToken

def storedChain (result : Except CommitterError Unit × CommitterNode) : Option (List Block) :=
  (result.2.records.tokens.lookup ("tokens", [7])).map Token.chain

/-- Both paths accept the block, and only the Commit stores the token. Where the
validator refuses it, only the gossip accepts it. -/
theorem paths_disagree : storedChain (bootNode.handled twiceCodec sampleContracts samplePrimitives
        sampleRecords sampleSurroundings .commit finalizerMessage) = some [twiceSent] ∧
      storedChain (bootNode.handled twiceCodec sampleContracts samplePrimitives
        sampleRecords sampleSurroundings .blockFinalized finalizerMessage) = some [] ∧
      ¬ PathsAgree twiceCodec sampleContracts samplePrimitives sampleRecords
        sampleSurroundings bootNode finalizerMessage finalizerMessage ∧
      ¬ PathsAgree twiceCodec sampleContracts samplePrimitives refusingRecords
        sampleSurroundings bootNode finalizerMessage finalizerMessage := by
  refine ⟨by decide +kernel, by decide +kernel, fun h => ?_, fun h => ?_⟩
  · have hs := (h.2 ⟨by decide +kernel, by decide +kernel⟩).stored ("tokens", [7])
    exact absurd (congrArg (Option.map Prod.fst) hs) (by decide +kernel)
  · have hr := (h.1.mpr ⟨by decide +kernel, by decide +kernel⟩).1
    exact absurd hr (by decide +kernel)

/-- On the node whose records hold the block already the two paths agree. -/
theorem laggingNode_pathsAgree :
    PathsAgree twiceCodec sampleContracts samplePrimitives sampleRecords
      sampleSurroundings laggingNode finalizerMessage finalizerMessage := by
  -- the Commit writes the token that is there
  have hl : laggingNode.records.tokens.lookup ("tokens", [7]) = some sentToken :=
    lookup_insert _
  have hs : (laggingNode.records.withToken sampleRecords [7] sentToken).tokens =
      laggingNode.records.tokens := insert_eq_self_iff.mpr hl
  refine (pathsAgree_iff (PoolInv.new 10) ⟨rfl, by decide +kernel, by decide +kernel, rfl,
    by decide +kernel, by decide +kernel⟩).mpr (.inr
    ⟨bootState.pool, .plain, emptyToken, routedTransaction "m",
      laggingNode.records.withToken sampleRecords [7] sentToken, bootState.pool,
      ⟨by decide +kernel, ?_⟩, ?_, ?_⟩)
  · exact
      { free := ⟨⟨by decide +kernel, _, rfl, by decide +kernel⟩, fun c hc => by cases hc⟩
        pooled := ⟨rfl, fun h => by cases h⟩
        appends := ⟨rfl, ⟨by decide +kernel, by decide +kernel⟩⟩
        held := rfl
        finishes := ⟨rfl, .inl (by decide +kernel), fun gas h => (by cases h), rfl⟩ }
  · exact ⟨by decide +kernel, by decide +kernel, by decide +kernel, rfl⟩
  · exact
      { tipStays := by decide +kernel
        room := by decide +kernel
        unawaited := fun _ h => by cases h
        noRivalDelta := fun _ h => by cases h
        noDebit := fun _ _ h => by cases h
        current := fun key => by rw [hs] }

end Pneumatic
