import Pneumatic.Proofs.ChainInvariant

/-!
# Whose blocks are on a chain

A gossiped block goes on the chain of the token its transaction names. A Commit
names a token and a transaction beside the block, and nothing compares them with
the block's own: the block goes on the chain the message names, and the pending
entry, the gas record and the duplicate gate are those of the id the message
carries. Where the copies agree in every Commit, each block is on the chain of its
own token and everything its Commit used is its own transaction's.
-/

namespace Pneumatic

open Handler HandlerM List

variable {C : Codec} {P : ShieldedPrimitives} {cfg : CommitterConfig}
  {s : CommitterState} {d : CommitterDelivery}

section

variable (C : Codec) (cfg : CommitterConfig) (s : CommitterState) (d : CommitterDelivery)

/-- The block's transaction is of the token, or its shielded transfer is. -/
def Block.BelongsTo (block : Block) (tokenId : Bytes) : Prop :=
  block.signedTrans.transaction.tokenId = tokenId ∨
    ∃ stx, block.signedTrans.shielded = some stx ∧ stx.tokenId = tokenId

/-- Every block of the chain is the token's own. -/
def OwnChain (tokenId : Bytes) (token : Token) : Prop :=
  ∀ block ∈ token.chain, block.BelongsTo tokenId

/-- Every cached chain holds the token's own blocks only. -/
def OwnChains : Prop :=
  ∀ tokenId token, s.tokens.lookup tokenId = some token → OwnChain tokenId token

/-- Every block waits under its own token. -/
def OwnOrphans (buffer : OrphanBuffer) : Prop :=
  ∀ entry ∈ buffer.entries, entry.block.BelongsTo entry.tokenId

/-- So does every chain that is loaded while the message is handled. -/
def LoadsOwn : Prop :=
  ∀ tokenId token, d.world.getToken tokenId = some token → OwnChain tokenId token

/-- A Commit that passes the gates names the token and the transaction of its
block. -/
def CopiesAgree : Prop :=
  d.action = .commit → ∀ commit, CommitChecked C cfg d.world s d.message commit →
    commit.proposedBlock.BelongsTo commit.tokenId ∧ commit.txId =
        commit.proposedBlock.signedTrans.transaction.id

/-- What a Commit works with is its block's transaction's: the id under which the
pending entry and the gas record are read, and the transaction the contract deltas
are taken from. -/
def UsesOwn : Prop :=
  d.action = .commit → ∀ commit tx, CommitChecked C cfg d.world s d.message commit →
    HeldFor s.pending commit.txId commit tx →
    checkPayload C s commit.txId commit tx = .ok () →
    commit.txId = commit.proposedBlock.signedTrans.transaction.id ∧
      (adoptResult tx commit.proposedBlock.signedTrans.transaction).id =
        commit.proposedBlock.signedTrans.transaction.id

/-- The identity hash tells transactions of different ids apart. -/
def IdentityBindsId : Prop :=
  ∀ tx tx' : Transaction, tx.identityHash C = tx'.identityHash C → tx.id = tx'.id

end

namespace OrphanBuffer

variable {buffer buffer' : OrphanBuffer} {tokenId tip : Bytes} {now : Nat}

theorem mem_entries_insert {block : Block} {entry : BufferedBlock}
    (h : entry ∈ (buffer.insert tokenId block now).1.entries) :
    entry ∈ buffer.entries ∨ (entry.tokenId = tokenId ∧ entry.block = block) := by
  unfold insert at h
  dsimp only at h
  split at h
  · exact .inl (mem_of_mem_filter h)
  · rcases mem_append.mp h with hold | hnew
    · exact .inl (mem_of_mem_filter ((evictOldest_sublist _ _ _).subset hold))
    · rw [mem_singleton.mp hnew]
      exact .inr ⟨rfl, rfl⟩

theorem entries_takeMatching_sublist (buffer : OrphanBuffer) (tokenId tip : Bytes) (now : Nat) :
    (buffer.takeMatching tokenId tip now).1.entries.Sublist buffer.entries := by
  unfold takeMatching
  split
  · exact .refl _
  · exact eraseP_sublist

theorem entries_replay_sublist (turns : Nat) :
    (buffer.replay C now tokenId turns tip).1.entries.Sublist buffer.entries := by
  induction turns generalizing buffer tip with
  | zero => exact .refl _
  | succ turns ih =>
    have hd : (buffer.dropExpired now).entries.Sublist buffer.entries :=
      filter_sublist
    have ht := (entries_takeMatching_sublist (buffer.dropExpired now) tokenId tip now).trans hd
    cases h : (buffer.dropExpired now).takeMatching tokenId tip now with
    | mk buffer' c =>
      rw [h] at ht
      cases c with
      | none => rw [replay_none h]; exact ht
      | some c =>
        by_cases hh : createHash C c = c.currentHash
        · rw [replay_some h hh]
          exact ih.trans ht
        · rw [replay_wrong h hh]; exact ht

end OrphanBuffer

theorem Releasable.belongsTo {now : Nat} {buffer : OrphanBuffer} {tokenId tip : Bytes}
    {blocks : List Block} (h : Releasable C now buffer tokenId tip blocks)
    (hown : OwnOrphans buffer) : ∀ block ∈ blocks, block.BelongsTo tokenId := by
  intro block hb
  obtain ⟨entry, he, rfl⟩ := mem_map.mp (h.waiting.subset hb)
  obtain ⟨hmem, ht⟩ := mem_filter.mp he
  simp only [Bool.and_eq_true, beq_iff_eq] at ht
  rw [← ht.1]
  exact hown entry hmem

/-- A block that waits after a message waited before it, or is what it brings. -/
theorem mem_orphans_of_step {entry : BufferedBlock}
    (h : entry ∈ (committerStep C P cfg s d).orphans.entries) :
    entry ∈ s.orphans.entries ∨ d.action = .blockFinalized ∧ ∃ token,
      GossipChecked C d.world s d.message entry.block token ∧
        entry.tokenId = entry.block.signedTrans.transaction.tokenId := by
  revert h
  refine committerStep_induct (Q := fun s' => entry ∈ s'.orphans.entries → _)
    (fun _ {v s'} he h => ?_) (fun ha {v s'} he h => ?_)
  · cases he with
    | refused => exact .inl h
    | handled hc he =>
      rw [he.orphans_eq] at h
      exact .inl h
  · cases he with
    | refused | misnamed => exact .inl h
    | buffered hc hl =>
      rcases OrphanBuffer.mem_entries_insert h with hold | ⟨hid, rfl⟩
      · exact .inl hold
      · exact .inr ⟨ha, _, hc, hid⟩
    | appended => exact .inl ((OrphanBuffer.entries_replay_sublist _).subset h)

theorem OwnOrphans.step (h : OwnOrphans s.orphans) :
    OwnOrphans (committerStep C P cfg s d).orphans := by
  intro entry he
  rcases mem_orphans_of_step he with hold | ⟨-, token, -, hid⟩
  · exact h entry hold
  · rw [hid]
    exact .inl rfl

theorem Token.mem_commitBlock {validators : BlockValidators} {token : Token}
    {block b : Block} {rollback : Option Bytes}
    (h : (token.rolled rollback).validateBlock C validators (hashed C block) = .ok ())
    (hmem : b ∈ (token.commitBlock C validators block rollback).1.chain) :
    b ∈ token.chain ∨ b = hashed C block := by
  rw [commitBlock_of_accepted h] at hmem
  rcases mem_append.mp hmem with hold | hnew
  · left
    have hr : b ∈ (token.rolled rollback).chain := by
      unfold keptChain at hold
      split at hold
      · exact mem_of_mem_drop hold
      · exact hold
    rcases token.rolled_chain rollback with heq | heq
    · rw [← heq]; exact hr
    · rw [heq] at hr
      exact mem_of_mem_dropLast hr
  · exact .inr (mem_singleton.mp hnew)

theorem OwnChains.step (h : OwnChains s) (ho : OwnOrphans s.orphans)
    (hl : LoadsOwn d) (hag : CopiesAgree C cfg s d) :
    OwnChains (committerStep C P cfg s d) := by
  refine fun tokenId token => forall_cached_of_step OwnChain h hl
    (fun hac c token hown hc ha b hb => ?_)
    (fun _ block token hown _ _ _ b hb => ?_)
  · rcases Token.mem_commitBlock ha.lands.accepted hb with hold | rfl
    · exact hown b hold
    · exact (hag hac c hc).1
  · rcases mem_append.mp hb with hold | hnew
    · exact hown b hold
    · rcases mem_cons.mp hnew with rfl | hr
      · exact .inl rfl
      · exact (s.releasable_replayed C d.world block).belongsTo ho b hr

/-- The payload check leaves only the transaction on the wire, up to its result. -/
theorem usesOwn_of_agree (hb : IdentityBindsId C) (hag : CopiesAgree C cfg s d) :
    UsesOwn C cfg s d := by
  intro ha c tx hc _ hp
  refine ⟨(hag ha c hc).2, ?_⟩
  unfold checkPayload at hp
  dsimp only at hp
  split at hp
  · cases hp
  · next hi => exact hb tx _ (not_not.mp hi)

/-- The handler uses no other: a Commit that goes through has found a held transaction
under the id that `UsesOwn` speaks of, has debited the gas recorded under that id, and has
applied the deltas of the transaction with the result adopted. -/
theorem commit_uses {world : CommitterWorld} {commit : TransactionCommit} {key : Bytes}
    (h : ((checkAndCommitTransactionResults C P cfg world commit key).exec s).1 = .ok ()) :
    ∃ tx, HeldFor s.pending commit.txId commit tx ∧
      checkPayload C s commit.txId commit tx = .ok () ∧
      GasDebited world s.gas commit.txId tx.sender ∧
      applyDeltas world (adoptResult tx commit.proposedBlock.signedTrans.transaction)
        commit.proposedBlock.epochNumber = .ok () := by
  have he := commitExit C P cfg world s commit key
  generalize ((checkAndCommitTransactionResults C P cfg world commit key).exec s).2 = after at he
  rw [h] at he
  cases he with
  | finished hf hp ha hs hst hh hpd =>
    obtain ⟨tx, hh', hok⟩ := hf.ready.held
    rw [hh.unique hh'] at hpd
    exact ⟨tx, hh', hok, hpd⟩

/-- In a run in which the copies agree in every Commit, every block is on the chain
of its own token, and every Commit works with its own transaction's entry, gas
record and deltas. -/
theorem ownChains_of_copiesAgree {deliveries : List CommitterDelivery}
    (hbinds : IdentityBindsId C) (hchains : OwnChains s)
    (horphans : OwnOrphans s.orphans) (hloads : ∀ d ∈ deliveries, LoadsOwn d)
    (hagree : Run.Meets (committerStep C P cfg) (CopiesAgree C cfg) s deliveries) :
    OwnChains (Run.run (committerStep C P cfg) s deliveries) ∧
      ∀ pre d post, deliveries = pre ++ d :: post →
        UsesOwn C cfg (Run.run (committerStep C P cfg) s pre) d := by
  refine ⟨?_, fun pre d post hs => ?_⟩
  · have hend : OwnChains (Run.run (committerStep C P cfg) s deliveries) ∧
        OwnOrphans (Run.run (committerStep C P cfg) s deliveries).orphans :=
      Run.run_invariant (fun s d (h : OwnChains s ∧ OwnOrphans s.orphans) hg =>
          ⟨h.1.step h.2 hg.1 hg.2, h.2.step⟩)
        ⟨hchains, horphans⟩ ((Run.meets_of_forall hloads).and hagree)
    exact hend.1
  · exact usesOwn_of_agree hbinds (Run.meets_iff_forall.mp hagree pre d post hs)

/-- A first block of token `7`, in a Commit that names a token and an id. -/
def relabelled (tokenId : Bytes) (id : String) : TransactionCommit where
  transId := asBytes id
  tokenId := tokenId
  envId := "env"
  proposedBlock := firstBlock

/-- A codec in which every Commit is the given one and a transaction is its id. -/
def relabellingCodec (commit : TransactionCommit) : Codec :=
  { carrying commit firstBlock with rmpTransaction := fun tx => asBytes tx.id }

theorem relabellingCodec_binds (commit : TransactionCommit) :
    IdentityBindsId (relabellingCodec commit) :=
  fun _ _ h => asBytes_injective h

def relabelledRun (tokenId : Bytes) (id : String) : CommitterState :=
  Run.run (committerStep (relabellingCodec (relabelled tokenId id))
      ShieldedPool.samplePrimitives sampleCommitter)
    bootState [⟨obligingWorld, .commit, ⟨[4], [], []⟩⟩]

/-- The block of transaction `a` of token `7` is put on the chain of token `8` and
booked as transaction `z`. -/
theorem foreign_block_committed : firstBlock.signedTrans.transaction.tokenId = [7] ∧
      firstBlock.signedTrans.transaction.id = "a" ∧ firstBlock.signedTrans.shielded = none ∧
      ((relabelledRun [8] "z").tokens.lookup [8]).map Token.chain = some [firstBlock] ∧
      (relabelledRun [8] "z").committedTxs.lookup "z" = some (0, firstBlock.currentHash) ∧
      (relabelledRun [8] "z").committedTxs.lookup "a" = none := by
  decide +kernel

/-- Under its own name it goes where it belongs. -/
theorem own_block_committed : ((relabelledRun [7] "a").tokens.lookup [7]).map Token.chain =
        some [firstBlock] ∧ OwnChains (relabelledRun [7] "a") := by
  have hch : OwnChains bootState := by
    intro tokenId token h
    cases h
  refine ⟨rfl, ?_⟩
  refine (ownChains_of_copiesAgree (relabellingCodec_binds _) hch
    (fun entry h => by cases h) ?_ ?_).1
  · intro d hd tokenId token hl block hb
    obtain rfl := mem_singleton.mp hd
    obtain rfl := Option.some.inj hl
    cases hb
  · refine ⟨?_, trivial⟩
    intro _ commit hc
    obtain rfl : relabelled [7] "a" = commit := Option.some.inj hc.decoded
    exact ⟨.inl rfl, rfl⟩

end Pneumatic
