import Pneumatic.Proofs.GossipOutcome

/-!
# Pool and chain in lockstep

The pool of a Committer records a delta per shielded block, and the blocks it
records should be the shielded blocks that stand on the chains. The two paths
update the two in opposite orders. A Commit applies the delta, appends, and
takes the delta out again when the append fails; a gossiped block is appended
with its orphans and the pool follows, up to the first refusal.

They come apart where the undo does not undo the append (the block is in memory
when its token cannot be saved), where the pool's key is not the chain's hash
(the pool takes the claimed one), where the rolled-back hash is still that of a
standing block, and where the pool refuses a gossiped block that is already on
the chain. Without these they stay together.
-/

namespace Pneumatic

open Handler HandlerM ShieldedPool List

variable {C : Codec} {P : ShieldedPrimitives} {cfg : CommitterConfig}
  {world : CommitterWorld} {s : CommitterState}

/-- The hashes of the shielded blocks among some appends. -/
def shieldedHashes (entries : List ChainEntry) : List Bytes :=
  (entries.filter fun entry => entry.block.isShielded).map fun entry => entry.block.currentHash

/-- The pool's history and the standing shielded blocks are the same set of
hashes. -/
def InLockstep (s : CommitterState) : Prop :=
  ∀ hash, hash ∈ s.pool.appliedHashes ↔ hash ∈ shieldedHashes (standing s.log)

variable {entries : List ChainEntry} {hash tokenId : Bytes} {s' : CommitterState}

theorem mem_shieldedHashes : hash ∈ shieldedHashes entries ↔
      ∃ entry ∈ entries, entry.block.isShielded = true ∧ entry.block.currentHash = hash := by
  simp only [shieldedHashes, mem_map, mem_filter, and_assoc]

theorem mem_shieldedHashes_cons {entry : ChainEntry} : hash ∈ shieldedHashes (entry :: entries) ↔
      (entry.block.isShielded = true ∧ entry.block.currentHash = hash) ∨
        hash ∈ shieldedHashes entries := by
  rw [mem_shieldedHashes, mem_shieldedHashes]
  simp only [mem_cons, exists_eq_or_imp]

theorem mem_shieldedHashes_append {more : List ChainEntry} :
    hash ∈ shieldedHashes (entries ++ more) ↔
      hash ∈ shieldedHashes entries ∨ hash ∈ shieldedHashes more := by
  simp only [shieldedHashes, filter_append, map_append, mem_append]

theorem mem_shieldedHashes_gossiped {blocks : List Block} :
    hash ∈ shieldedHashes (standing (gossiped tokenId blocks)) ↔
      ∃ b ∈ blocks, b.isShielded = true ∧ b.currentHash = hash := by
  rw [standing_gossiped, mem_shieldedHashes]
  simp only [mem_reverse, mem_map, exists_exists_and_eq_and]

/-- A rollback takes away no hash but that of the block it removes. -/
theorem mem_shieldedHashes_afterRollback {removed : Option Block}
    (h : ∀ tip ∈ removed, tip.isShielded = true → hash ≠ tip.currentHash) :
    hash ∈ shieldedHashes (afterRollback tokenId removed entries) ↔
      hash ∈ shieldedHashes entries := by
  cases removed with
  | none => rfl
  | some tip =>
    rw [mem_shieldedHashes, mem_shieldedHashes]
    constructor
    · rintro ⟨entry, he, hr⟩
      exact ⟨entry, mem_of_mem_eraseP he, hr⟩
    · rintro ⟨entry, he, hs, hh⟩
      refine ⟨entry, (mem_eraseP_of_neg ?_).mpr he, hs, hh⟩
      intro hof
      have hb : entry.block = tip := by
        simp only [ChainEntry.isOf, Bool.and_eq_true, beq_iff_eq] at hof
        exact hof.2
      rw [hb] at hs hh
      exact h tip rfl hs hh.symm

/-- The condition on a Commit whose block its token accepts. A shielded block
claims the hash it has; the token is saved when the block or the tip it removes
is shielded; and a hash that is rolled back is not the block's own, nor that of
a shielded block that stays. -/
structure LockstepCommit (C : Codec) (world : CommitterWorld)
    (log : List ChainEvent) (commit : TransactionCommit)
    (rollback : Option Bytes) (token : Token) : Prop where
  hash_eq : commit.proposedBlock.isShielded = true →
    createHash C commit.proposedBlock = commit.proposedBlock.currentHash
  saved : (commit.proposedBlock.isShielded = true ∨
      ∃ tip ∈ token.defeatedTip rollback, tip.isShielded = true) →
    ∀ token', world.saveToken commit.tokenId token' = true
  other : commit.proposedBlock.isShielded = true → rollback ≠ some commit.proposedBlock.currentHash
  defeated : ∀ loser, rollback = some loser → loser ∉ shieldedHashes (afterRollback commit.tokenId
      (token.defeatedTip rollback) (standing log))

/-- The condition on a message, in the state it meets: for a Commit the one
above, for a gossiped block that the pool takes it and whatever it can release.
Messages that do not reach a chain are free. -/
def LockstepSafe (C : Codec) (P : ShieldedPrimitives) (cfg : CommitterConfig)
    (s : CommitterState) (d : CommitterDelivery) : Prop :=
  match d.action with
  | .commit => ∀ commit token, CommitAdmitted C cfg d.world s d.message commit →
    Lands C cfg d.world s.tokens commit (s.rollbackTarget commit) token →
    LockstepCommit C d.world s.log commit (s.rollbackTarget commit) token
  | .blockFinalized => ∀ block released, GossipAdmitted C d.world s d.message block →
    Releasable C d.world.now s.orphans block.signedTrans.transaction.tokenId
      block.currentHash released →
    PoolTakes C P cfg.env d.world s.pool (block :: released)

/-- The pool has the blocks of the chains, each once. -/
structure LockstepInv (P : ShieldedPrimitives) (s : CommitterState) : Prop where
  unique : UniqueInv P s.pool
  lockstep : InLockstep s

/-- The invariant depends on the pool's hashes and the log. -/
theorem LockstepInv.same (h : LockstepInv P s)
    (hp : SameHashes P s.pool s'.pool) (hlog : s'.log = s.log) : LockstepInv P s' := by
  refine ⟨hp.unique, fun hash => ?_⟩
  rw [hp.mem_iff, hlog]
  exact h.lockstep hash

theorem LockstepInv.congr (h : LockstepInv P s)
    (hp : s'.pool = s.pool) (hlog : s'.log = s.log) : LockstepInv P s' :=
  h.same (by rw [hp]; exact h.unique.refl) hlog

theorem LockstepInv.committed
    {commit : TransactionCommit} {rollback : Option Bytes} {token : Token} (h : LockstepInv P s)
    (hsf : LockstepCommit C world s.log commit rollback token)
    (hp : Settled P commit.proposedBlock rollback s.pool s'.pool)
    (hlog : s'.log = landedLog C commit rollback token s.log) : LockstepInv P s' := by
  refine ⟨hp.unique, fun hash => ?_⟩
  rw [hp.mem_iff, hlog, standing_landedLog, mem_shieldedHashes_cons]
  by_cases hl : rollback = some hash
  · -- the rolled-back hash is gone on both sides
    refine ⟨fun hin => absurd hl hin.2, ?_⟩
    rintro (⟨hs, hh⟩ | hold)
    · have hc := (hsf.hash_eq hs).symm.trans hh
      exact absurd (hc ▸ hl) (hsf.other hs)
    · exact absurd hold (hsf.defeated hash hl)
  · -- every other hash is kept by the rollback
    have ho : ∀ tip ∈ token.defeatedTip rollback, tip.isShielded = true →
        hash ≠ tip.currentHash := by
      intro tip htip _ heq
      exact hl (heq ▸ Token.rollback_of_defeatedTip htip)
    rw [mem_shieldedHashes_afterRollback ho, ← h.lockstep hash]
    constructor
    · rintro ⟨hold | ⟨hs, rfl⟩, -⟩
      · exact .inr hold
      · exact .inl ⟨hs, hsf.hash_eq hs⟩
    · rintro (⟨hs, hh⟩ | hold)
      · exact ⟨.inr ⟨hs, (hsf.hash_eq hs).symm.trans hh⟩, hl⟩
      · exact ⟨.inl hold, hl⟩

/-- A Commit whose token could not be saved: the block is on the chain, so it
must not be a shielded one. -/
theorem LockstepInv.unsaved {commit : TransactionCommit}
    {rollback : Option Bytes} {token token' : Token} (h : LockstepInv P s)
    (hsf : LockstepCommit C world s.log commit rollback token)
    (hsa : world.saveToken commit.tokenId token' ≠ true) (hpl : SameHashes P s.pool s'.pool)
    (hlog : s'.log = landedLog C commit rollback token s.log) : LockstepInv P s' := by
  have hp := mt hsf.saved fun hsv => hsa (hsv token')
  push Not at hp
  obtain ⟨hb, hr⟩ := hp
  refine ⟨hpl.unique, fun hash => ?_⟩
  rw [hpl.mem_iff, hlog, standing_landedLog, mem_shieldedHashes_cons,
    mem_shieldedHashes_afterRollback fun tip htip hs => absurd hs (hr tip htip), ← h.lockstep hash]
  constructor
  · exact .inr
  · rintro (⟨hs, -⟩ | hold)
    · exact absurd hs hb
    · exact hold

theorem LockstepInv.gossip {blocks : List Block} (h : LockstepInv P s)
    (hp : TakenAll P blocks s.pool s'.pool)
    (hlog : s'.log = s.log ++ gossiped tokenId blocks) : LockstepInv P s' := by
  refine ⟨hp.unique, fun hash => ?_⟩
  rw [hp.mem_iff, hlog, standing_append_gossiped, mem_shieldedHashes_append,
    mem_shieldedHashes_gossiped, ← h.lockstep hash, or_comm]

theorem LockstepInv.step (s : CommitterState) (d : CommitterDelivery)
    (h : LockstepInv P s) (hsf : LockstepSafe C P cfg s d) :
    LockstepInv P (committerStep C P cfg s d) := by
  obtain ⟨world, a, m⟩ := d
  refine committerStep_induct (Q := LockstepInv P) (fun ha {v s'} he => ?_)
    (fun ha {v s'} he => ?_)
  · obtain rfl : a = .commit := ha
    cases he with
    | refused => exact h
    | @handled c _ _ hc he =>
      have hkey := blockKey_of_ne_nil (C := C) (currentHash_ne_nil hc.valid)
      rcases he.landing_cases h.unique hkey with
        ⟨hs, hlog⟩ | ⟨token, hu, hl, hlog, hp⟩
      · exact h.same hs hlog
      · have hcm := hsf c token (hc.admitted hu) hl
        rcases hp with ⟨hs, token', hun⟩ | hst
        · exact h.unsaved hcm hun hs hlog
        · exact h.committed hcm hst hlog
  · obtain rfl : a = .blockFinalized := ha
    cases he with
    | refused | buffered | misnamed => exact h.congr rfl rfl
    | @appended block _ _ _ hc hln hh hp =>
      have hr := s.releasable_replayed C world block
      have ht := hsf block _ (hc.admitted hln hh) hr
      have hall := (takenAll_finalizedPool cfg world h.unique (hr.hashes_cons hh)).2 ht
      rw [hp] at hall
      exact h.gossip hall rfl

theorem LockstepInv.boot (h : s.Boot) : LockstepInv P s := by
  refine ⟨.boot h, fun hash => ?_⟩
  obtain ⟨w, hp⟩ := h.pool
  rw [hp, h.log]
  exact Iff.rfl

/-- In every run of a Committer whose messages are all safe, the pool records
exactly the shielded blocks that stand on the chains, in every state reached. -/
theorem lockstep_of_safe (hboot : s.Boot) {ds : List CommitterDelivery}
    (hds : Run.Meets (committerStep C P cfg) (LockstepSafe C P cfg) s ds) :
    InLockstep (Run.run (committerStep C P cfg) s ds) :=
  (Run.run_invariant LockstepInv.step (LockstepInv.boot hboot) hds).lockstep

/-- A first block on the empty token with a transfer against a given root. -/
def transferBlock (root : Bytes32) : Block :=
  blockOn [] (signedCarrier (routedTransaction "t")
    (some (sampleTransfer [7] (.ofNat 5) (.ofNat 6) (.ofNat 7) root)))

def transferCommit (root : Bytes32) : TransactionCommit where
  transId := asBytes "t"
  tokenId := [7]
  envId := "env"
  proposedBlock := transferBlock root

/-- A Committer with the transfer in its pending registry. -/
def pooledState (root : Bytes32) : CommitterState :=
  { bootState with
    shielded := Finmap.singleton "t"
      (sampleTransfer [7] (.ofNat 5) (.ofNat 6) (.ofNat 7) root) }

theorem pooledState_boot (root : Bytes32) : (pooledState root).Boot where
  committedTxs := rfl
  candidates := rfl
  orphans := rfl
  pool := ⟨10, rfl⟩
  log := rfl

def afterTransfer (root : Bytes32) (world : CommitterWorld)
    (action : CommitterAction) : CommitterState :=
  Run.run (committerStep (carrying (transferCommit root) (transferBlock root))
      samplePrimitives sampleCommitter)
    (pooledState root) [⟨world, action, ⟨[4], [], []⟩⟩]

/-- A gossiped block that proves against a root the pool never had is refused
by the pool and stays on the chain; so does a committed block whose token cannot
be saved, with its delta taken out of the pool again. -/
theorem lockstep_lost : (pooledState (.ofNat 99)).Boot ∧
      ((afterTransfer (.ofNat 99) obligingWorld .blockFinalized).tokens.lookup
        [7]).map Token.chain = some [transferBlock (.ofNat 99)] ∧
      ¬ InLockstep (afterTransfer (.ofNat 99) obligingWorld .blockFinalized) ∧
      ¬ InLockstep (afterTransfer (toRepr 0)
        { obligingWorld with saveToken := fun _ _ => false } .commit) := by
  refine ⟨pooledState_boot _, rfl, fun h => ?_, fun h => ?_⟩
  · exact absurd ((h (transferBlock (.ofNat 99)).currentHash).mpr
      (by decide +kernel)) (by decide +kernel)
  · exact absurd ((h (transferBlock (toRepr 0)).currentHash).mpr
      (by decide +kernel)) (by decide +kernel)

/-- The Commit of a block the pool takes, with its token saved. -/
theorem lockstep_of_transfer :
    (afterTransfer (toRepr 0) obligingWorld .commit).pool.appliedHashes = [[7]] ∧
      InLockstep (afterTransfer (toRepr 0) obligingWorld .commit) := by
  refine ⟨by decide +kernel, lockstep_of_safe (pooledState_boot _)
    ⟨fun commit token ha _ => ?_, trivial⟩⟩
  obtain rfl : transferCommit (toRepr 0) = commit :=
    Option.some.inj ha.decoded
  refine ⟨fun _ => rfl, fun _ _ => rfl, fun _ hl => ?_, fun loser hl => ?_⟩
  · cases hl
  · cases hl

end Pneumatic
