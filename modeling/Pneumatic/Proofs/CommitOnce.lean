import Pneumatic.Proofs.GossipOutcome

/-!
# One block per transaction

The Committer refuses a Commit whose transaction it has booked. The booking is
made under the id of the message at the very end of the Commit path, and the
gossip path neither reads nor makes one. So a transaction can end up in two
blocks: committed and then gossiped in another block, committed under two
message ids, or committed again after a failure between append and booking.

Where these do not happen it does not end up in two. The invariant is that the
standing blocks carry different transactions and that everything appended by a
Commit is booked.
-/

namespace Pneumatic

open Handler HandlerM Finmap List

variable {C : Codec} {P : ShieldedPrimitives} {cfg : CommitterConfig} {s : CommitterState}

def ChainEntry.txId (entry : ChainEntry) : String :=
  entry.block.signedTrans.transaction.id

/-- The transactions of the standing blocks, one for each append. -/
def standingTxIds (log : List ChainEvent) : List String :=
  (standing log).map ChainEntry.txId

/-- No transaction has two blocks standing. -/
def OneBlockPerTransaction (s : CommitterState) : Prop :=
  (standingTxIds s.log).Nodup

/-- And what a Commit has appended is booked while it stands. -/
structure BookedInv (P : ShieldedPrimitives) (s : CommitterState) : Prop where
  pool : UniqueInv P s.pool
  once : OneBlockPerTransaction s
  booked : ∀ entry ∈ standing s.log, entry.path = .commit → entry.txId ∈ s.committedTxs

/-- The condition on a Commit whose block the chain accepts. It names its
block's transaction, which no gossiped block has brought in; and nothing fails
between the append and the booking: the token is saved, the pool is saved where
a tip is rolled back, the gas is debited and the deltas apply. -/
structure OnceCommit (world : CommitterWorld) (s : CommitterState)
    (commit : TransactionCommit) : Prop where
  named : commit.txId = commit.proposedBlock.signedTrans.transaction.id
  notGossiped : ∀ entry ∈ standing s.log, entry.path = .gossip →
    entry.txId ≠ commit.proposedBlock.signedTrans.transaction.id
  tokenSaved : ∀ token, world.saveToken commit.tokenId token = true
  poolSaved : s.rollbackTarget commit ≠ none → ∀ snapshot, world.savePool snapshot = true
  finishes : ∀ tx, HeldFor s.pending commit.txId commit tx →
    let adopted := adoptResult tx commit.proposedBlock.signedTrans.transaction
    GasDebited world s.gas commit.txId adopted.sender ∧
      applyDeltas world adopted commit.proposedBlock.epochNumber = .ok ()

/-- The condition on the blocks a gossip can append: transactions that differ
from each other and from those of the standing blocks. -/
structure OnceGossip (s : CommitterState) (blocks : List Block) : Prop where
  distinct : (blocks.map fun block => block.signedTrans.transaction.id).Nodup
  fresh : ∀ block ∈ blocks, block.signedTrans.transaction.id ∉ standingTxIds s.log

/-- The condition on a message, in the state it meets. Messages that do not
reach a chain are free. -/
def OnceSafe (C : Codec) (cfg : CommitterConfig) (s : CommitterState)
    (d : CommitterDelivery) : Prop :=
  match d.action with
  | .commit => ∀ commit token, CommitAdmitted C cfg d.world s d.message commit →
    Lands C cfg d.world s.tokens commit (s.rollbackTarget commit) token →
    OnceCommit d.world s commit
  | .blockFinalized => ∀ block released, GossipAdmitted C d.world s d.message block →
    Releasable C d.world.now s.orphans block.signedTrans.transaction.tokenId
      block.currentHash released →
    OnceGossip s (block :: released)

theorem card_insert_le (m : Finmap (fun _ : String => Nat × Bytes))
    (txId : String) (booking : Nat × Bytes) :
    (m.insert txId booking).keys.card ≤ m.keys.card + 1 := by
  have hsub : (m.insert txId booking).keys ⊆ insert txId m.keys := by
    intro id hid
    rw [Finmap.mem_keys, mem_insert] at hid
    rw [Finset.mem_insert, Finmap.mem_keys]
    exact hid
  exact (Finset.card_le_card hsub).trans (Finset.card_insert_le _ _)

variable {world : CommitterWorld}

variable {s' : CommitterState}

theorem BookedInv.congr (h : BookedInv P s) (hp : UniqueInv P s'.pool) (hlog : s'.log = s.log)
    (hb : s'.committedTxs = s.committedTxs) : BookedInv P s' := by
  refine ⟨hp, ?_, ?_⟩
  · unfold OneBlockPerTransaction
    rw [hlog]
    exact h.once
  · rw [hlog, hb]
    exact h.booked

/-- A transaction that is neither booked nor gossiped is in no standing block. -/
theorem BookedInv.notMem {commit : TransactionCommit}
    (h : BookedInv P s) (hs : OnceCommit world s commit)
    (hnew : s.committedTxs.lookup commit.txId = none) :
    commit.proposedBlock.signedTrans.transaction.id ∉ standingTxIds s.log := by
  intro hmem
  obtain ⟨entry, he, hid⟩ := mem_map.mp hmem
  cases hp : entry.path with
  | gossip => exact hs.notGossiped entry he hp hid
  | commit =>
    have hb := h.booked entry he hp
    rw [hid, ← hs.named] at hb
    exact lookup_eq_none.mp hnew hb

theorem BookedInv.commit {commit : TransactionCommit} {rollback : Option Bytes} {token : Token}
    {booking : Nat × Bytes} (h : BookedInv P s) (hs : OnceCommit world s commit)
    (hnew : s.committedTxs.lookup commit.txId = none)
    (hpl : UniqueInv P s'.pool) (hlog : s'.log = landedLog C commit rollback token s.log)
    (hb : s'.committedTxs = s.committedTxs.insert commit.txId booking) :
    BookedInv P s' := by
  have hsub := afterRollback_sublist commit.tokenId (token.defeatedTip rollback) (standing s.log)
  refine ⟨hpl, ?_, ?_⟩
  · unfold OneBlockPerTransaction standingTxIds
    rw [hlog, standing_landedLog, map_cons, nodup_cons]
    refine ⟨fun hmem => h.notMem hs hnew ?_, h.once.sublist (hsub.map _)⟩
    exact (hsub.map _).subset hmem
  · intro entry he hp
    rw [hlog, standing_landedLog, mem_cons] at he
    rw [hb, mem_insert]
    rcases he with rfl | he
    · exact .inl hs.named.symm
    · exact .inr (h.booked entry (hsub.subset he) hp)

/-- Gossiped blocks of new transactions keep the invariant; they are not
Commits, so none has to be booked. -/
theorem BookedInv.gossip {tokenId : Bytes}
    {blocks : List Block} (h : BookedInv P s) (hs : OnceGossip s blocks)
    (hpl : UniqueInv P s'.pool) (hlog : s'.log = s.log ++ gossiped tokenId blocks)
    (hb : s'.committedTxs = s.committedTxs) : BookedInv P s' := by
  refine ⟨hpl, ?_, ?_⟩
  · unfold OneBlockPerTransaction standingTxIds
    rw [hlog, standing_append_gossiped, standing_gossiped, map_append, map_reverse, map_map]
    refine List.Nodup.append (nodup_reverse.mpr hs.distinct) h.once ?_
    intro id hid
    obtain ⟨block, hbl, rfl⟩ := mem_map.mp (mem_reverse.mp hid)
    exact hs.fresh block hbl
  · intro entry he hp
    rw [hlog, standing_append_gossiped, standing_gossiped, mem_append, mem_reverse] at he
    rw [hb]
    rcases he with he | he
    · obtain ⟨block, -, rfl⟩ := mem_map.mp he
      cases hp
    · exact h.booked entry he hp

/-- Of the ways out of a Commit the condition leaves those before the append, and the
one on which it is booked. -/
theorem BookedInv.exit {message : Message}
    {commit : TransactionCommit} {verdict : Except CommitterError Unit} (h : BookedInv P s)
    (hcr : s.committedTxs.keys.card < pruneThreshold)
    (hsf : ∀ token, CommitAdmitted C cfg world s message commit →
      Lands C cfg world s.tokens commit (s.rollbackTarget commit) token → OnceCommit world s commit)
    (hc : CommitChecked C cfg world s message commit)
    (he : CommitExit C P cfg world s commit message.publicKey verdict s') : BookedInv P s' := by
  have hkey := blockKey_of_ne_nil (C := C) (currentHash_ne_nil hc.valid)
  have hp : UniqueInv P s'.pool := by
    rcases he.pool_cases h.pool hkey with hsm | ⟨hs, -⟩
    · exact hsm.unique
    · exact hs.unique
  have ho : ∀ {token}, Uncontested C s commit message.publicKey →
      Appends C cfg world s commit token → OnceCommit world s commit :=
    fun hf ha =>
      hsf _ (hc.admitted hf.ready.unbooked) ha.lands
  cases he with
  | duplicate | untaken | mismatched | discarded | unpooled | unstored | unlanded =>
    exact h.congr hp rfl rfl
  | unsaved hf _ ha hun =>
    exact absurd ((ho hf ha).tokenSaved _) hun
  | unsettled hf hpl ha _ hu =>
    refine absurd (fun loser hl => ⟨?_, ?_⟩) hu
    · rcases (h.pool.taken_of_ok hkey hpl.applied).unique.revertUpdate loser with
        ⟨pool', heq, -⟩ | ⟨heq, -⟩
      · exact .inl (by rw [heq])
      · exact .inr ⟨loser, by rw [heq]⟩
    · refine (ho hf ha).poolSaved ?_ _
      rw [hl]
      exact Option.some_ne_none loser
  | unfinished hf _ ha _ _ hh hup =>
    exact absurd ((ho hf ha).finishes _ hh) hup
  | finished hf _ ha =>
    refine h.commit (ho hf ha) hf.ready.unbooked hp rfl (if_neg ?_)
    have hle := card_insert_le s.committedTxs commit.txId
      (commit.proposedBlock.epochNumber, commit.proposedBlock.currentHash)
    omega

theorem BookedInv.step (s : CommitterState) (d : CommitterDelivery) (h : BookedInv P s)
    (hd : s.committedTxs.keys.card < pruneThreshold ∧ OnceSafe C cfg s d) :
    BookedInv P (committerStep C P cfg s d) := by
  obtain ⟨hcr, hs⟩ := hd
  obtain ⟨world, a, m⟩ := d
  refine committerStep_induct (Q := BookedInv P) (fun ha {v s'} he => ?_)
    (fun ha {v s'} he => ?_)
  · obtain rfl : a = .commit := ha
    cases he with
    | refused => exact h
    | handled hc he =>
      exact h.exit hcr (fun token => hs _ token) hc he
  · obtain rfl : a = .blockFinalized := ha
    cases he with
    | refused | buffered | misnamed => exact h.congr h.pool rfl rfl
    | @appended block _ _ _ hc hl hh hp =>
      have hr := s.releasable_replayed C world block
      have hu := (takenAll_finalizedPool cfg world h.pool (hr.hashes_cons hh)).1
      rw [hp] at hu
      exact h.gossip (hs block _ (hc.admitted hl hh) hr) hu rfl rfl

theorem BookedInv.boot (h : s.Boot) : BookedInv P s := by
  refine ⟨.boot h, ?_, ?_⟩
  · unfold OneBlockPerTransaction
    rw [h.log]
    exact nodup_nil
  · rw [h.log]
    intro entry he
    cases he

/-- In every run of a Committer that stays below the prune threshold and whose
messages are all safe, no transaction is in two blocks, in any state reached. -/
theorem one_block_of_onceSafe (hboot : s.Boot) {ds : List CommitterDelivery}
    (hds : Run.Meets (committerStep C P cfg) (fun s d => s.committedTxs.keys.card < pruneThreshold ∧
        OnceSafe C cfg s d) s ds) : OneBlockPerTransaction (Run.run (committerStep C P cfg) s ds) :=
  (Run.run_invariant BookedInv.step (BookedInv.boot hboot) hds).once

/-- The Commit of a transaction "t" in a first block on the empty token. -/
def firstCommit : TransactionCommit where
  transId := asBytes "t"
  tokenId := [7]
  envId := "env"
  proposedBlock := blockOn [] (signedCarrier (routedTransaction "t") none)

def secondBlock (id : String) : Block :=
  blockOn firstCommit.proposedBlock.currentHash (signedCarrier (routedTransaction id) none)

def commitThenGossip : List CommitterDelivery :=
  [⟨obligingWorld, .commit, ⟨[4], [], []⟩⟩, ⟨obligingWorld, .blockFinalized, ⟨[4], [], []⟩⟩]

def afterBoth (id : String) : CommitterState :=
  Run.run (committerStep (carrying firstCommit (secondBlock id))
    ShieldedPool.samplePrimitives sampleCommitter) bootState commitThenGossip

/-- A transaction is committed and booked, and a gossiped block with the same
transaction is appended all the same; the token's chain holds both blocks. -/
theorem transaction_in_two_blocks : bootState.Boot ∧ "t" ∈ (afterBoth "t").committedTxs ∧
      ((afterBoth "t").tokens.lookup [7]).map Token.chain =
        some [firstCommit.proposedBlock, secondBlock "t"] ∧
      ¬ OneBlockPerTransaction (afterBoth "t") := by
  refine ⟨bootState_boot, by decide +kernel, rfl, ?_⟩
  unfold OneBlockPerTransaction
  decide +kernel

/-- The same two messages with a second transaction in the second block. -/
theorem one_block_of_second_transaction : standingTxIds (afterBoth "u").log = ["u", "t"] ∧
      OneBlockPerTransaction (afterBoth "u") := by
  refine ⟨rfl, one_block_of_onceSafe bootState_boot
    ⟨⟨by decide +kernel, ?_⟩, ⟨by decide +kernel, ?_⟩, trivial⟩⟩
  · intro commit token ha _
    obtain rfl : firstCommit = commit := Option.some.inj ha.decoded
    refine ⟨rfl, fun entry he => (by cases he), fun _ => rfl, fun _ _ => rfl, ?_⟩
    intro tx htx
    obtain rfl : tx = firstCommit.proposedBlock.signedTrans.transaction := htx
    exact ⟨fun gu hgas => (by cases hgas), rfl⟩
  · intro block r ha hr
    obtain rfl : secondBlock "u" = block := Option.some.inj ha.decoded
    obtain rfl := hr.eq_nil rfl
    exact ⟨by decide +kernel, by decide +kernel⟩

end Pneumatic
