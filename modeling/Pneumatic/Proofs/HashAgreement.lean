import Pneumatic.Proofs.Slashing

/-!
# One hash for a committed block

`Token::commit_block` stores a block under the hash it recomputes. The booking,
the pending entry, the candidate and the pool keep the hash the block came with:
the one claimed on the wire, which nothing compares, or the empty one of a
leader's proposal. The gossip path refuses a block that does not claim its
recomputed hash; the Commit path does not.

Where every Commit claims the recomputed hash and the leader proposes nothing, the
four copies and the chain agree in every state reached.
-/

namespace Pneumatic

open Handler HandlerM Run ShieldedPool Finmap List

variable {C : Codec} {P : ShieldedPrimitives} {cfg : CommitterConfig}
  {setup : LeaderSetup} {world : CommitterWorld} {st : LeaderState}

section

variable (C : Codec) (setup : LeaderSetup) (st : LeaderState)

/-- A block of the transaction was committed, and the chain got it under this
hash. -/
def StoredUnder (txId : String) (hash : Bytes) : Prop :=
  ∃ call ∈ st.calls, call.commit.txId = txId ∧ call.commit.landing C ∈ st.base.log ∧
    (Token.hashed C call.commit.proposedBlock).currentHash = hash

/-- What is recorded about a committed block names the block the chain got. -/
structure HashesAgree : Prop where
  booked : ∀ txId booking, st.base.committedTxs.lookup txId = some booking →
    StoredUnder C st txId booking.2
  pending : ∀ txId entry tx hash, st.base.pending.lookup txId = some entry →
    entry.state = .committed tx hash → StoredUnder C st txId hash
  candidates : ∀ position, ∀ c ∈ st.base.candidatesAt position,
    .appended ⟨position.1, Token.hashed C c.1, .commit⟩ ∈ st.base.log →
      c.1.currentHash = (Token.hashed C c.1).currentHash
  pool : ∀ hash ∈ st.base.pool.appliedHashes, ∃ entry, .appended entry ∈ st.base.log ∧
    entry.block.isShielded = true ∧ entry.block.currentHash = hash

/-- A Committer at boot that has made no call, with no entry `Committed`. -/
structure LeaderState.Fresh : Prop where
  boot : st.base.Boot
  calls : st.calls = []
  pending : ∀ txId entry tx hash, st.base.pending.lookup txId = some entry →
    entry.state ≠ .committed tx hash

/-- The node does not lead, and on its stakes and its tip would not be selected. -/
structure NotLeading : Prop where
  now : st.isLeader setup = false
  next : ∀ number, setup.select st.base.stakes number
    (canonicalChainTip C st.base.tokens) ≠ setup.publicKey

/-- Every transaction that waits for the token is a Finalizer's. -/
def AllRouted (tokenId : Bytes) : Prop :=
  ∀ txId ∈ st.queue.queue tokenId, ∀ tx,
    st.base.pending.getTransaction txId = .ok tx → tx.selection ≠ none

/-- The condition on an input, in the state it meets. -/
def HashSafe : LeaderInput → Prop
  | .message d => d.action = .commit ∧
    ∀ commit, C.decodeTransactionCommit d.message.body = some commit →
      createHash C commit.proposedBlock = commit.proposedBlock.currentHash
  | .epochLoop _ => NotLeading C setup st ∨ ∀ tokenId ∈ st.base.tokens, AllRouted st tokenId
  -- the other roles turn no entry `Committed`
  | .elsewhere e => ∀ txId entry tx hash, e.pending.lookup txId = some entry →
    entry.state = .committed tx hash → ∃ before,
      st.base.pending.lookup txId = some before ∧ before.state = .committed tx hash

end

/-- The hashes agree, those of the candidates too. -/
structure HashInv (C : Codec) (P : ShieldedPrimitives) (st : LeaderState) : Prop where
  agree : HashesAgree C st
  unique : UniqueInv P st.base.pool
  claimed : ∀ position, ∀ c ∈ st.base.candidatesAt position, createHash C c.1 = c.1.currentHash

variable {st' : LeaderState}

theorem HashInv.fresh (h : st.Fresh) : HashInv C P st := by
  have hn : ∀ p, st.base.candidatesAt p = [] := by
    intro p
    rw [CommitterState.candidatesAt, h.boot.candidates, lookup_empty]
    rfl
  refine ⟨⟨?_, ?_, ?_, ?_⟩, .boot h.boot, ?_⟩
  · intro txId b hb
    rw [h.boot.committedTxs, lookup_empty] at hb
    cases hb
  · intro txId entry tx hash he hs
    exact absurd hs (h.pending txId entry tx hash he)
  · intro p c hc
    rw [hn] at hc
    cases hc
  · intro hash hmem
    obtain ⟨w, hp⟩ := h.boot.pool
    rw [hp] at hmem
    cases hmem
  · intro p c hc
    rw [hn] at hc
    cases hc

/-- A call keeps the agreement when its block claims the recomputed hash. -/
theorem HashInv.commitCall (h : HashInv C P st) {own : Bool}
    {commit : TransactionCommit} {key : Bytes}
    (hcl : createHash C commit.proposedBlock = commit.proposedBlock.currentHash) :
    HashInv C P ((Pneumatic.commitCall C P cfg world own commit key).exec st).2 := by
  have he := commitExit C P cfg { world with currentEpochNumber := st.epochNumber }
    st.base commit key
  have hef : CommitEffect C P cfg
      { world with currentEpochNumber := st.epochNumber } st.base commit key _ :=
    commitEffect commit key
  generalize hst' : ((Pneumatic.commitCall C P cfg world own commit key).exec st).2 = st'
  have hbs : ((checkAndCommitTransactionResults C P cfg
      { world with currentEpochNumber := st.epochNumber } commit key).exec
        st.base).2 = st'.base := by
    rw [← hst']
    rfl
  have hcs : st'.calls = st.calls ++ [⟨commit, key, own, st.base, st'.base.stakes⟩] := by
    rw [← hst']
    rfl
  rw [hbs] at he hef
  have hk : ∀ {txId hash}, StoredUnder C st txId hash → StoredUnder C st' txId hash := by
    rintro txId hash ⟨call, hca, hid, hl, hh⟩
    refine ⟨call, ?_, hid, he.mem_log hl, hh⟩
    rw [hcs]
    exact mem_append_left _ hca
  -- what the call itself recorded
  have hnew : commit.landing C ∈ st'.base.log → StoredUnder C st'
      commit.txId commit.proposedBlock.currentHash := by
    intro hl
    refine ⟨⟨commit, key, own, st.base, st'.base.stakes⟩, ?_, rfl, hl, hcl⟩
    rw [hcs]
    exact mem_append_right _ mem_cons_self
  have hcm : ∀ p, ∀ c ∈ st'.base.candidatesAt p,
      createHash C c.1 = c.1.currentHash := by
    intro p c hc
    rcases hef.mem_candidatesAt hc with hc | ⟨-, rfl⟩
    · exact h.claimed p c hc
    · exact hcl
  have hkp : ∀ hash ∈ st.base.pool.appliedHashes, ∃ entry,
      .appended entry ∈ st'.base.log ∧ entry.block.isShielded = true ∧
        entry.block.currentHash = hash := by
    intro hash hmem
    obtain ⟨entry, hlg, hbl⟩ := h.agree.pool hash hmem
    exact ⟨entry, he.mem_log hlg, hbl⟩
  have hp := he.pool_cases h.unique (blockKey_of_createHash hcl)
  refine ⟨⟨?_, ?_, ?_, ?_⟩, ?_, hcm⟩
  · intro txId b hb
    rcases he.booked_cases hb with hold | ⟨rfl, hh, hl⟩
    · exact hk (h.agree.booked txId b hold)
    · rw [hh]
      exact hnew hl
  · intro txId entry tx hash hen hsta
    rcases he.committed_cases hen hsta with
      ⟨before, hbf, hct⟩ | ⟨rfl, rfl, hl⟩
    · exact hk (h.agree.pending txId before tx hash hbf hct)
    · exact hnew hl
  · exact fun p c hc _ => (hcm p c hc).symm
  · intro hash hmem
    rcases hp with hsm | ⟨hs, hl⟩
    · exact hkp hash ((hsm.mem_iff hash).mp hmem)
    · rcases ((hs.mem_iff hash).mp hmem).1 with hold | ⟨hsh, rfl⟩
      · exact hkp hash hold
      · exact ⟨_, hl, hsh, hcl⟩
  · rcases hp with hsm | ⟨hs, -⟩
    · exact hsm.unique
    · exact hs.unique

theorem NotLeading.led {tokenId : Bytes} (h : NotLeading C setup st) (hs : TurnStart tokenId st st')
    (hled : Led C setup st st') : NotLeading C setup st' := by
  refine ⟨?_, fun n => ?_⟩
  · rcases hled with hk | ⟨c, ha⟩
    · have hnow := h.now
      unfold LeaderState.isLeader at hnow ⊢
      rw [hk]
      exact hnow
    · have hn := h.next (c.currentEpoch.epochNumber + 1)
      unfold LeaderState.isLeader EpochBoundaryDetector.currentLeader
      rw [ha]
      dsimp only [EpochBoundaryDetector.advanceToNewEpoch]
      split
      · rfl
      · exact beq_eq_false_iff_ne.mpr fun heq => hn (Option.some.inj heq)
  · rw [hs.base]
    exact h.next n

theorem AllRouted.of_queue {tokenId : Bytes} (h : AllRouted st tokenId) (hb : st'.base = st.base)
    (hq : st'.queue.queue tokenId = st.queue.queue tokenId) : AllRouted st' tokenId := by
  unfold AllRouted
  rw [hb, hq]
  exact h

/-- Turns in which nothing is proposed leave the Committer and the history. -/
theorem epochTurns_idle {limit : Nat} {turn : Bytes → TurnWorld} {ids : List Bytes}
    (hn : ids.Nodup) (h : NotLeading C setup st ∨ ∀ tokenId ∈ ids, AllRouted st tokenId) :
    Keeps (Pneumatic.epochTurns C P cfg setup limit turn ids) st fun st' =>
      st'.base = st.base ∧ st'.calls = st.calls := by
  induction ids generalizing st with
  | nil => exact ⟨rfl, rfl⟩
  | cons tokenId rest ih =>
    obtain ⟨hnm, hrs⟩ := nodup_cons.mp hn
    simp only [Pneumatic.epochTurns, Pneumatic.epochTurn, Keeps, ends_bind]
    refine ends_proposeBlocks (fun c st' hs hled _ hp => ?_)
      (fun e st' hs _ => ⟨hs.base, hs.calls⟩)
    have hnx : NotLeading C setup st' ∨ ∀ other ∈ rest, AllRouted st' other := by
      rcases h with hnot | hr
      · exact .inl (hnot.led hs hled)
      · refine .inr fun other ho => ?_
        have hne : other ≠ tokenId := fun heq => hnm (heq ▸ ho)
        exact (hr other (mem_cons_of_mem _ ho)).of_queue hs.base (hs.queues other hne)
    cases c with
    | cons cm c =>
      have hc := hp cm mem_cons_self
      rcases h with hnot | hr
      · cases (hnot.led hs hled).now.symm.trans hc.leads
      · obtain ⟨txId, hid, tx, hget, hnn⟩ := hc.waits
        exact absurd hnn (hr tokenId mem_cons_self txId hid tx hget)
    | nil =>
      have ht : Ends (Pneumatic.epochTurns C P cfg setup limit turn rest) st'
        _ _ := ih hrs hnx
      refine ht.mono (fun _ st'' hst'' => ?_) (fun _ st'' hst'' => ?_)
      · exact ⟨hst''.1.trans hs.base, hst''.2.trans hs.calls⟩
      · exact ⟨hst''.1.trans hs.base, hst''.2.trans hs.calls⟩

theorem HashInv.congr (h : HashInv C P st)
    (hb : st'.base = st.base) (hc : st'.calls = st.calls) : HashInv C P st' := by
  obtain ⟨base, queue, d, n, calls⟩ := st
  obtain ⟨base', queue', d', n', calls'⟩ := st'
  obtain rfl : base' = base := hb
  obtain rfl : calls' = calls := hc
  exact ⟨⟨h.agree.booked, h.agree.pending, h.agree.candidates, h.agree.pool⟩, h.unique, h.claimed⟩

theorem HashInv.step (h : HashInv C P st) (input : LeaderInput)
    (hs : HashSafe C setup st input) : HashInv C P (leaderStep C P cfg setup st input) := by
  cases input with
  | elsewhere e =>
    refine ⟨⟨h.agree.booked, ?_, h.agree.candidates, h.agree.pool⟩, h.unique, h.claimed⟩
    intro txId entry tx hash he hst
    obtain ⟨b, hb, hc⟩ := hs txId entry tx hash he hst
    exact h.agree.pending txId b tx hash hb hc
  | epochLoop world =>
    have hi : Keeps (runEpochLoop C P cfg setup world) st fun st' =>
        st'.base = st.base ∧ st'.calls = st.calls := by
      refine epochTurns_idle (world.order_nodup _) ?_
      refine hs.imp_right fun hr ti hid => hr ti ?_
      exact mem_keys.mp ((world.mem_order _ _).mp hid)
    obtain ⟨hbs, hcl⟩ := keeps_iff.mp hi
    exact h.congr hbs hcl
  | message d =>
    show HashInv C P (deliver C P cfg st d)
    unfold deliver
    split
    · next c ha =>
      exact h.commitCall (hs.2 c (decoded_of_admittedCommit ha))
    · next hn =>
      -- a Commit that is not admitted leaves no trace
      refine h.congr ?_ rfl
      exact committerStep_of_not_admitted hs.1 hn

/-- In every run whose inputs are safe, a committed block has one hash. -/
theorem hashesAgree_of_safe {inputs : List LeaderInput} (hfresh : st.Fresh)
    (hsafe : Meets (leaderStep C P cfg setup) (HashSafe C setup) st inputs) :
    HashesAgree C (run (leaderStep C P cfg setup) st inputs) :=
  (run_invariant (fun _ input h hsafe => h.step input hsafe) (HashInv.fresh hfresh) hsafe).agree

theorem sampleLeader_fresh : (sampleLeader []).Fresh where
  boot := sampleLeader_boot []
  calls := rfl
  pending txId entry tx hash hentry := by
    rw [show (sampleLeader []).base.pending = ∅ from rfl, lookup_empty] at hentry
    cases hentry

/-- A codec in which every body is the Commit of a block that claims `[9]`. -/
def misnamingCodec : Codec :=
  { namingCodec with
    decodeTransactionCommit := fun _ => some
      { namedCommit [1] with
        proposedBlock := { (namedCommit [1]).proposedBlock with currentHash := [9] } } }

/-- The hash booked for a transaction, and the hashes on the chain of the token. -/
def bookedAndStored (st : LeaderState) (txId : String) : Option Bytes × Option (List Bytes) :=
  ((st.base.committedTxs.lookup txId).map Prod.snd,
    (st.base.tokens.lookup [7]).map fun token => token.chain.map Block.currentHash)

/-- A booking under the hash of no block that was committed. -/
theorem not_hashesAgree (txId : String) (booking : Nat × Bytes)
    (hb : st.base.committedTxs.lookup txId = some booking) (hc : ∀ call ∈ st.calls,
      (Token.hashed C call.commit.proposedBlock).currentHash ≠ booking.2) : ¬ HashesAgree C st := by
  intro h
  obtain ⟨call, hcl, -, -, hh⟩ := h.booked txId booking hb
  exact hc call hcl hh

/-- A Commit that claims `[9]` is booked under `[9]`, and a leader's block under
the empty hash; the chain has both under another one. -/
theorem recorded_hash_not_stored : (sampleLeader []).Fresh ∧
      (∃ hash, hash ≠ [9] ∧ bookedAndStored (run (leaderStep misnamingCodec
        samplePrimitives sampleCommitter sampleSetup) (sampleLeader [])
          [commitFrom [1] true]) "t" = (some [9], some [hash])) ∧
      ¬ HashesAgree misnamingCodec (run (leaderStep misnamingCodec samplePrimitives
        sampleCommitter sampleSetup) (sampleLeader []) [commitFrom [1] true]) ∧
      (∃ hash, hash ≠ [] ∧ bookedAndStored (leaderRun ["t"] [.epochLoop quietLoop])
        "t" = (some [], some [hash])) ∧
      ¬ HashesAgree namingCodec (leaderRun ["t"] [.epochLoop quietLoop]) := by
  refine ⟨sampleLeader_fresh, ⟨createHash misnamingCodec (namedCommit [1]).proposedBlock,
    by decide +kernel, rfl⟩, ?_, ⟨createHash namingCodec
      (leaderCommit namingCodec sampleCommitter sampleSetup (quietLoop.turn [7]) [7]
        emptyToken 0 0 (unroutedTransaction "t")).proposedBlock,
    by decide +kernel, by decide +kernel⟩, ?_⟩
  · exact not_hashesAgree "t" (0, [9]) rfl (by decide +kernel)
  · exact not_hashesAgree "t" (0, []) (by decide +kernel) (by decide +kernel)

/-- A Commit under its hash, and a loop of the leader with nothing waiting. -/
theorem honest_hashes_agree :
    (leaderRun [] [commitFrom [1] true, .epochLoop quietLoop]).base.log.length = 1 ∧
      HashesAgree namingCodec (leaderRun [] [commitFrom [1] true, .epochLoop quietLoop]) := by
  refine ⟨by decide +kernel, hashesAgree_of_safe sampleLeader_fresh ⟨⟨rfl, ?_⟩, ?_,
    trivial⟩⟩
  · intro commit hd
    obtain rfl : namedCommit [1] = commit := Option.some.inj hd
    rfl
  · refine .inr fun ti _ txId hid => ?_
    have he : (leaderStep namingCodec samplePrimitives sampleCommitter sampleSetup
        (sampleLeader []) (commitFrom [1] true)).queue.pools = ∅ := rfl
    cases hid

end Pneumatic
