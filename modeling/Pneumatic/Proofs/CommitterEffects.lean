import Pneumatic.Committer.Finalizing
import Pneumatic.Proofs.PoolHashes

/-!
# What the Committer's handlers do

One rule per piece of the two paths, in the form the proofs about whole runs
use: to know where a piece ends it is enough to look at the states that differ
from the start in the fields the piece writes, and what is known there is said
in terms of the state the message met.

Everything before the pool and chain part of a Commit writes the pending
registry, the candidates and the stakes; everything after it writes the pending
registry and, at the very end, the booking. The chains and their log are written
in two places only, `commitBlock` and `appendToChain`.
-/

namespace Pneumatic

open Handler HandlerM ShieldedPool PendingRegistry PendingTransaction CommitterState
open Finmap List Option

variable {C : Codec} {P : ShieldedPrimitives} {cfg : CommitterConfig}
  {world : CommitterWorld} {s : CommitterState}

/-! ## What a message meets -/

/-- The cached token, or the one the cache is warmed with. -/
def cachedToken (world : CommitterWorld)
    (tokens : TokenMap) (tokenId : Bytes) :
    Option Token :=
  match tokens.lookup tokenId with
  | some token => some token
  | none => world.getToken tokenId

/-- The block hash a Commit rolls back if it goes through: the last
candidate's at its position. -/
def CommitterState.rollbackTarget (s : CommitterState)
    (commit : TransactionCommit) : Option Bytes :=
  (s.candidatesAt commit.position).getLast?.map (·.1.currentHash)

/-- A Commit that passes the gates in front of the pending registry. -/
structure CommitAdmitted (C : Codec) (cfg : CommitterConfig)
    (world : CommitterWorld) (s : CommitterState) (message : Message)
    (commit : TransactionCommit) : Prop where
  sender : authenticateSender C world message = .ok ()
  decoded : C.decodeTransactionCommit message.body = some commit
  valid : validateTransactionMessage cfg commit = .ok ()
  authority : commitAuthority C world s.pending commit message.publicKey = .ok ()
  unbooked : s.committedTxs.lookup commit.txId = none

variable {commit : TransactionCommit} {proposer tokenId : Bytes}

theorem currentHash_ne_nil (hv : validateTransactionMessage cfg commit = .ok ()) :
    commit.proposedBlock.currentHash ≠ [] := by
  unfold validateTransactionMessage at hv
  split at hv
  · cases hv
  · split at hv
    · cases hv
    · next hne => exact fun hnil => hne (by rw [hnil]; rfl)

/-- The transaction a Commit works with: the one the pending registry holds, or
the wire one where it holds none or has booked this very block. -/
def HeldFor (pending : PendingRegistry) (txId : String)
    (commit : TransactionCommit) (tx : Transaction) : Prop :=
  match (pending.lookup txId).map PendingTransaction.state with
  | none => tx = commit.proposedBlock.signedTrans.transaction
  | some (.finalizing held _) => tx = held
  | some (.validated held _) => tx = held
  | some (.committed _ blockHash) =>
    blockHash = commit.proposedBlock.currentHash ∧ tx = commit.proposedBlock.signedTrans.transaction
  | some _ => False

theorem HeldFor.unique {pending : PendingRegistry} {txId : String} {tx tx' : Transaction}
    (h : HeldFor pending txId commit tx) (h' : HeldFor pending txId commit tx') : tx = tx' := by
  unfold HeldFor at h h'
  generalize (pending.lookup txId).map PendingTransaction.state = held at h h'
  cases held with
  | none => exact h.trans h'.symm
  | some state =>
    cases state with
    | finalizing | validated => exact h.trans h'.symm
    | committed => exact h.2.trans h'.2.symm
    | pending | preloaded | executing | failed => exact h.elim

/-- A Commit that reaches the conflict check: its id is not booked, and the
transaction held for it is the one on the wire. -/
structure CommitReady (C : Codec) (s : CommitterState)
    (commit : TransactionCommit) : Prop where
  unbooked : s.committedTxs.lookup commit.txId = none
  held : ∃ tx, HeldFor s.pending commit.txId commit tx ∧
    checkPayload C s commit.txId commit tx = .ok ()

/-- Two maps that agree away from one key. -/
def AgreeOff {α β : Type} [DecidableEq α] (key : α) (m m' : Finmap (fun _ : α => β)) : Prop :=
  ∀ other, other ≠ key → m'.lookup other = m.lookup other

section AgreeOff

variable {α β : Type} [DecidableEq α] {key : α} {m m' : Finmap (fun _ : α => β)}

theorem AgreeOff.refl (key : α) (m : Finmap (fun _ : α => β)) : AgreeOff key m m := fun _ _ => rfl

theorem AgreeOff.trans {m'' : Finmap (fun _ : α => β)} (h : AgreeOff key m m')
    (h' : AgreeOff key m' m'') : AgreeOff key m m'' :=
  fun other hne => (h' other hne).trans (h other hne)

theorem AgreeOff.insert (key : α) (value : β) (m : Finmap (fun _ : α => β)) :
    AgreeOff key m (m.insert key value) :=
  fun _ hne => lookup_insert_of_ne m hne

theorem AgreeOff.erase (key : α) (m : Finmap (fun _ : α => β)) : AgreeOff key m (m.erase key) :=
  fun _ hne => lookup_erase_ne hne

variable {value : β}

theorem AgreeOff.eq_insert (h : AgreeOff key m m')
    (hkey : m'.lookup key = some value) : m' = m.insert key value := by
  refine ext_lookup fun other => ?_
  by_cases ho : other = key
  · rw [ho, hkey, lookup_insert]
  · rw [h other ho, lookup_insert_of_ne _ ho]

end AgreeOff

/-- The committing block wins against a candidate at its position. -/
def Beats (stakes : StakeSet) (commit : TransactionCommit) (proposer : Bytes)
    (candidate : Block × Bytes) : Prop :=
  resolveBlockConflict commit.proposedBlock.currentHash candidate.1.currentHash
    proposer candidate.2 stakes = .discardLoser commit.proposedBlock.currentHash

instance (stakes : StakeSet) (commit : TransactionCommit) (proposer : Bytes)
    (candidate : Block × Bytes) : Decidable (Beats stakes commit proposer candidate) :=
  inferInstanceAs (Decidable (_ = _))

/-- The first candidate at a position that a Commit does not beat. -/
def CommitterState.unbeaten (s : CommitterState) (commit : TransactionCommit)
    (proposer : Bytes) : Option (Block × Bytes) :=
  (s.candidatesAt commit.position).find? fun c =>
    ¬ Beats s.stakes commit proposer c

theorem mem_of_unbeaten {candidate : Block × Bytes}
    (h : s.unbeaten commit proposer = some candidate) : candidate ∈ s.candidatesAt commit.position ∧
      ¬ Beats s.stakes commit proposer candidate := by
  have hl := find?_some h
  exact ⟨mem_of_find?_eq_some h, of_decide_eq_true hl⟩

/-- The stakes after a conflict that the committing block did not win. -/
def stakesAfter (cfg : CommitterConfig) (stakes : StakeSet) : ConflictResolution → StakeSet
  | .sameProposerSlash _ slashed =>
    stakes.slash slashed (cfg.slashAmount (stakes.getStake slashed))
  | _ => stakes

/-- The candidates after a conflict check that lets the Commit go on: its own
block where it is the first at its position, none where it beat the others. -/
def CommitterState.candidatesAfter (s : CommitterState)
    (commit : TransactionCommit) (proposer : Bytes) :
    Finmap (fun _ : Bytes × Bytes => List (Block × Bytes)) :=
  if s.candidatesAt commit.position = [] then
    s.candidates.insert commit.position [(commit.proposedBlock, proposer)]
  else s.candidates.erase commit.position

/-- The cached token accepts the Commit's block, on top of what is left when
the tip it names is rolled back. -/
structure Lands (C : Codec) (cfg : CommitterConfig) (world : CommitterWorld)
    (tokens : TokenMap) (commit : TransactionCommit)
    (rollback : Option Bytes) (token : Token) : Prop where
  cached : cachedToken world tokens commit.tokenId = some token
  accepted : (token.rolled rollback).validateBlock C cfg.validators
    (Token.hashed C commit.proposedBlock) = .ok ()

/-- A gossiped block that passes the gates and goes on its token's chain. -/
structure GossipAdmitted (C : Codec) (world : CommitterWorld)
    (s : CommitterState) (message : Message) (block : Block) : Prop where
  sender : authenticateSender C world message = .ok ()
  decoded : C.decodeBlock message.body = some block
  authority : gossipAuthority C world s.pending block message.publicKey = .ok ()
  links : ∃ token, cachedToken world s.tokens block.signedTrans.transaction.tokenId =
      some token ∧ links (cachedTip token.chain) block = true
  hash_eq : createHash C block = block.currentHash

/-- Blocks that follow one another from a hash on. -/
def Follows : Bytes → List Block → Prop
  | _, [] => True
  | tip, block :: rest =>
    block.previousHash = tip ∧ Follows block.currentHash rest

/-- Blocks that wait in the buffer, follow one another from a hash on and claim
the hashes they have: what a replay from that hash can append. -/
structure Releasable (C : Codec) (now : Nat) (buffer : OrphanBuffer)
    (tokenId tip : Bytes) (blocks : List Block) : Prop where
  waiting : blocks.Subperm (buffer.live tokenId now)
  follows : Follows tip blocks
  hashes : ∀ block ∈ blocks, createHash C block = block.currentHash

/-- The pool takes the blocks one after the other, and is saved where a later
one has a delta to bring. -/
def PoolTakes (C : Codec) (P : ShieldedPrimitives) (env : EnvironmentMetadata)
    (world : CommitterWorld) : ShieldedPool → List Block → Prop
  | _, [] => True
  | pool, block :: rest =>
    ∃ pool' outcome, pool.applyUpdate C P env block = (pool', .ok outcome) ∧
      (outcome = .applied → rest.any Block.isShielded = true →
        world.savePool pool'.stateSnapshot = true) ∧
      PoolTakes C P env world pool' rest

/-! ## The log -/

theorem standing_append (log : List ChainEvent) (events : List ChainEvent) :
    standing (log ++ events) = events.foldl standingStep (standing log) :=
  foldl_append

/-- What is left of the standing appends when a block is rolled back. -/
def afterRollback (tokenId : Bytes) (removed : Option Block)
    (entries : List ChainEntry) : List ChainEntry :=
  match removed with
  | none => entries
  | some loser => entries.eraseP (ChainEntry.isOf tokenId loser)

theorem afterRollback_sublist (tokenId : Bytes) (removed : Option Block)
    (entries : List ChainEntry) : (afterRollback tokenId removed entries).Sublist entries := by
  cases removed with
  | none => exact .refl entries
  | some loser => exact eraseP_sublist

/-- The log after a Commit's block has gone on its token's chain. -/
def landedLog (C : Codec) (commit : TransactionCommit) (rollback : Option Bytes)
    (token : Token) (log : List ChainEvent) : List ChainEvent :=
  logCommit commit.tokenId (token.defeatedTip rollback) (Token.hashed C commit.proposedBlock) log

theorem standing_landedLog (commit : TransactionCommit)
    (rollback : Option Bytes) (token : Token) (log : List ChainEvent) :
    standing (landedLog C commit rollback token log) =
      ⟨commit.tokenId, Token.hashed C commit.proposedBlock, .commit⟩ ::
        afterRollback commit.tokenId (token.defeatedTip rollback) (standing log) := by
  rw [landedLog]
  cases token.defeatedTip rollback with
  | none | some loser => rw [logCommit, standing_append]; rfl

/-- The log of blocks appended by gossip, in order. -/
def gossiped (tokenId : Bytes) (blocks : List Block) : List ChainEvent :=
  blocks.map fun block => .appended ⟨tokenId, block, .gossip⟩

theorem append_gossiped_nil (tokenId : Bytes) (log : List ChainEvent) :
    log ++ gossiped tokenId [] = log :=
  append_nil log

section

variable (blocks : List Block)

include blocks

theorem append_gossiped_cons (tokenId : Bytes) (block : Block) (log : List ChainEvent) :
    log ++ gossiped tokenId [block] ++ gossiped tokenId blocks =
      log ++ gossiped tokenId (block :: blocks) :=
  append_assoc _ _ _

theorem foldl_gossiped (tokenId : Bytes) (entries : List ChainEntry) :
    (gossiped tokenId blocks).foldl standingStep entries =
      (blocks.map fun block => ⟨tokenId, block, .gossip⟩).reverse ++ entries := by
  induction blocks generalizing entries with
  | nil => rfl
  | cons block blocks ih =>
    refine (ih _).trans ?_
    simp [standingStep]

theorem standing_gossiped (tokenId : Bytes) : standing (gossiped tokenId blocks) =
      (blocks.map fun block => ⟨tokenId, block, .gossip⟩).reverse := by
  rw [standing, foldl_gossiped, append_nil]

theorem standing_append_gossiped (tokenId : Bytes) (log : List ChainEvent) :
    standing (log ++ gossiped tokenId blocks) =
      standing (gossiped tokenId blocks) ++ standing log := by
  rw [standing_append, foldl_gossiped, standing_gossiped]

end

/-! ## Pieces that write one part -/

section Pieces

variable {Q : Unit → CommitterState → Prop} {E : CommitterError → CommitterState → Prop}

variable {txId : String}

theorem ends_duplicateGate (hQ : s.committedTxs.lookup txId = none → Q () s)
    (hE : s.committedTxs.lookup txId ≠ none → ∀ e, E e s) : Ends (duplicateGate txId) s Q E := by
  simp only [duplicateGate, ends_bind, ends_getState]
  split
  · next hs => exact hE (by rw [hs]; exact some_ne_none _) _
  · next hn => exact hQ hn

theorem ends_poolSave (hQ : Q () s) (hE : world.savePool s.pool.stateSnapshot ≠ true → ∀ e, E e s) :
    Ends (poolSave world) s Q E := by
  simp only [poolSave, ends_bind, ends_getState, ends_require]
  exact ⟨fun _ => hQ, fun hs => hE hs _⟩

/-- The gas of a transaction can be debited: it has none tracked, or its
sender's balance is read and written. -/
def GasDebited (world : CommitterWorld) (gas : GasMap)
    (txId : String) (sender : Bytes) : Prop :=
  ∀ gasUsed, gas.lookup txId = some gasUsed → ∃ balance, world.getUser sender = some balance ∧
      world.saveUser sender (balance - gasUsed) = true

theorem ends_debitGas {sender : Bytes} (hQ : GasDebited world s.gas txId sender → Q () s)
    (hE : ¬ GasDebited world s.gas txId sender → ∀ e, E e s) :
    Ends (debitGas world txId sender) s Q E := by
  simp only [debitGas, ends_bind, ends_getState]
  split
  · next hgas =>
    refine hQ fun gu hsm => ?_
    cases hgas.symm.trans hsm
  · next gu hgas =>
    simp only [ends_bind, ends_ofOption, ends_require]
    refine ⟨fun b hb => ⟨fun hs => ?_, fun hs => ?_⟩, fun hn => ?_⟩
    · refine hQ fun gu' hgas' => ⟨b, hb, ?_⟩
      cases hgas.symm.trans hgas'
      exact hs
    · refine hE (fun h => hs ?_) _
      obtain ⟨b', hb', hsv⟩ := h gu hgas
      cases hb.symm.trans hb'
      exact hsv
    · refine hE (fun h => ?_) _
      obtain ⟨b, hb, -⟩ := h gu hgas
      cases hn.symm.trans hb

def PendingRegistry.released (pending : PendingRegistry) (txId : String)
    (tx : Transaction) (hash : Bytes) : PendingRegistry :=
  match pending.lookup txId with
  | none => pending
  | some entry =>
    if entry.lockCount - 1 = 0 then pending.erase txId
    else pending.insert txId ⟨.committed tx hash, entry.lockCount - 1⟩

theorem agreeOff_released (pending : PendingRegistry) (txId : String)
    (tx : Transaction) (hash : Bytes) : AgreeOff txId pending (pending.released txId tx hash) := by
  unfold released
  split
  · exact .refl txId pending
  · split
    · exact .erase txId pending
    · exact .insert txId _ pending

theorem erase_insert_self {α β : Type} [DecidableEq α] (key : α) (value : β)
    (m : Finmap (fun _ : α => β)) : (m.insert key value).erase key = m.erase key := by
  refine ext_lookup fun other => ?_
  by_cases ho : other = key
  · rw [ho, lookup_erase, lookup_erase]
  · rw [lookup_erase_ne ho, lookup_erase_ne ho, lookup_insert_of_ne _ ho]

theorem ends_releaseEntry {tx : Transaction} {hash : Bytes} (hmem : txId ∈ s.pending)
    (hQ : Q () { s with pending := s.pending.released txId tx hash }) :
    Ends (releaseEntry txId tx hash) s Q E := by
  obtain ⟨entry, he⟩ := mem_iff.mp hmem
  have hset : s.pending.setState txId (.committed tx hash) =
      s.pending.insert txId { entry with state := .committed tx hash } := by
    rw [setState, he]
  simp only [releaseEntry, ends_bind, ends_update, ends_getState, ends_ofOption,
    hset, lookup_insert, some.injEq, forall_eq', reduceCtorEq, false_imp_iff, and_true]
  simp only [released, he] at hQ
  by_cases hl : entry.lockCount - 1 = 0
  · simp only [hl, if_true] at hQ
    simp only [release, hl, beq_self_eq_true, Bool.and_self, ends_update, erase_insert_self]
    exact hQ
  · rw [if_neg hl] at hQ
    simp only [release, beq_eq_false_iff_ne.mpr hl, Bool.false_and, ends_update, insert_insert]
    exact hQ

end Pieces

/-- The registry after Steps 1 and 2: an entry is made where there is none, and
locked where it is not in a terminal state. -/
def PendingRegistry.taken (pending : PendingRegistry) (txId : String)
    (commit : TransactionCommit) (key : Bytes) : PendingRegistry :=
  match pending.lookup txId with
  | none =>
    pending.insert txId ⟨.finalizing commit.proposedBlock.signedTrans.transaction key, 1⟩
  | some entry =>
    match entry.acquire with
    | none => pending
    | some locked => pending.insert txId locked

theorem agreeOff_taken (pending : PendingRegistry) (txId : String)
    (commit : TransactionCommit) (key : Bytes) :
    AgreeOff txId pending (pending.taken txId commit key) := by
  unfold taken
  split
  · exact .insert txId _ pending
  · split
    · exact .refl txId pending
    · exact .insert txId _ pending

theorem mem_taken (pending : PendingRegistry) (txId : String)
    (commit : TransactionCommit) (key : Bytes) : txId ∈ pending.taken txId commit key := by
  unfold taken
  split
  · exact mem_insert.mpr (.inl rfl)
  · next entry he =>
    split
    · exact mem_iff.mpr ⟨entry, he⟩
    · exact mem_insert.mpr (.inl rfl)

variable {E : CommitterError → CommitterState → Prop}

/-- What is read from the registry is the transaction held before. -/
theorem ends_takeTransaction {txId : String} {key : Bytes} {Q : Transaction → CommitterState → Prop}
    (hQ : ∀ tx, HeldFor s.pending txId commit tx →
      Q tx { s with pending := s.pending.taken txId commit key })
    (hE : ∀ e, (∀ tx, ¬ HeldFor s.pending txId commit tx) →
      E e { s with pending := s.pending.taken txId commit key }) :
    Ends (takeTransaction txId commit key) s Q E := by
  cases hl : s.pending.lookup txId with
  | none =>
    -- the entry made from the wire block is the one that is read back
    have hnot : txId ∉ s.pending := lookup_eq_none.mp hl
    have hm := hQ commit.proposedBlock.signedTrans.transaction (by rw [HeldFor, hl]; rfl)
    simp only [taken, hl] at hm
    simp only [takeTransaction, ends_bind, ends_update, ends_getState,
      ends_ofOption, if_neg hnot, lookup_insert]
    refine ⟨fun entry he => ?_, fun hn => by cases hn⟩
    cases he
    simp only [PendingTransaction.acquire, PendingTransaction.new, ends_bind,
      ends_update, ends_pure, insert_insert]
    exact hm
  | some entry =>
    have hmem : txId ∈ s.pending := mem_iff.mpr ⟨entry, hl⟩
    simp only [HeldFor, taken, hl] at hQ hE
    simp only [takeTransaction, ends_bind, ends_update, ends_getState,
      ends_ofOption, if_pos hmem, hl]
    refine ⟨fun entry' he' => ?_, fun hn => by cases hn⟩
    cases he'
    obtain ⟨state, lc⟩ := entry
    cases state with
    | pending | preloaded tx | executing tx | failed tx r =>
      exact hE _ fun _ h => h
    | finalizing tx key => exact hQ tx rfl
    | validated tx rs => exact hQ tx rfl
    | committed tx bh =>
      simp only [PendingTransaction.acquire, ends_bind, ends_require, ends_pure]
      exact ⟨fun heq => hQ _ ⟨heq, rfl⟩, fun hne => hE _ fun _ h => hne h.1⟩

/-! ## Conflicts -/

/-- The loop over the candidates: it goes through if the committing block beats
them all, with the last one as the rollback target, and stops at the first it
does not beat. -/
theorem ends_foldCandidates {target : Bytes} {candidates : List (Block × Bytes)}
    {Q : Bytes → CommitterState → Prop}
    (hQ : (∀ c ∈ candidates, Beats s.stakes commit proposer c) →
      Q ((candidates.getLast?.map (·.1.currentHash)).getD target) s)
    (hE : ∀ c, (candidates.find? fun c =>
        ¬ Beats s.stakes commit proposer c) = some c →
      E .loserDiscarded { s with
        candidates := s.candidates.erase commit.position
        stakes := stakesAfter cfg s.stakes (resolveBlockConflict
          commit.proposedBlock.currentHash c.1.currentHash proposer c.2
          s.stakes) }) :
    Ends (foldCandidates cfg commit proposer s.stakes target candidates) s Q E := by
  induction candidates generalizing target with
  | nil => exact hQ (fun c hc => by cases hc)
  | cons first rest ih =>
    have hf : ¬ Beats s.stakes commit proposer first → _ := fun hls =>
      hE first (find?_cons_of_pos (decide_eq_true hls))
    have hr : Beats s.stakes commit proposer first → ∀ c, _ → _ :=
      fun hwon c hc => hE c <| by
        rw [find?_cons_of_neg (by simpa using hwon)]
        exact hc
    obtain ⟨cn, cp⟩ := first
    unfold Beats at hf
    simp only [foldCandidates]
    cases hres : resolveBlockConflict commit.proposedBlock.currentHash
        cn.currentHash proposer cp s.stakes with
    | discardLoser w =>
      simp only [hres] at hf ⊢
      by_cases hwon : w = commit.proposedBlock.currentHash
      · rw [if_neg (not_not.mpr hwon)]
        subst hwon
        refine ih (fun ho => ?_) (hr hres)
        have hall := hQ fun c hc => by
          rcases mem_cons.mp hc with rfl | hc
          · exact hres
          · exact ho c hc
        rw [getLast?_cons] at hall
        cases hl : rest.getLast? with
        | none | some last => rw [hl] at hall; exact hall
      · rw [if_pos hwon]
        exact hf fun heq => hwon (ConflictResolution.discardLoser.inj heq)
    | sameProposerSlash hash sl | tieFlagBoth hash =>
      simp only [hres] at hf ⊢
      exact hf fun heq => by cases heq

theorem ends_handleConflictAtCommit {Q : CommitConflictOutcome → CommitterState → Prop}
    (hQ : ∀ o, o.rollbackTipHash = s.rollbackTarget commit →
      (∀ c ∈ s.candidatesAt commit.position, Beats s.stakes commit proposer c) →
      Q o { s with candidates := s.candidatesAfter commit proposer })
    (hE : ∀ c, s.unbeaten commit proposer = some c →
      E .loserDiscarded { s with
        candidates := s.candidates.erase commit.position
        stakes := stakesAfter cfg s.stakes (resolveBlockConflict
          commit.proposedBlock.currentHash c.1.currentHash proposer c.2
          s.stakes) }) :
    Ends (handleConflictAtCommit cfg commit proposer) s Q E := by
  simp only [handleConflictAtCommit, ends_bind, ends_getState]
  split
  · next hnil =>
    have hf := hQ .commit (by rw [rollbackTarget, hnil]; rfl)
      (fun c hc => by rw [hnil] at hc; cases hc)
    rw [candidatesAfter, if_pos hnil] at hf
    simp only [insertCandidate, ends_bind, ends_update, ends_pure, hnil,
      nil_append, length_singleton, show 1 - defaultMaxCandidates = 0 from rfl, drop_zero]
    exact hf
  · next first rest hcn =>
    rw [unbeaten, hcn] at hE
    simp only [ends_bind]
    refine ends_foldCandidates (fun hb => ?_) hE
    have hne : s.candidatesAt commit.position ≠ [] := by
      rw [hcn]
      exact cons_ne_nil first rest
    have hwon := hQ (.commitWinnerAfterRollback _) (by
        rw [rollbackTarget, hcn, getLast?_cons]
        rfl)
      (by rw [hcn]; exact hb)
    rw [candidatesAfter, if_neg hne] at hwon
    simp only [removeConflicted, ends_update, ends_pure]
    rw [getLast?_cons]
    exact hwon

/-! ## The chains -/

/-- What was cached still is, unchanged. -/
def StillCached (tokens tokens' : TokenMap) : Prop :=
  ∀ tokenId token, tokens.lookup tokenId = some token → tokens'.lookup tokenId = some token

/-- And every token that is there was cached before, or is the one the data
service answers with. -/
structure Warmed (world : CommitterWorld)
    (tokens tokens' : TokenMap) : Prop where
  kept : StillCached tokens tokens'
  only : ∀ tokenId token, tokens'.lookup tokenId = some token →
    cachedToken world tokens tokenId = some token

theorem cachedToken_of_lookup {tokens : TokenMap}
    {token : Token} (h : tokens.lookup tokenId = some token) :
    cachedToken world tokens tokenId = some token := by
  rw [cachedToken, h]

theorem Warmed.refl (tokens : TokenMap) : Warmed world tokens tokens :=
  ⟨fun _ _ h => h, fun _ _ h => cachedToken_of_lookup h⟩

theorem Warmed.of_agreeOff {tokens tokens' : TokenMap}
    {token : Token} (hk : StillCached tokens tokens')
    (hot : AgreeOff tokenId tokens tokens') (hl : tokens'.lookup tokenId = some token)
    (hc : cachedToken world tokens tokenId = some token) : Warmed world tokens tokens' := by
  refine ⟨hk, fun other token' ho => ?_⟩
  by_cases heq : other = tokenId
  · rw [heq, hl] at ho
    rw [heq, ← ho]
    exact hc
  · rw [hot other heq] at ho
    exact cachedToken_of_lookup ho

theorem ends_warmToken {Q : Token → CommitterState → Prop}
    (hQ : ∀ token t, cachedToken world s.tokens tokenId = some token →
      t.lookup tokenId = some token → StillCached s.tokens t →
      AgreeOff tokenId s.tokens t → Q token { s with tokens := t })
    (hE : cachedToken world s.tokens tokenId = none → ∀ e, E e s) :
    Ends (warmToken world tokenId) s Q E := by
  simp only [warmToken, ends_bind, ends_getState]
  split
  · next token hc =>
    refine hQ token s.tokens ?_ hc (fun _ _ h => h) (.refl _ _)
    rw [cachedToken, hc]
  · next hn =>
    have hm : cachedToken world s.tokens tokenId = world.getToken tokenId := by
      rw [cachedToken, hn]
    simp only [ends_bind, ends_ofOption, ends_update, ends_pure]
    refine ⟨fun token hl => ?_, fun hld => hE (hm.trans hld) _⟩
    refine hQ token _ (hm.trans hl) (lookup_insert _) ?_ (.insert _ _ _)
    intro other token' ho
    have hne : other ≠ tokenId := fun heq => by
      rw [heq, hn] at ho
      cases ho
    rw [lookup_insert_of_ne _ hne]
    exact ho

/-- The append of a Commit: refused with the log and the cached tokens
untouched, or in the log and on the cached chain, and then saved or not. -/
theorem ends_commitBlock {rollback : Option Bytes} {Q : Unit → CommitterState → Prop}
    (hap : ∀ token token' tokens, commit.envId = cfg.environmentId →
      Lands C cfg world s.tokens commit rollback token →
      (token.commitBlock C cfg.validators commit.proposedBlock rollback).1 =
        token' → tokens.lookup commit.tokenId = some token' →
      AgreeOff commit.tokenId s.tokens tokens → (world.saveToken commit.tokenId token' = true →
        Q () { s with
          tokens := tokens
          log := landedLog C commit rollback token s.log }) ∧
      (world.saveToken commit.tokenId token' ≠ true →
        ∀ e, E e { s with
          tokens := tokens
          log := landedLog C commit rollback token s.log }))
    (hE : ∀ e tokens, ¬ (commit.envId = cfg.environmentId ∧
        ∃ token, Lands C cfg world s.tokens commit rollback token) →
      Warmed world s.tokens tokens → AgreeOff commit.tokenId s.tokens tokens →
      E e { s with tokens := tokens }) :
    Ends (commitBlock C cfg world commit rollback) s Q E := by
  simp only [commitBlock, ends_bind, ends_require]
  refine ⟨fun henv => ?_, fun henv => hE _ s.tokens (fun h => henv h.1) (.refl _) (.refl _ _)⟩
  refine ends_warmToken (fun token tokens ht hlk hk ha => ?_)
    (fun hn e => hE e s.tokens ?_ (.refl _) (.refl _ _))
  · cases hc : token.commitBlock C cfg.validators commit.proposedBlock rollback with
    | mk token' r =>
      cases r with
      | error e =>
        have hs := (congrArg Prod.fst hc).symm.trans
          (Token.commitBlockAs_error (congrArg Prod.snd hc))
        have hnot := Token.commitBlockAs_refused (congrArg Prod.snd hc)
        -- the token is put back as it was
        obtain rfl : token' = token := hs
        have hb : tokens.insert commit.tokenId token' = tokens :=
          insert_eq_self_iff.mpr hlk
        have hr := hE (.blockCommit e) tokens ?_ (.of_agreeOff hk ha hlk ht) ha
        · simp only [ends_bind, ends_update, ends_fail, hb]
          exact hr
        · rintro ⟨-, token'', hl⟩
          obtain rfl := mem_unique ht hl.cached
          exact hnot hl.accepted
      | ok rm =>
        obtain ⟨hv, rfl⟩ :=
          Token.commitBlockAs_ok (congrArg Prod.snd hc)
        obtain ⟨hsv, hu⟩ := hap token token' (tokens.insert commit.tokenId token') henv ⟨ht, hv⟩
          (congrArg Prod.fst hc) (lookup_insert _)
          (ha.trans (.insert _ _ _))
        simp only [ends_bind, ends_update, ends_require]
        exact ⟨hsv, fun hsa => hu hsa _⟩
  · rintro ⟨-, token, hl⟩
    cases hn.symm.trans hl.cached

/-! ## The pool -/

section Pool

variable {Q : Unit → CommitterState → Prop} {E : CommitterError → CommitterState → Prop}

theorem UniqueInv.boot (h : s.Boot) : UniqueInv P s.pool := by
  obtain ⟨w, hp⟩ := h.pool
  rw [hp]
  exact ⟨.new w, nodup_nil⟩

theorem exec_poolApply (block : Block) : (poolApply C P cfg block).exec s =
      ((s.pool.applyUpdate C P cfg.env block).2,
        { s with pool := (s.pool.applyUpdate C P cfg.env block).1 }) := rfl

theorem ends_poolApply {block : Block} {Q : PoolApplyOutcome → CommitterState → Prop}
    (hQ : ∀ outcome pool, s.pool.applyUpdate C P cfg.env block = (pool, .ok outcome) →
      Q outcome { s with pool := pool })
    (hE : ∀ e pool, s.pool.applyUpdate C P cfg.env block = (pool, .error e) →
      E e { s with pool := pool }) : Ends (poolApply C P cfg block) s Q E := by
  refine ends_iff_exec.mpr ?_
  rw [exec_poolApply]
  exact ⟨fun outcome h => hQ outcome _ (Prod.ext rfl h), fun e h => hE e _ (Prod.ext rfl h)⟩

theorem exec_poolRevert (blockHash : Bytes) : (poolRevert P blockHash).exec s =
      ((s.pool.revertUpdate P blockHash).2,
        { s with pool := (s.pool.revertUpdate P blockHash).1 }) := rfl

end Pool

/-! ## A concrete Committer

One Finalizer `[4]`, one Sentinel `[2]`, a data service that knows an empty
token `[7]` and stores everything, and a validator that accepts every block
that links. -/

def routedTransaction (id : String) : Transaction :=
  { (default : Transaction) with
    id := id
    tokenId := [7]
    selection := some
      { finalizerPublicKey := [4]
        epochNumber := 0
        salt := []
        sentinelPublicKey := [2]
        attestation := [20] } }

/-- A transaction in its carrier, signed by the Finalizer. -/
def signedCarrier (tx : Transaction) (shielded : Option ShieldedTransaction) : SignedTransaction :=
  { (default : SignedTransaction) with
    transactionId := tx.id
    transaction := tx
    finalizerAddr := [4]
    finalizerSig :=
      { transactionId := asBytes tx.id
        envId := []
        transactionHash := tx.tokenId
        signature := [40]
        currentStake := 0 }
    shielded := shielded }

/-- A block on a given parent, with the hash it has to have. -/
def blockOn (previousHash : Bytes) (signed : SignedTransaction) : Block :=
  let block := { (default : Block) with
    previousHash := previousHash, signedTrans := signed }
  { block with currentHash := createHash sampleCodec block }

/-- A codec in which every Commit and every gossiped block is the given one. -/
def carrying (commit : TransactionCommit) (block : Block) : Codec :=
  { sampleCodec with
    decodeTransactionCommit := fun _ => some commit
    decodeBlock := fun _ => some block }

def sampleCommitter : CommitterConfig where
  environmentId := "env"
  env := sampleEnv
  validators _ := some fun _ _ => none
  slashAmount stake := stake

def obligingWorld : CommitterWorld where
  roles key := if key = [2] then [.sentinel] else [.finalizer]
  getToken tokenId := some
    { id := tokenId
      metadata := ∅
      chain := []
      securityLevel := 10
      blockValidationSpecName := ""
      sequenceNumber := 0 }
  saveToken _ _ := true
  savePool _ := true
  getUser _ := none
  saveUser _ _ := true
  applyDeployDelta _ := .ok ()
  applyStorageDelta _ := .ok ()
  applyUpgradeDelta _ _ := .ok ()
  currentEpochNumber := 0
  now := 0

def emptyToken : Token where
  id := [7]
  metadata := ∅
  chain := []
  securityLevel := 10
  blockValidationSpecName := ""
  sequenceNumber := 0

def bootState : CommitterState where
  tokens := ∅
  pending := ∅
  gas := ∅
  shielded := ∅
  committedTxs := ∅
  candidates := ∅
  stakes := ∅
  orphans := .new 1024 256 30000
  pool := .new 10
  log := []

theorem bootState_boot : bootState.Boot where
  committedTxs := rfl
  candidates := rfl
  orphans := rfl
  pool := ⟨10, rfl⟩
  log := rfl

end Pneumatic
