import Mathlib.Data.Finset.Sort
import Pneumatic.Committer.Epoching
import Pneumatic.Proofs.Conflicts
import Pneumatic.Proofs.GossipOutcome

/-!
# Who is slashed at commit

A Commit slashes when the first candidate it does not beat was registered for
its own proposer. A candidate stays registered after its Commit, whether that
went through or not, and the hashes of the two blocks are not compared. So a
Commit that is sent again after a failure slashes its honest proposer, and a
leader with two transactions in its batch slashes itself, since it builds both
blocks on one tip.

Where a Commit meets no candidate of its proposer with the same block hash, and
a leader has at most one transaction to propose and no candidate on the tip,
only equivocation is slashed. Every candidate is the block of an earlier call,
which is what makes the candidate a Commit collides with a second block of the
same proposer.
-/

namespace Pneumatic

open Handler HandlerM Run Finmap List CommitterState

variable {C : Codec} {P : ShieldedPrimitives} {cfg : CommitterConfig}
  {setup : LeaderSetup} {world : CommitterWorld} {s : CommitterState}
  {st : LeaderState}

variable {commit : TransactionCommit} {key tokenId : Bytes} {st' : LeaderState}
  {answers : TurnWorld} {limit : Nat} {d : CommitterDelivery}

/-! ## What a call slashes -/

/-- The conflict check of a Commit slashes a key: the Commit gets there, and the
first candidate it does not beat is resolved so. -/
structure Slashes (C : Codec) (s : CommitterState) (commit : TransactionCommit)
    (proposer slashed : Bytes) : Prop where
  ready : CommitReady C s commit
  lost : ∃ c hash, s.unbeaten commit proposer = some c ∧
    resolveBlockConflict commit.proposedBlock.currentHash c.1.currentHash proposer c.2
      s.stakes = .sameProposerSlash hash slashed

/-- The slashed key is the proposer's, which has a candidate at the position. -/
theorem Slashes.candidate {slashed : Bytes} (h : Slashes C s commit key slashed) :
    slashed = key ∧ ∃ c ∈ s.candidatesAt commit.position, c.2 = key := by
  obtain ⟨c, hash, hu, hres⟩ := h.lost
  unfold resolveBlockConflict at hres
  split at hres
  · cases hres
  · split at hres
    · cases hres
    · split at hres
      · next heq =>
        cases hres
        exact ⟨rfl, c, (mem_of_unbeaten hu).1, heq.symm⟩
      · cases hres

/-- The stakes after a Commit are those before, but for the slash of its conflict check. -/
theorem CommitEffect.stakes {s' : CommitterState}
    (h : CommitEffect C P cfg world s commit key s') : s'.stakes = s.stakes ∨
      ∃ slashed, Slashes C s commit key slashed ∧
        s'.stakes = s.stakes.slash slashed (cfg.slashAmount (s.stakes.getStake slashed)) := by
  cases h with
  | refused | unlanded | landed => exact .inl rfl
  | discarded hready _ hlost =>
    cases hres : resolveBlockConflict _ _ _ _ _ with
    | discardLoser | tieFlagBoth => exact .inl rfl
    | sameProposerSlash hash slashed => exact .inr ⟨slashed, ⟨hready, _, hash, hlost, hres⟩, rfl⟩

/-! ## The property and its condition -/

section

variable (C : Codec) (cfg : CommitterConfig) (setup : LeaderSetup) (st : LeaderState)

/-- Only equivocation has been slashed: no call has changed the stakes but by a
slash, the slashed key was the verified proposer of the call and of another one,
for a block with another hash at the same position, and the leader's own calls
have slashed nobody. -/
structure OnlyEquivocation : Prop where
  stakes : ∀ call ∈ st.calls, call.stakes = call.met.stakes ∨
    ∃ key, Slashes C call.met call.commit call.proposer key ∧ call.stakes =
      call.met.stakes.slash key (cfg.slashAmount (call.met.stakes.getStake key))
  twoBlocks : ∀ call ∈ st.calls, ∀ key, Slashes C call.met call.commit call.proposer key →
    call.proposer = key ∧ ∃ other ∈ st.calls, other.proposer = key ∧
      other.commit.position = call.commit.position ∧
      createHash C other.commit.proposedBlock ≠ createHash C call.commit.proposedBlock
  notOwn : ∀ call ∈ st.calls, call.own = true →
    ∀ key, ¬ Slashes C call.met call.commit call.proposer key

/-- A token whose turn cannot collide with the leader's own blocks: at most one
transaction waits, and no candidate on the tip is the leader's. -/
structure TurnSafe (tokenId : Bytes) : Prop where
  short : (st.queue.queue tokenId).length ≤ 1
  unclaimed : ∀ token, st.base.tokens.lookup tokenId = some token →
    ∀ c ∈ st.base.candidatesAt (tokenId, lastHashIn C token.chain), c.2 ≠ setup.publicKey

/-- The condition on an input, in the state it meets. -/
def SlashSafe : LeaderInput → Prop
  | .message d => ∀ commit, admittedCommit C cfg st.base d = some commit →
    CommitReady C st.base commit →
    ∀ c ∈ st.base.candidatesAt commit.position, c.2 = d.message.publicKey →
      createHash C c.1 ≠ createHash C commit.proposedBlock
  | .epochLoop _ => ∀ tokenId ∈ st.base.tokens, TurnSafe C setup st tokenId
  | .elsewhere _ => True

/-- Only equivocation is slashed, and every candidate came with a Commit. -/
structure SlashInv : Prop where
  only : OnlyEquivocation C cfg st
  called : ∀ position, ∀ c ∈ st.base.candidatesAt position, ∃ call ∈ st.calls,
    call.commit.position = position ∧ call.commit.proposedBlock = c.1 ∧ call.proposer = c.2

end

theorem SlashInv.congr (h : SlashInv C cfg st) (hcn : st'.base.candidates = st.base.candidates)
    (hc : st'.calls = st.calls) : SlashInv C cfg st' := by
  have hat : st'.base.candidatesAt = st.base.candidatesAt := by
    funext position
    rw [candidatesAt, hcn]
    rfl
  refine ⟨⟨?_, ?_, ?_⟩, ?_⟩
  · rw [hc]
    exact h.only.stakes
  · rw [hc]
    exact h.only.twoBlocks
  · rw [hc]
    exact h.only.notOwn
  · rw [hc, hat]
    exact h.called

/-! ## One call -/

/-- A call is safe where its proposer has no candidate at its position with the
block's hash, and where the leader makes it, none at all. -/
theorem SlashInv.commitCall (h : SlashInv C cfg st) {own : Bool}
    (hsf : CommitReady C st.base commit → ∀ c ∈ st.base.candidatesAt commit.position, c.2 = key →
      own = false ∧ createHash C c.1 ≠ createHash C commit.proposedBlock) :
    SlashInv C cfg ((Pneumatic.commitCall C P cfg world own commit key).exec st).2 := by
  have he : CommitEffect C P cfg
      { world with currentEpochNumber := st.epochNumber } st.base commit key _ :=
    commitEffect commit key
  have hold : ∀ call ∈ st.calls, call ∈
      ((Pneumatic.commitCall C P cfg world own commit key).exec st).2.calls :=
    fun call hcl => mem_append_left _ hcl
  -- what the new call collides with is the block of an earlier one
  have hnew : ∀ sl, Slashes C st.base commit key sl →
      key = sl ∧ own = false ∧ ∃ other ∈ st.calls, other.proposer = sl ∧
        other.commit.position = commit.position ∧
        createHash C other.commit.proposedBlock ≠ createHash C commit.proposedBlock := by
    intro sl hs
    obtain ⟨rfl, c, hc, hp⟩ := hs.candidate
    obtain ⟨hown, hh⟩ := hsf hs.ready c hc hp
    obtain ⟨other, ho, hps, hb, hkey⟩ := h.called _ c hc
    refine ⟨rfl, hown, other, ho, hkey.trans hp, hps, ?_⟩
    rw [hb]
    exact hh
  refine ⟨⟨?_, ?_, ?_⟩, ?_⟩
  · intro call hcl
    rcases mem_append.mp hcl with hcl | hcl
    · exact h.only.stakes call hcl
    · obtain rfl := mem_singleton.mp hcl
      exact he.stakes
  · intro call hcl sl hs
    rcases mem_append.mp hcl with hcl | hcl
    · obtain ⟨hkey, other, ho, hr⟩ :=
        h.only.twoBlocks call hcl sl hs
      exact ⟨hkey, other, hold other ho, hr⟩
    · obtain rfl := mem_singleton.mp hcl
      obtain ⟨hkey, -, other, ho, hr⟩ := hnew sl hs
      exact ⟨hkey, other, hold other ho, hr⟩
  · intro call hcl hown
    rcases mem_append.mp hcl with hcl | hcl
    · exact h.only.notOwn call hcl hown
    · obtain rfl := mem_singleton.mp hcl
      intro sl hs
      obtain ⟨-, hf, -⟩ := hnew sl hs
      cases hf.symm.trans hown
  · intro p c hc
    rcases he.mem_candidatesAt hc with hc | ⟨rfl, rfl⟩
    · obtain ⟨call, hcl, hr⟩ := h.called p c hc
      exact ⟨call, hold call hcl, hr⟩
    · exact ⟨_, mem_append_right _ (mem_singleton.mpr rfl), rfl, rfl, rfl⟩

/-! ## A turn of the epoch loop -/

/-- What a turn leaves of the other tokens. -/
structure TurnFrame (tokenId : Bytes) (st st' : LeaderState) : Prop where
  queues : ∀ other, other ≠ tokenId → (st'.queue.queue other).length ≤ (st.queue.queue other).length
  tokens : AgreeOff tokenId st.base.tokens st'.base.tokens
  candidates : ∀ other hash, other ≠ tokenId →
    st'.base.candidatesAt (other, hash) = st.base.candidatesAt (other, hash)

theorem TurnFrame.trans {st'' : LeaderState}
    (h : TurnFrame tokenId st st') (h' : TurnFrame tokenId st' st'') :
    TurnFrame tokenId st st'' where
  queues other hne := (h'.queues other hne).trans (h.queues other hne)
  tokens := h.tokens.trans h'.tokens
  candidates other hash hne :=
    (h'.candidates other hash hne).trans (h.candidates other hash hne)

theorem TurnSafe.frame {other : Bytes}
    (h : TurnSafe C setup st other) (hf : TurnFrame tokenId st st')
    (hne : other ≠ tokenId) : TurnSafe C setup st' other where
  short := (hf.queues other hne).trans h.short
  unclaimed token ht c hc := by
    rw [hf.tokens other hne] at ht
    rw [hf.candidates other _ hne] at hc
    exact h.unclaimed token ht c hc

theorem queue_commitCall {own : Bool} (other : Bytes) :
    (((commitCall C P cfg world own commit key).exec st).2.queue.queue other).Sublist
      (st.queue.queue other) := by
  show ((queueAfter st _ _).queue other).Sublist _
  unfold queueAfter
  split
  · exact st.queue.queue_remove_sublist _ other
  · exact .refl _

theorem turnFrame_commitCall {own : Bool} : TurnFrame commit.tokenId st
      ((commitCall C P cfg world own commit key).exec st).2 := by
  have he : CommitEffect C P cfg
      { world with currentEpochNumber := st.epochNumber } st.base commit key _ :=
    commitEffect commit key
  refine ⟨fun other _ => (queue_commitCall other).length_le, he.tokens, fun other hash hne => ?_⟩
  exact he.candidatesAt_of_ne fun heq => hne (congrArg Prod.fst heq)

/-- What proposing leaves: the Committer and the history as they are, and the
other tokens' queues. -/
structure TurnStart (tokenId : Bytes) (st st' : LeaderState) : Prop where
  base : st'.base = st.base
  calls : st'.calls = st.calls
  queues : ∀ other, other ≠ tokenId → st'.queue.queue other = st.queue.queue other

theorem TurnStart.frame (h : TurnStart tokenId st st') : TurnFrame tokenId st st' where
  queues other hne := Nat.le_of_eq (congrArg length (h.queues other hne))
  tokens := by
    rw [h.base]
    exact .refl _ _
  candidates _ _ _ := by rw [h.base]

/-- The detector is the one found, or was advanced on the stakes and the tip
found. -/
def Led (C : Codec) (setup : LeaderSetup) (st st' : LeaderState) : Prop :=
  st'.detector = st.detector ∨ ∃ current : EpochBoundaryDetector,
    st'.detector = some (current.advanceToNewEpoch setup st.base.stakes
      (canonicalChainTip C st.base.tokens))

theorem ends_advanceIfExpired
    {Q : Unit → LeaderState → Prop} {E : CommitterError → LeaderState → Prop}
    (h : ∀ dt n,
      let led := { st with detector := dt, epochNumber := n }
      Led C setup st led → Q () led ∧ ∀ e, E e led) :
    Ends (advanceIfExpired C setup answers) st Q E := by
  have hs := h st.detector st.epochNumber (.inl rfl)
  simp only [advanceIfExpired, ends_bind, ends_getState]
  split
  · exact hs.1
  · next dt _ =>
    simp only [ends_ite, ends_bind, ends_pure, advanceEpochTo, ends_getState,
      ends_ofOption, ends_update, ends_require]
    refine ⟨fun _ => ⟨fun c _ => ⟨fun _ => hs.1, fun _ => ?_⟩,
      fun _ => hs.2 _⟩, fun _ => hs.1⟩
    have hled := h (some (c.advanceToNewEpoch setup st.base.stakes
      (canonicalChainTip C st.base.tokens))) (c.currentEpoch.epochNumber + 1)
      (.inr ⟨c, rfl⟩)
    exact ⟨fun _ => ⟨fun _ => hled.1, fun _ => hled.2 _⟩, fun _ => hled.2 _⟩

theorem length_leaderCommits_le
    {token : Token} {number : Nat} (index : Nat) (batch : List Transaction) :
    (leaderCommits C cfg setup answers tokenId token number index batch).length ≤ batch.length := by
  induction batch generalizing index with
  | nil => exact Nat.le_refl _
  | cons tx rest ih =>
    have hs := ih index
    have ht := ih (index + 1)
    rw [leaderCommits, length_cons]
    split
    · omega
    · rw [length_cons]
      omega

theorem exists_of_mem_leaderCommits {token : Token} {number : Nat} {index : Nat}
    {batch : List Transaction}
    (h : commit ∈ leaderCommits C cfg setup answers tokenId token number index batch) :
    ∃ place, ∃ tx ∈ batch, tx.selection = none ∧
      commit = leaderCommit C cfg setup answers tokenId token number place tx := by
  induction batch generalizing index with
  | nil => cases h
  | cons tx rest ih =>
    rw [leaderCommits] at h
    split at h
    · obtain ⟨place, tx', htx', hc⟩ := ih h
      exact ⟨place, tx', mem_cons_of_mem tx htx', hc⟩
    · next hu =>
      rcases mem_cons.mp h with hc | h
      · exact ⟨index, tx, mem_cons_self, Option.not_isSome_iff_eq_none.mp hu, hc⟩
      · obtain ⟨place, tx', htx', hc⟩ := ih h
        exact ⟨place, tx', mem_cons_of_mem tx htx', hc⟩

/-- A commit the leader proposes: it leads, the block is on the tip of the cached
token, and the transaction waits and has no Finalizer. -/
structure Proposed (C : Codec) (setup : LeaderSetup) (tokenId : Bytes)
    (st st' : LeaderState) (commit : TransactionCommit) : Prop where
  leads : st'.isLeader setup = true
  onTip : ∃ token, st.base.tokens.lookup tokenId = some token ∧
    commit.position = (tokenId, lastHashIn C token.chain)
  waits : ∃ txId ∈ st.queue.queue tokenId, ∃ tx,
    st.base.pending.getTransaction txId = .ok tx ∧ tx.selection = none

/-- The leader proposes at most as many blocks as transactions wait. -/
theorem ends_proposeBlocks {Q : List TransactionCommit → LeaderState → Prop}
    {E : CommitterError → LeaderState → Prop}
    (hQ : ∀ c st', TurnStart tokenId st st' → Led C setup st st' →
      c.length ≤ (st.queue.queue tokenId).length →
      (∀ commit ∈ c, Proposed C setup tokenId st st' commit) → Q c st')
    (hE : ∀ e st', TurnStart tokenId st st' → Led C setup st st' → E e st') :
    Ends (proposeBlocks C cfg setup answers tokenId limit) st Q E := by
  simp only [proposeBlocks, ends_bind]
  refine ends_advanceIfExpired fun dt n hled => ?_
  have hs : TurnStart tokenId st
      { st with detector := dt, epochNumber := n } :=
    ⟨rfl, rfl, fun _ _ => rfl⟩
  refine ⟨?_, fun e => hE e _ hs hled⟩
  simp only [ends_getState, ends_ite, ends_pure, ends_bind, proposeBatch, ends_update, ends_lift]
  have hd : TurnStart tokenId st
      { st with
        detector := dt
        epochNumber := n
        queue := (st.queue.dequeueForLeader tokenId limit).2 } := by
    refine ⟨rfl, rfl, fun other hne => ?_⟩
    rw [st.queue.queue_dequeueForLeader, if_neg hne]
  refine ⟨fun _ => hQ [] _ hs hled (Nat.zero_le _) (fun _ h => by cases h),
    fun hld => ⟨fun batch hb => ?_, fun e _ => hE e _ hd hled⟩⟩
  have hl : batch.length ≤ (st.queue.queue tokenId).length := by
    rw [← (mapM_eq_ok_iff.mp hb).length_eq]
    exact length_take_le' _ _
  cases batch with
  | nil => exact hQ [] _ hd hled (Nat.zero_le _) (fun _ h => by cases h)
  | cons tx rest =>
    simp only [ends_bind, ends_ofOption, ends_pure]
    refine ⟨fun token ht => ?_, fun _ => hE _ _ hd hled⟩
    refine hQ _ _ hd hled ((length_leaderCommits_le 0 _).trans hl) ?_
    intro commit hc
    obtain ⟨place, tx', htx', hu, rfl⟩ := exists_of_mem_leaderCommits hc
    obtain ⟨txId, hid, hget⟩ := exists_of_forall₂_of_mem (mapM_eq_ok_iff.mp hb) htx'
    exact ⟨Bool.not_eq_false _ ▸ hld, ⟨token, ht, rfl⟩, txId, mem_of_mem_take hid, tx', hget, hu⟩

theorem SlashInv.epochTurn (h : SlashInv C cfg st) (hsf : TurnSafe C setup st tokenId) :
    Keeps (Pneumatic.epochTurn C P cfg setup answers limit tokenId) st fun st' =>
      SlashInv C cfg st' ∧ TurnFrame tokenId st st' := by
  simp only [Pneumatic.epochTurn, Keeps, ends_bind]
  refine ends_proposeBlocks (fun cm st' hs _ hl hp => ?_) (fun e st' hs _ => ?_)
  · have hinv : SlashInv C cfg st' := h.congr (by rw [hs.base]) hs.calls
    have hsh := hl.trans hsf.short
    cases cm with
    | nil => exact ⟨hinv, hs.frame⟩
    | cons commit rest =>
      obtain rfl : rest = [] := by
        rw [length_cons] at hsh
        exact length_eq_zero_iff.mp (by omega)
      obtain ⟨token, ht, hpos⟩ := (hp commit mem_cons_self).onTip
      have hid : commit.tokenId = tokenId := congrArg Prod.fst hpos
      have hu : ∀ c ∈ st'.base.candidatesAt commit.position, c.2 = setup.publicKey → true = false ∧
            createHash C c.1 ≠ createHash C commit.proposedBlock := by
        intro c hc hown
        rw [hs.base, hpos] at hc
        exact absurd hown (hsf.unclaimed token ht c hc)
      refine keeps_iff.mpr ⟨hinv.commitCall fun _ => hu, hs.frame.trans ?_⟩
      rw [← hid]
      exact turnFrame_commitCall
  · exact ⟨h.congr (by rw [hs.base]) hs.calls, hs.frame⟩

theorem SlashInv.epochTurns {turn : Bytes → TurnWorld}
    {ids : List Bytes} (h : SlashInv C cfg st) (hn : ids.Nodup)
    (hs : ∀ tokenId ∈ ids, TurnSafe C setup st tokenId) :
    Keeps (Pneumatic.epochTurns C P cfg setup limit turn ids) st (SlashInv C cfg) := by
  induction ids generalizing st with
  | nil => exact h
  | cons tokenId rest ih =>
    obtain ⟨hnm, hr⟩ := nodup_cons.mp hn
    have ht : Ends (Pneumatic.epochTurn C P cfg setup (turn tokenId) limit
      tokenId) st _ _ := h.epochTurn (hs tokenId mem_cons_self)
    simp only [Pneumatic.epochTurns, Keeps, ends_bind]
    refine ht.mono (fun _ st' hst' => ?_) (fun _ st' hst' => hst'.1)
    refine ih hst'.1 hr fun other ho => ?_
    have hne : other ≠ tokenId := fun heq => hnm (heq ▸ ho)
    exact (hs other (mem_cons_of_mem _ ho)).frame hst'.2 hne

/-! ## Runs -/

theorem decoded_of_admittedCommit (h : admittedCommit C cfg s d = some commit) :
    C.decodeTransactionCommit d.message.body = some commit := by
  unfold admittedCommit at h
  split at h
  · next hd =>
    split at h
    · exact hd.trans h
    · cases h
  · cases h

/-- A Commit that does not get past the gates leaves the Committer. -/
theorem committerStep_of_not_admitted
    (hac : d.action = .commit) (h : admittedCommit C cfg s d = none) :
    committerStep C P cfg s d = s := by
  obtain ⟨world, a, m⟩ := d
  obtain rfl : a = .commit := hac
  refine keeps_iff (P := fun s' : CommitterState => s' = s).mp ?_
  simp only [Keeps, handleMessage, handleCommit, ends_bind, ends_lift,
    ends_ofOption, ends_getState, implies_true, and_true]
  intro _ hs commit hd _ hv _ ha
  simp only [admittedCommit, hd, hs, hv, ha] at h
  cases h

theorem candidates_committerStep (h : admittedCommit C cfg s d = none) :
    (committerStep C P cfg s d).candidates = s.candidates := by
  cases ha : d.action with
  | commit => rw [committerStep_of_not_admitted ha h]
  | blockFinalized =>
    obtain ⟨world, a, m⟩ := d
    obtain rfl : a = .blockFinalized := ha
    have he := gossipExit C P cfg world s m
    unfold committerStep committerHandle
    generalize (handleMessage C P cfg world .blockFinalized m).exec s = result at he ⊢
    obtain ⟨v, s'⟩ := result
    cases he with
    | refused | buffered | misnamed | appended => rfl

theorem SlashInv.step (h : SlashInv C cfg st) (input : LeaderInput)
    (hs : SlashSafe C cfg setup st input) : SlashInv C cfg (leaderStep C P cfg setup st input) := by
  cases input with
  | elsewhere e => exact h.congr rfl rfl
  | epochLoop world =>
    refine keeps_iff.mp ?_
    refine h.epochTurns (world.order_nodup _) fun tokenId hid => hs tokenId ?_
    exact mem_keys.mp ((world.mem_order _ _).mp hid)
  | message d =>
    show SlashInv C cfg (deliver C P cfg st d)
    unfold deliver
    split
    · next commit ha =>
      exact h.commitCall fun hr c hc hp => ⟨rfl, hs commit ha hr c hc hp⟩
    · next hn => exact h.congr (candidates_committerStep hn) rfl

/-- In every run whose inputs are safe, only equivocation is slashed. -/
theorem onlyEquivocation_of_safe {inputs : List LeaderInput} (hboot : st.base.Boot)
    (hcalls : st.calls = [])
    (hsafe : Meets (leaderStep C P cfg setup) (SlashSafe C cfg setup) st inputs) :
    OnlyEquivocation C cfg (run (leaderStep C P cfg setup) st inputs) := by
  have hinv : SlashInv C cfg st := by
    refine ⟨⟨?_, ?_, ?_⟩, ?_⟩
    iterate 2
      · intro call hcl
        rw [hcalls] at hcl
        cases hcl
    · intro call hcl
      rw [hcalls] at hcl
      cases hcl
    · intro p c hc
      rw [candidatesAt, hboot.candidates, lookup_empty] at hc
      cases hc
  exact (run_invariant (fun st input h hsafe => h.step input hsafe) hinv hsafe).only

/-! ## A replay and a batch -/

def unroutedTransaction (id : String) : Transaction :=
  { (default : Transaction) with id := id, tokenId := [7] }

def sampleSetup : LeaderSetup where
  publicKey := [4]
  epochDuration := 10
  select _ _ _ := [4]
  leaderAddress := [4]
  leaderStake := 0
  leaderHash := []

/-- The leader `[4]` with validated transactions waiting for the empty token. -/
def sampleLeader (ids : List String) : LeaderState where
  base :=
    { bootState with
      tokens := (∅ : TokenMap).insert [7] emptyToken
      pending := ids.foldl (fun pending id => pending.insert id
        (.new (.validated (unroutedTransaction id) (.valid [] ⟨0, 0, false, false⟩)))) ∅
      stakes := (∅ : StakeSet).insert [4] 5 }
  queue := ids.foldl (fun queue id => queue.enqueue id ⟨[7], 0, 0, []⟩) .new
  detector := some ⟨⟨0, 10, 0, [4]⟩, none⟩
  epochNumber := 0
  calls := []

theorem sampleLeader_boot (ids : List String) : (sampleLeader ids).base.Boot where
  committedTxs := rfl
  candidates := rfl
  orphans := rfl
  pool := ⟨10, rfl⟩
  log := rfl

def sortedIds (ids : Finset Bytes) : List Bytes :=
  ((ids.image (List.map UInt8.toNat)).sort (· ≤ ·)).map (List.map UInt8.ofNat)

theorem map_ofNat_map_toNat (id : Bytes) : (id.map UInt8.toNat).map UInt8.ofNat = id := by
  simp [map_map, Function.comp_def]

/-- The epoch loop in the order of the ids, with nothing failing. -/
def quietLoop : LoopWorld where
  order := sortedIds
  order_nodup ids := by
    refine List.Nodup.map_on (fun a ha b hb heq => ?_) (Finset.sort_nodup _ _)
    obtain ⟨x, -, rfl⟩ := Finset.mem_image.mp ((Finset.mem_sort _).mp ha)
    obtain ⟨y, -, rfl⟩ := Finset.mem_image.mp ((Finset.mem_sort _).mp hb)
    rw [map_ofNat_map_toNat, map_ofNat_map_toNat] at heq
    rw [heq]
  mem_order ids id := by
    simp only [sortedIds, List.mem_map, Finset.mem_sort, Finset.mem_image]
    constructor
    · rintro ⟨_, ⟨x, hx, rfl⟩, rfl⟩
      rw [map_ofNat_map_toNat]
      exact hx
    · exact fun hid => ⟨_, ⟨id, hid, rfl⟩, map_ofNat_map_toNat id⟩
  turn _ :=
    { now := 5
      saveStakeSnapshot := fun _ _ => true
      saveExecutorSet := fun _ _ => true
      blockTime := fun _ => 0
      commit := fun _ => obligingWorld }

/-- The Commit of a first block on the empty token, with a given self-declared
proposer. -/
def namedCommit (proposer : Bytes) : TransactionCommit where
  transId := asBytes "t"
  tokenId := [7]
  envId := "env"
  proposedBlock := Token.hashed ShieldedPool.sampleCodec
    { blockOn [] (signedCarrier (routedTransaction "t") none) with
      proposerKey := proposer }

/-- A codec in which a body is a self-declared proposer. -/
def namingCodec : Codec :=
  { ShieldedPool.sampleCodec with
    decodeTransactionCommit := fun body => some (namedCommit body) }

/-- A Commit of the Finalizer `[4]` that meets a data service which saves
tokens or does not. -/
def commitFrom (proposer : Bytes) (saved : Bool) : LeaderInput :=
  .message ⟨{ obligingWorld with saveToken := fun _ _ => saved }, .commit, ⟨[4], [], proposer⟩⟩

def leaderRun (ids : List String) (inputs : List LeaderInput) : LeaderState :=
  run (leaderStep namingCodec ShieldedPool.samplePrimitives sampleCommitter sampleSetup)
    (sampleLeader ids) inputs

/-- One block is sent twice, the first time the token is not saved: its honest
proposer loses its stake. And a leader that has only run its loop, on two
transactions, slashes its own key. -/
theorem replay_and_batch_slash : (sampleLeader []).base.Boot ∧
      (leaderRun [] [commitFrom [1] false, commitFrom [1] true]).base.stakes.lookup [4] = none ∧
      ¬ OnlyEquivocation namingCodec sampleCommitter
        (leaderRun [] [commitFrom [1] false, commitFrom [1] true]) ∧
      (sampleLeader ["t", "u"]).base.Boot ∧
      (leaderRun ["t", "u"] [.epochLoop quietLoop]).base.stakes.lookup [4] = none ∧
      ¬ OnlyEquivocation namingCodec sampleCommitter
        (leaderRun ["t", "u"] [.epochLoop quietLoop]) := by
  refine ⟨sampleLeader_boot [], rfl, fun h => ?_,
    sampleLeader_boot ["t", "u"], by decide +kernel, fun h => ?_⟩
  · have hs : ∃ call ∈ (leaderRun [] [commitFrom [1] false,
        commitFrom [1] true]).calls, call.stakes ≠ call.met.stakes := by decide +kernel
    have hone : ∀ call ∈ (leaderRun [] [commitFrom [1] false,
        commitFrom [1] true]).calls, createHash namingCodec call.commit.proposedBlock =
          createHash namingCodec (namedCommit [1]).proposedBlock := by decide +kernel
    obtain ⟨call, hc, hne⟩ := hs
    obtain ⟨key, hkey, -⟩ := (h.stakes call hc).resolve_left hne
    obtain ⟨-, other, ho, -, -, hne⟩ := h.twoBlocks call hc key hkey
    exact hne ((hone other ho).trans (hone call hc).symm)
  · have hs : ∃ call ∈ (leaderRun ["t", "u"] [.epochLoop quietLoop]).calls,
        call.own = true ∧ call.stakes ≠ call.met.stakes := by decide +kernel
    obtain ⟨call, hc, hown, hne⟩ := hs
    obtain ⟨key, hkey, -⟩ := (h.stakes call hc).resolve_left hne
    exact h.notOwn call hc hown key hkey

theorem eq_namedCommit {proposer : Bytes} {world : CommitterWorld}
    (h : admittedCommit namingCodec sampleCommitter s
      ⟨world, .commit, ⟨[4], [], proposer⟩⟩ = some commit) : commit = namedCommit proposer :=
  (Option.some.inj (decoded_of_admittedCommit h)).symm

/-- The leader commits one block and then sends another for the same parent: this is
slashed, and rightly. A block that is sent again after its Commit went through is not. -/
theorem equivocation_slashed :
    ((leaderRun ["u"] [.epochLoop quietLoop, commitFrom [1] true]).base.stakes.lookup [4] = none ∧
      OnlyEquivocation namingCodec sampleCommitter
        (leaderRun ["u"] [.epochLoop quietLoop, commitFrom [1] true])) ∧
    (leaderRun [] [commitFrom [1] true, commitFrom [1] true]).base.stakes.lookup [4] = some 5 ∧
      OnlyEquivocation namingCodec sampleCommitter
        (leaderRun [] [commitFrom [1] true, commitFrom [1] true]) := by
  refine ⟨⟨by decide +kernel, onlyEquivocation_of_safe (sampleLeader_boot ["u"]) rfl
    ⟨fun tokenId hmem => ?_, fun commit hd _ => ?_, trivial⟩⟩,
    by decide +kernel, onlyEquivocation_of_safe (sampleLeader_boot []) rfl
      ⟨fun _ _ _ _ hc => (by cases hc), fun commit hd hr => ?_, trivial⟩⟩
  · obtain rfl : tokenId = [7] := by
      rcases mem_insert.mp hmem with heq | hmem
      · exact heq
      · exact absurd hmem (notMem_empty)
    exact ⟨by decide +kernel, fun token _ c hc => by cases hc⟩
  · rw [eq_namedCommit hd]
    decide +kernel
  · have hb := hr.unbooked
    rw [eq_namedCommit hd] at hb
    exact absurd hb (by decide +kernel)

end Pneumatic
