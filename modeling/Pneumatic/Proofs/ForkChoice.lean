import Pneumatic.Proofs.Conflicts

/-!
# Which of several rivals stays

Several blocks for one position, each the Commit of its own transaction. The
conflict check looks at the candidates registered at the position, and a
conflict that is decided clears them. So the first Commit puts its block on the
chain, the second is measured against it, and after that the position has no
candidates although the chain holds a block there: whatever comes third finds no
rival, does not link to the tip, and is refused, with any stake.

The block with the largest stake therefore stays exactly when it comes first, or
second and goes on the chain the first one is taken from.
-/

namespace Pneumatic

open Handler HandlerM ShieldedPool List Option CommitterState

variable {C : Codec} {P : ShieldedPrimitives} {cfg : CommitterConfig} {s : CommitterState}

/-- A Commit with the key it was verified under, and what the surroundings
answer while it is handled. -/
structure Rival where
  commit : TransactionCommit
  proposer : Bytes
  world : CommitterWorld

namespace Rival

def block (rival : Rival) : Block := rival.commit.proposedBlock

def txId (rival : Rival) : String := rival.commit.txId

def stake (s : CommitterState) (rival : Rival) : Nat :=
  s.stakes.getStake rival.proposer

def process (C : Codec) (P : ShieldedPrimitives) (cfg : CommitterConfig)
    (s : CommitterState) (rival : Rival) : CommitterState :=
  ((checkAndCommitTransactionResults C P cfg rival.world rival.commit rival.proposer).exec s).2

end Rival

section

variable (C : Codec) (P : ShieldedPrimitives) (cfg : CommitterConfig) (s : CommitterState)
  (tokenId parent : Bytes)

/-- The state after the rivals' Commits, in the order of the list. -/
def processAll (rivals : List Rival) : CommitterState :=
  Run.run (Rival.process C P cfg) s rivals

/-- A valid block for a position of a token, that has not been committed. Its
hash is the one it claims, not empty and not its parent's. -/
structure Rival.Valid (token : Token) (rival : Rival) : Prop where
  position : rival.commit.position = (tokenId, parent)
  env : rival.commit.envId = cfg.environmentId
  ready : CommitReady C s rival.commit
  cached : cachedToken rival.world s.tokens tokenId = some token
  accepted : token.validateBlock C cfg.validators (Token.hashed C rival.block) = .ok ()
  pool : PoolAccepts C P cfg rival.world s.pool rival.commit
  hash_eq : createHash C rival.block = rival.block.currentHash
  hash_ne_nil : rival.block.currentHash ≠ []
  hash_ne_parent : rival.block.currentHash ≠ parent
  staked : 0 < rival.stake s

/-- Valid blocks for one position of a chain that ends there, of different
transactions and by proposers with different stakes. -/
structure Contested (token : Token)
    (rivals : List Rival) : Prop where
  tip : cachedTip token.chain = parent
  unclaimed : s.candidatesAt (tokenId, parent) = []
  valid : ∀ rival ∈ rivals, rival.Valid C P cfg s tokenId parent token
  txIds : (rivals.map Rival.txId).Nodup
  hashes : (rivals.map fun rival => rival.block.currentHash).Nodup
  stakes : (rivals.map (Rival.stake s)).Nodup

/-- The cached chain ends with the block. -/
def EndsWith (block : Block) : Prop :=
  ∃ token, s.tokens.lookup tokenId = some token ∧ token.chain.getLast? = some block

/-- A rival comes first, or second and goes on the chain from which the first
one is taken: the pool takes it beside the first one's delta, and the token
without the first one's block accepts it. -/
def InTime (rival : Rival) : List Rival → Prop
  | [] => False
  | first :: rest =>
    first = rival ∨ (rest.head? = some rival ∧
        ∃ token, GoesOn C P cfg rival.world (first.process C P cfg s) rival.commit token)

/-- The position is taken by a block, and no candidate registered there has
that block's hash. -/
structure Occupied (block : Block) : Prop where
  tip : EndsWith s tokenId block
  others : ∀ c ∈ s.candidatesAt (tokenId, parent), c.1.currentHash ≠ block.currentHash

end

variable {block : Block} {s' : CommitterState} {tokenId parent : Bytes} {token : Token}
  {rival first second : Rival} {rivals : List Rival}

theorem EndsWith.congr (h : EndsWith s tokenId block) (hc : StillCached s.tokens s'.tokens) :
    EndsWith s' tokenId block := by
  obtain ⟨token, hl, hls⟩ := h
  exact ⟨token, hc tokenId token hl, hls⟩

theorem EndsWith.unique {block' : Block}
    (h : EndsWith s tokenId block) (h' : EndsWith s tokenId block') : block = block' := by
  obtain ⟨token, hl, hls⟩ := h
  obtain ⟨token', hl', hls'⟩ := h'
  obtain rfl := mem_unique hl hl'
  exact mem_unique hls hls'

theorem EndsWith.of_landed {world : CommitterWorld} {commit : TransactionCommit}
    (hg : GoesOn C P cfg world s commit token) (hc : s'.tokens.lookup commit.tokenId =
      some (token.commitBlock C cfg.validators commit.proposedBlock (s.rollbackTarget commit)).1) :
    EndsWith s' commit.tokenId (Token.hashed C commit.proposedBlock) :=
  ⟨_, hc, Token.commitBlockAs_getLast? hg.lands.accepted⟩

section

variable (h : Occupied s tokenId parent block)

include h

section

variable (hnil : block.currentHash ≠ [])

include hnil

/-- No block for the position goes on a chain that has one there: it does not
link to the tip, and none of the candidates it could roll back is the tip. -/
theorem Occupied.not_goesOn {world : CommitterWorld} {commit : TransactionCommit}
    (hpn : block.currentHash ≠ parent)
    (hp : commit.position = (tokenId, parent)) (token : Token) :
    ¬ GoesOn C P cfg world s commit token := by
  intro hg
  obtain ⟨token', hlk, hls⟩ := h.tip
  have htk : commit.tokenId = tokenId := congrArg Prod.fst hp
  have hpr : commit.proposedBlock.previousHash = parent :=
    congrArg Prod.snd hp
  have hcc := hg.lands.cached
  rw [cachedToken, htk, hlk] at hcc
  obtain rfl := some.inj hcc
  have htip : cachedTip token'.chain = block.currentHash := by
    rw [cachedTip, hls]
  have hr : token'.rolled (s.rollbackTarget commit) = token' := by
    cases ht : s.rollbackTarget commit with
    | none => rfl
    | some hash =>
      rw [rollbackTarget, hp] at ht
      obtain ⟨c, hc, rfl⟩ := map_eq_some_iff.mp ht
      refine Token.rolled_of_ne fun heq => ?_
      exact h.others c (mem_of_getLast? hc) (heq.symm.trans htip)
  have hln := hg.lands.accepted
  rw [hr] at hln
  have hl := Token.links_of_validateBlock hln
  rw [htip] at hl
  exact hpn ((eq_of_links hnil hl).trans hpr)

theorem Occupied.process
    (hpr : block.currentHash ≠ parent) (hp : rival.commit.position = (tokenId, parent))
    (hne : rival.block.currentHash ≠ block.currentHash) :
    Occupied (rival.process C P cfg s) tokenId parent block := by
  have he : CommitEffect C P cfg rival.world s rival.commit rival.proposer
    (rival.process C P cfg s) := commitEffect _ _
  generalize rival.process C P cfg s = s' at he ⊢
  cases he with
  | refused hnot hpn => exact ⟨h.tip, h.others⟩
  | discarded hr hpn hl =>
    refine ⟨h.tip, fun c hc => ?_⟩
    rw [← hp, candidatesAt_erase (s := s) rfl] at hc
    cases hc
  | unlanded hr hpn hb hnot hcc ho =>
    refine ⟨h.tip.congr hcc, fun c hc => ?_⟩
    rw [← hp, candidatesAt_candidatesAfter (s := s) rfl] at hc
    split at hc
    · rw [mem_singleton.mp hc]
      exact hne
    · cases hc
  | landed hr hpn hb hg hch ho hu =>
    exact absurd hg (h.not_goesOn hnil hpr hp _)

theorem Occupied.processAll (hpr : block.currentHash ≠ parent)
    (hrv : ∀ rival ∈ rivals, rival.commit.position = (tokenId, parent) ∧
      rival.block.currentHash ≠ block.currentHash) :
    Occupied (processAll C P cfg s rivals) tokenId parent block := by
  induction rivals generalizing s with
  | nil => exact h
  | cons rival rivals ih =>
    obtain ⟨hp, hne⟩ := hrv rival mem_cons_self
    exact ih (h.process hnil hpr hp hne) fun r hr => hrv r (mem_cons_of_mem _ hr)

end

end

theorem Rival.Valid.hashed_eq (h : rival.Valid C P cfg s tokenId parent token) :
    Token.hashed C rival.block = rival.block := by
  rw [Token.hashed, h.hash_eq]

/-- What the first Commit leaves for the second to meet. -/
structure AfterFirst (C : Codec) (s s' : CommitterState)
    (tokenId parent : Bytes) (first : Rival) : Prop where
  tip : EndsWith s' tokenId first.block
  candidates : s'.candidatesAt (tokenId, parent) = [(first.block, first.proposer)]
  stakes : s'.stakes = s.stakes
  ready : ∀ commit, commit.txId ≠ first.txId →
    CommitReady C s commit → CommitReady C s' commit

theorem Rival.Valid.process (h : first.Valid C P cfg s tokenId parent token)
    (hu : s.candidatesAt (tokenId, parent) = []) :
    AfterFirst C s (first.process C P cfg s) tokenId parent first := by
  have hnil : s.candidatesAt first.commit.position = [] := by
    rw [h.position]
    exact hu
  have htr := rollbackTarget_of_nil hnil
  have ht : first.commit.tokenId = tokenId := congrArg Prod.fst h.position
  have hg : GoesOn C P cfg first.world s first.commit token := by
    refine ⟨h.env, h.pool, ?_, ?_⟩
    · rw [ht]
      exact h.cached
    · rw [htr]
      exact h.accepted
  have he : CommitEffect C P cfg first.world s first.commit first.proposer
    (first.process C P cfg s) := commitEffect _ _
  generalize first.process C P cfg s = s' at he ⊢
  cases he with
  | refused hnot hp => exact absurd h.ready hnot
  | discarded hr hp hl =>
    have hc := (mem_of_unbeaten hl).1
    rw [hnil] at hc
    cases hc
  | unlanded hr hp hb hnot hcc ho =>
    exact absurd hg (hnot token)
  | landed hr hp hb hg' hch ho hun =>
    refine ⟨?_, ?_, rfl, fun c hne hcm => ?_⟩
    · rw [← h.hashed_eq, ← ht]
      exact .of_landed hg' hch
    · rw [← h.position, candidatesAt_candidatesAfter (s := s) rfl, if_pos hnil]
      rfl
    · exact hcm.congr (hun _ hne hcm.unbooked) (hp _ hne) rfl

/-- The second Commit wins exactly by stake. -/
theorem AfterFirst.beats_iff (h : AfterFirst C s s' tokenId parent first)
    (hh : first.block.currentHash ≠ second.block.currentHash) :
    Beats s'.stakes second.commit second.proposer (first.block, first.proposer) ↔
      first.stake s < second.stake s := by
  simp only [Beats, resolveBlockConflict, Rival.stake, h.stakes]
  split
  · next hlt => exact ⟨fun _ => hlt, fun _ => rfl⟩
  · next hnot =>
    refine ⟨fun heq => ?_, fun hlt => absurd hlt hnot⟩
    split at heq
    · exact absurd (ConflictResolution.discardLoser.inj heq) hh
    · split at heq <;> cases heq

/-- After the second Commit the position is taken by its block if it has the
larger stake and goes on the chain, and by the first one's otherwise. -/
theorem AfterFirst.process (h : AfterFirst C s s' tokenId parent first)
    (hs : second.Valid C P cfg s tokenId parent token) (hid : first.txId ≠ second.txId)
    (hh : first.block.currentHash ≠ second.block.currentHash) : (first.stake s < second.stake s ∧
        (∃ token, GoesOn C P cfg second.world s' second.commit token) ∧
        Occupied (second.process C P cfg s') tokenId parent second.block) ∨
      (¬ (first.stake s < second.stake s ∧
          ∃ token, GoesOn C P cfg second.world s' second.commit token) ∧
        Occupied (second.process C P cfg s') tokenId parent first.block) := by
  have hcn : s'.candidatesAt second.commit.position = [(first.block, first.proposer)] := by
    rw [hs.position]
    exact h.candidates
  have hn : ∀ {s'' : CommitterState}, s''.candidates = s'.candidates.erase second.commit.position →
      s''.candidatesAt (tokenId, parent) = [] := fun heq => by
    rw [← hs.position]
    exact candidatesAt_erase heq
  have ha : s'.candidatesAfter second.commit second.proposer =
      s'.candidates.erase second.commit.position := by
    rw [candidatesAfter, if_neg]
    rw [hcn]
    exact cons_ne_nil _ _
  have hv : ∀ {s'' : CommitterState} {block : Block}, s''.candidatesAt (tokenId, parent) = [] →
      ∀ c ∈ s''.candidatesAt (tokenId, parent),
        c.1.currentHash ≠ block.currentHash := fun hnil c hc => by
    rw [hnil] at hc
    cases hc
  have ht : second.commit.tokenId = tokenId :=
    congrArg Prod.fst hs.position
  have he : CommitEffect C P cfg second.world s' second.commit
    second.proposer (second.process C P cfg s') := commitEffect _ _
  generalize second.process C P cfg s' = s'' at he ⊢
  cases he with
  | refused hnot hp =>
    exact absurd (h.ready _ (Ne.symm hid) hs.ready) hnot
  | discarded hr hp hl =>
    obtain ⟨hcd, hu⟩ := mem_of_unbeaten hl
    rw [hcn] at hcd
    rw [mem_singleton.mp hcd, h.beats_iff hh] at hu
    exact .inr ⟨fun hwon => hu hwon.1, h.tip, hv (hn rfl)⟩
  | unlanded hr hp hb hnot hcc ho =>
    refine .inr ⟨fun hwon => ?_, h.tip.congr hcc, hv (hn ha)⟩
    obtain ⟨token', hg⟩ := hwon.2
    exact hnot token' hg
  | landed hr hp hb hg hch ho hun =>
    have hwon := hb (first.block, first.proposer) (by rw [hcn]; exact mem_singleton_self _)
    rw [h.beats_iff hh] at hwon
    refine .inl ⟨hwon, ⟨_, hg⟩, ?_, hv (hn ha)⟩
    rw [← hs.hashed_eq, ← ht]
    exact .of_landed hg hch

theorem Contested.sublist {rivals' : List Rival}
    (h : Contested C P cfg s tokenId parent token rivals) (hsub : rivals'.Sublist rivals) :
    Contested C P cfg s tokenId parent token rivals' where
  tip := h.tip
  unclaimed := h.unclaimed
  valid rival hrival := h.valid rival (hsub.subset hrival)
  txIds := h.txIds.sublist (hsub.map _)
  hashes := h.hashes.sublist (hsub.map _)
  stakes := h.stakes.sublist (hsub.map _)

theorem Contested.eq_of_hash (h : Contested C P cfg s tokenId parent token rivals)
    {a b : Rival} (ha : a ∈ rivals) (hb : b ∈ rivals) (heq : a.block = b.block) : a = b := by
  exact inj_on_of_nodup_map h.hashes ha hb (congrArg Block.currentHash heq)

theorem ne_of_nodup_map {α : Type} {f : Rival → α}
    {rest : List Rival} (h : ((first :: rest).map f).Nodup)
    (hmem : rival ∈ rest) : f first ≠ f rival := by
  rw [map_cons, nodup_cons] at h
  intro heq
  exact h.1 (heq ▸ mem_map_of_mem hmem)

/-- Whoever holds the position after two Commits holds it at the end. -/
theorem Contested.stays {winner : Rival} {rest : List Rival}
    (h : Contested C P cfg s tokenId parent token (first :: second :: rest))
    (hmem : winner ∈ [first, second])
    (ho : Occupied (second.process C P cfg (first.process C P cfg s)) tokenId parent winner.block) :
    EndsWith (processAll C P cfg s (first :: second :: rest)) tokenId winner.block := by
  have hv := h.valid winner (mem_append_left rest hmem)
  have hs := h.hashes
  rw [show first :: second :: rest = [first, second] ++ rest from rfl, map_append] at hs
  have hl := disjoint_of_nodup_append hs
  refine (ho.processAll hv.hash_ne_nil hv.hash_ne_parent fun rival hr => ⟨?_, fun heq => ?_⟩).tip
  · exact (h.valid rival (mem_append_right [first, second] hr)).position
  · refine hl (mem_map_of_mem hmem) ?_
    rw [← heq]
    exact mem_map_of_mem hr

/-- The block that stays is the one with the largest stake exactly when it comes
in time. -/
theorem endsWith_largest_iff {tokenId parent : Bytes} {token : Token}
    {rivals : List Rival} {best : Rival} (h : Contested C P cfg s tokenId parent token rivals)
    (hmem : best ∈ rivals) (hbest : ∀ rival ∈ rivals, rival.stake s ≤ best.stake s) :
    EndsWith (processAll C P cfg s rivals) tokenId best.block ↔ InTime C P cfg s best rivals := by
  cases rivals with
  | nil => cases hmem
  | cons first rest =>
    have hfm : first ∈ first :: rest := mem_cons_self
    have ha := (h.valid first hfm).process h.unclaimed
    cases rest with
    | nil =>
      obtain rfl := mem_singleton.mp hmem
      exact ⟨fun _ => .inl rfl, fun _ => ha.tip⟩
    | cons second rest =>
      have hsm : second ∈ first :: second :: rest := by simp
      have hn : second ∈ second :: rest := mem_cons_self
      have hid := ne_of_nodup_map h.txIds hn
      have hhs := ne_of_nodup_map h.hashes hn
      have hs := ne_of_nodup_map h.stakes hn
      rcases ha.process (h.valid second hsm) hid hhs with
        ⟨hlt, hg, ho⟩ | ⟨hnot, ho⟩
      · have hend := h.stays (by simp) ho
        constructor
        · intro hbe
          obtain rfl := h.eq_of_hash hmem hsm (hbe.unique hend)
          exact .inr ⟨rfl, hg⟩
        · rintro (rfl | ⟨hh, -⟩)
          · have hle := hbest second hsm
            omega
          · obtain rfl : second = best := some.inj hh
            exact hend
      · have hend := h.stays (by simp) ho
        constructor
        · intro hbe
          exact .inl (h.eq_of_hash hfm hmem (hend.unique hbe))
        · rintro (rfl | ⟨hh, hg⟩)
          · exact hend
          · obtain rfl : second = best := some.inj hh
            have hle := hbest first hfm
            exact absurd ⟨by omega, hg⟩ hnot

/-- The Commit of a transaction in a first block on the empty token. -/
def sampleRival (id : String) (proposer : Bytes) : Rival where
  commit :=
    { transId := asBytes id
      tokenId := [7]
      envId := "env"
      proposedBlock := Token.hashed sampleCodec
        { blockOn [] (signedCarrier (routedTransaction id) none) with
          proposerKey := proposer } }
  proposer := proposer
  world := obligingWorld

/-- Proposers with two, one and three units of stake, in this order. -/
def threeRivals : List Rival :=
  [sampleRival "m" [4], sampleRival "l" [5], sampleRival "h" [6]]

def stakedState : CommitterState :=
  { bootState with
    stakes := (((∅ : StakeSet).insert [4] 2).insert [5] 1).insert [6] 3 }

theorem threeRivals_contested : Contested sampleCodec samplePrimitives sampleCommitter
      stakedState [7] [] emptyToken threeRivals where
  tip := rfl
  unclaimed := rfl
  valid := by
    intro rival hr
    fin_cases hr
    all_goals exact
      { position := rfl
        env := rfl
        ready := ⟨rfl, _, rfl, rfl⟩
        cached := rfl
        accepted := rfl
        pool := ⟨_, .plain, rfl, fun h => by cases h⟩
        hash_eq := rfl
        hash_ne_nil := by decide +kernel
        hash_ne_parent := by decide +kernel
        staked := by decide +kernel }
  txIds := by decide +kernel
  hashes := by decide +kernel
  stakes := by decide +kernel

/-- The three in their order: the block with the most stake comes third and is
refused, and the one that came first stays. -/
theorem largest_stake_refused : Contested sampleCodec samplePrimitives sampleCommitter
        stakedState [7] [] emptyToken threeRivals ∧ (∀ rival ∈ threeRivals,
        rival.stake stakedState ≤ (sampleRival "h" [6]).stake stakedState) ∧
      EndsWith (processAll sampleCodec samplePrimitives sampleCommitter stakedState threeRivals) [7]
        (sampleRival "m" [4]).block ∧ ¬ EndsWith (processAll sampleCodec samplePrimitives
        sampleCommitter stakedState threeRivals) [7] (sampleRival "h" [6]).block := by
  have hs : EndsWith (processAll sampleCodec samplePrimitives
      sampleCommitter stakedState threeRivals) [7] (sampleRival "m" [4]).block :=
    ⟨{ emptyToken with
        chain := [(sampleRival "m" [4]).block], sequenceNumber := 1 }, rfl, rfl⟩
  refine ⟨threeRivals_contested, by decide +kernel, hs, fun h => ?_⟩
  exact absurd (hs.unique h) (by decide +kernel)

/-- Without the third, the one with the most stake comes first and stays. -/
theorem largest_stake_stays : EndsWith (processAll sampleCodec samplePrimitives
      sampleCommitter stakedState [sampleRival "m" [4], sampleRival "l" [5]]) [7]
      (sampleRival "m" [4]).block := by
  have hc : Contested sampleCodec samplePrimitives sampleCommitter stakedState [7] [] emptyToken
      [sampleRival "m" [4], sampleRival "l" [5]] :=
    threeRivals_contested.sublist (by simp [threeRivals])
  exact (endsWith_largest_iff hc (by simp) (by decide +kernel)).mpr (.inl rfl)

end Pneumatic
