import Mathlib.Data.List.Chain
import Pneumatic.Proofs.GossipOutcome

/-!
# What is on the chains

Two paths write the cached chains, and `TokenChange` says all that one message can
do to a cached token: leave it, commit a block to it, or append a gossiped block
with the orphans that follow it.

Every chain a Committer builds from nothing is valid: both paths check the link and
store only blocks that have the hash they claim, and a rollback or a trim takes a
block off an end. The length is another matter. `commit_block` drops the oldest
block when the chain is exactly as long as the token's security level, and the
gossip path drops none, so a gossiped block can take a full chain over its cap, and
no Commit brings it back under.
-/

namespace Pneumatic

open Handler HandlerM Finmap List Option

variable {C : Codec} {P : ShieldedPrimitives} {cfg : CommitterConfig}
  {s : CommitterState} {d : CommitterDelivery}

/-- What a delivery can make of a cached token. -/
inductive TokenChange (C : Codec) (cfg : CommitterConfig) (s : CommitterState)
    (d : CommitterDelivery) (tokenId : Bytes) : Token → Prop
  | kept {token : Token} (hcached : cachedToken d.world s.tokens tokenId = some token) :
      TokenChange C cfg s d tokenId token
  | committed {commit : TransactionCommit} {token : Token} (haction : d.action = .commit)
      (hchecked : CommitChecked C cfg d.world s d.message commit)
      (hfree : Uncontested C s commit d.message.publicKey)
      (happends : Appends C cfg d.world s commit token)
      (hid : commit.tokenId = tokenId) :
      TokenChange C cfg s d tokenId (token.commitBlock C cfg.validators commit.proposedBlock
          (s.rollbackTarget commit)).1
  | gossiped {block : Block} {token : Token} (haction : d.action = .blockFinalized)
      (hchecked : GossipChecked C d.world s d.message block token)
      (hlinks : links (cachedTip token.chain) block = true)
      (hhash : createHash C block = block.currentHash)
      (hid : block.signedTrans.transaction.tokenId = tokenId) :
      TokenChange C cfg s d tokenId (token.grown (block :: (s.replayed C d.world block).2))

variable {token' : Token} {tokenId : Bytes} {chain : List Block} {block : Block}

theorem CommitExit.tokenChange {commit : TransactionCommit}
    {verdict : Except CommitterError Unit} {s' : CommitterState} (hac : d.action = .commit)
    (hc : CommitChecked C cfg d.world s d.message commit)
    (he : CommitExit C P cfg d.world s commit d.message.publicKey verdict s')
    (h : s'.tokens.lookup tokenId = some token') : TokenChange C cfg s d tokenId token' := by
  have hap : ∀ {token : Token}, Uncontested C s commit d.message.publicKey →
      Appends C cfg d.world s commit token →
      (s.extended C cfg commit d.message.publicKey token).tokens.lookup tokenId =
        some token' → TokenChange C cfg s d tokenId token' := by
    intro token hf ha hl
    rcases lookup_insert_cases hl with ⟨hid, rfl⟩ | hold
    · exact .committed hac hc hf ha hid
    · exact .kept (cachedToken_of_lookup hold)
  cases he with
  | duplicate | untaken | mismatched | discarded | unpooled | unstored =>
    exact .kept (cachedToken_of_lookup h)
  | unlanded hf hp hnot hw ho => exact .kept (hw.only _ _ h)
  | unsaved hf hp ha | unsettled hf hp ha
  | unfinished hf hp ha | finished hf hp ha =>
    exact hap hf ha h

theorem GossipExit.tokenChange {verdict : Except CommitterError Unit} {s' : CommitterState}
    (ha : d.action = .blockFinalized)
    (he : GossipExit C P cfg d.world s d.message verdict s')
    (h : s'.tokens.lookup tokenId = some token') : TokenChange C cfg s d tokenId token' := by
  have hw : ∀ {block : Block} {token : Token}, GossipChecked C d.world s d.message block token →
      (s.tokens.insert block.signedTrans.transaction.tokenId token).lookup tokenId =
        some token' → TokenChange C cfg s d tokenId token' := by
    intro block token hc hl
    rcases lookup_insert_cases hl with ⟨rfl, rfl⟩ | hold
    · exact .kept hc.cached
    · exact .kept (cachedToken_of_lookup hold)
  cases he with
  | refused => exact .kept (cachedToken_of_lookup h)
  | buffered hc | misnamed hc => exact hw hc h
  | appended hc hln hh =>
    rcases lookup_insert_cases h with ⟨hid, rfl⟩ | hold
    · exact .gossiped ha hc hln hh hid
    · exact .kept (cachedToken_of_lookup hold)

/-- Every cached token after a message is accounted for. -/
theorem tokenChange_of_step (h : (committerStep C P cfg s d).tokens.lookup tokenId = some token') :
    TokenChange C cfg s d tokenId token' := by
  revert h
  refine committerStep_induct (fun ha {v s'} he h => ?_)
    (fun ha {v s'} he h => he.tokenChange ha h)
  cases he with
  | refused => exact .kept (cachedToken_of_lookup h)
  | handled hc he => exact he.tokenChange ha hc h

/-- `get_current_chain_state` finds a tip. -/
def ValidChain (C : Codec) (chain : List Block) : Prop :=
  (currentChainState C chain).isSome = true

theorem isSome_chainStateFrom_iff {prev : Block} {rest : List Block} :
    (chainStateFrom C prev rest).isSome = true ↔
      (∀ block ∈ rest, createHash C block = block.currentHash) ∧
        (prev :: rest).IsChain fun a b => b.previousHash = a.currentHash := by
  induction rest generalizing prev with
  | nil => simp [chainStateFrom]
  | cons next rest ih =>
    rw [chainStateFrom, isChain_cons_cons, forall_mem_cons]
    split
    · next hn =>
      rw [ih]
      exact ⟨fun h => ⟨⟨hn.2, h.1⟩, hn.1, h.2⟩, fun h => ⟨h.1.2, h.2.2⟩⟩
    · next hnot =>
      refine ⟨fun h => absurd h (by simp), fun h => ?_⟩
      exact absurd ⟨h.2.1, h.1.1⟩ hnot

/-- A chain is valid when every block has the hash it claims and names its
predecessor's. -/
theorem validChain_iff :
    ValidChain C chain ↔ (∀ block ∈ chain, createHash C block = block.currentHash) ∧
      chain.IsChain fun a b => b.previousHash = a.currentHash := by
  unfold ValidChain
  cases chain with
  | nil => simp [currentChainState]
  | cons first rest =>
    rw [currentChainState, forall_mem_cons]
    split
    · next hf =>
      rw [isSome_chainStateFrom_iff]
      exact ⟨fun h => ⟨⟨hf.symm, h.1⟩, h.2⟩, fun h => ⟨h.1.2, h.2⟩⟩
    · next hnot =>
      refine ⟨fun h => absurd h (by simp), fun h => ?_⟩
      exact absurd h.1.1.symm hnot

theorem validChain_nil : ValidChain C [] := rfl

theorem ValidChain.dropLast (h : ValidChain C chain) : ValidChain C chain.dropLast := by
  rw [validChain_iff] at h ⊢
  exact ⟨fun b hb => h.1 b (mem_of_mem_dropLast hb), h.2.dropLast⟩

theorem ValidChain.drop (h : ValidChain C chain) (n : Nat) : ValidChain C (chain.drop n) := by
  rw [validChain_iff] at h ⊢
  exact ⟨fun b hb => h.1 b (mem_of_mem_drop hb), h.2.drop n⟩

theorem previousHash_of_links {last : Block}
    (hls : last ∈ chain.getLast?) (hl : links (cachedTip chain) block = true) :
    block.previousHash = last.currentHash := by
  rw [cachedTip, hls] at hl
  unfold links at hl
  dsimp only at hl
  split at hl
  · next he =>
    rw [isEmpty_iff.mp he, isEmpty_iff.mp hl]
  · exact (eq_of_beq hl).symm

theorem ValidChain.append (h : ValidChain C chain)
    (hl : ∀ last ∈ chain.getLast?, block.previousHash = last.currentHash)
    (hh : createHash C block = block.currentHash) : ValidChain C (chain ++ [block]) := by
  rw [validChain_iff] at h ⊢
  refine ⟨fun b hb => ?_, h.2.append (isChain_singleton block) ?_⟩
  · rcases mem_append.mp hb with hb | hb
    · exact h.1 b hb
    · rw [mem_singleton.mp hb]
      exact hh
  · intro last hmem first hf
    obtain rfl : block = first := some.inj hf
    exact hl last hmem

/-- A block that links to the tip goes on the chain, trimmed or not. -/
theorem ValidChain.append_kept {kept : List Block} (h : ValidChain C chain)
    (hln : links (cachedTip chain) block = true)
    (hh : createHash C block = block.currentHash) (hk : kept = chain ∨ kept = chain.drop 1) :
    ValidChain C (kept ++ [block]) := by
  rcases hk with rfl | rfl
  · exact h.append (fun last hl => previousHash_of_links hl hln) hh
  · refine (h.drop 1).append (fun last hl => previousHash_of_links ?_ hln) hh
    rw [getLast?_drop] at hl
    split at hl
    · cases hl
    · exact hl

theorem ValidChain.append_follows {blocks : List Block}
    (h : ValidChain C chain) (hf : Follows (cachedTip chain) blocks)
    (hh : ∀ block ∈ blocks, createHash C block = block.currentHash) :
    ValidChain C (chain ++ blocks) := by
  induction blocks generalizing chain with
  | nil =>
    rw [append_nil]
    exact h
  | cons block rest ih =>
    rw [← singleton_append, ← append_assoc]
    refine ih (h.append (fun last hl => ?_) (hh block mem_cons_self)) ?_
      fun b hb => hh b (mem_cons_of_mem _ hb)
    · exact previousHash_of_links hl (links_of_eq hf.1)
    · have htip : cachedTip (chain ++ [block]) = block.currentHash := by
        simp [cachedTip]
      rw [htip]
      exact hf.2

namespace Token

theorem createHash_hashed (block : Block) :
    createHash C (hashed C block) = (hashed C block).currentHash := rfl

/-- The chain that `commit_block` starts from is the old one, or the old one
without its tip. -/
theorem rolled_chain (token : Token) (rollback : Option Bytes) :
    (token.rolled rollback).chain = token.chain ∨
      (token.rolled rollback).chain = token.chain.dropLast := by
  unfold rolled
  split
  · exact .inl rfl
  · exact .inr rfl

theorem rolled_securityLevel (token : Token) (rollback : Option Bytes) :
    (token.rolled rollback).securityLevel = token.securityLevel := by
  unfold rolled
  split <;> rfl

theorem rolled_valid {token : Token} (hv : ValidChain C token.chain)
    (rollback : Option Bytes) : ValidChain C (token.rolled rollback).chain := by
  rcases token.rolled_chain rollback with heq | heq
  · rw [heq]; exact hv
  · rw [heq]; exact hv.dropLast

variable {block : Block} {rollback : Option Bytes} {token : Token} {validators : BlockValidators}
  {isArchiver : Bool}

theorem commitBlockAs_of_accepted
    (h : (token.rolled rollback).validateBlock C validators (hashed C block) = .ok ()) :
    (token.commitBlockAs C isArchiver validators block rollback).1 =
      { token with
        chain := (token.rolled rollback).keptChain isArchiver ++ [hashed C block]
        sequenceNumber := token.sequenceNumber + 1 } := by
  simp only [commitBlockAs, h]
  unfold rolled
  split <;> rfl

theorem commitBlock_of_accepted
    (h : (token.rolled rollback).validateBlock C validators (hashed C block) = .ok ()) :
    (token.commitBlock C validators block rollback).1 =
      { token with
        chain := (token.rolled rollback).keptChain false ++ [hashed C block]
        sequenceNumber := token.sequenceNumber + 1 } :=
  commitBlockAs_of_accepted h

theorem commitBlockAs_valid (hv : ValidChain C token.chain)
    (h : (token.rolled rollback).validateBlock C validators (hashed C block) = .ok ()) :
    ValidChain C (token.commitBlockAs C isArchiver validators block rollback).1.chain := by
  rw [commitBlockAs_of_accepted h]
  refine (rolled_valid hv rollback).append_kept (links_of_validateBlock h)
    (createHash_hashed block) ?_
  unfold keptChain
  split
  · exact .inr rfl
  · exact .inl rfl

theorem commitBlock_length (hcap : token.chain.length ≤ token.securityLevel)
    (hl : 1 ≤ token.securityLevel)
    (h : (token.rolled rollback).validateBlock C validators (hashed C block) = .ok ()) :
    (token.commitBlock C validators block rollback).1.chain.length ≤
      (token.commitBlock C validators block rollback).1.securityLevel := by
  rw [commitBlock_of_accepted h]
  have hle : (token.rolled rollback).chain.length ≤ token.securityLevel := by
    rcases token.rolled_chain rollback with heq | heq
    · rw [heq]; exact hcap
    · rw [heq, length_dropLast]; omega
  show ((token.rolled rollback).keptChain false ++ [hashed C block]).length ≤ token.securityLevel
  rw [length_append, length_singleton, keptChain, rolled_securityLevel]
  simp only [true_and]
  split
  · rw [length_drop]; omega
  · omega

end Token

theorem grown_valid {world : CommitterWorld} {token : Token} (hv : ValidChain C token.chain)
    (hl : links (cachedTip token.chain) block = true)
    (hh : createHash C block = block.currentHash) :
    ValidChain C (token.grown (block :: (s.replayed C world block).2)).chain := by
  have hr := s.releasable_replayed C world block
  have hb := hv.append (fun last hls => previousHash_of_links hls hl) hh
  show ValidChain C (token.chain ++ ([block] ++ (s.replayed C world block).2))
  rw [← append_assoc]
  refine hb.append_follows ?_ hr.hashes
  have htip := cachedTip_grown_singleton token block
  rw [Token.grown] at htip
  rw [htip]
  exact hr.follows

/-- No token has a block yet, and each is to hold at least one. -/
def EmptyChains (s : CommitterState) : Prop :=
  ∀ tokenId token, s.tokens.lookup tokenId = some token → token.chain = [] ∧ 1 ≤ token.securityLevel

/-- Nor has a token that is loaded while the message is handled. -/
def LoadsEmpty (d : CommitterDelivery) : Prop :=
  ∀ tokenId token, d.world.getToken tokenId = some token →
    token.chain = [] ∧ 1 ≤ token.securityLevel

/-- Every cached chain is valid. -/
def ChainsValid (C : Codec) (s : CommitterState) : Prop :=
  ∀ tokenId token, s.tokens.lookup tokenId = some token → ValidChain C token.chain

/-- No cached chain is longer than its token's security level. -/
def ChainsCapped (s : CommitterState) : Prop :=
  ∀ tokenId token, s.tokens.lookup tokenId = some token → token.chain.length ≤ token.securityLevel

/-- A gossiped block that goes on a chain leaves it within its cap, with whatever
waits in the buffer to follow it. -/
def CapSafe (C : Codec) (s : CommitterState) (d : CommitterDelivery) : Prop :=
  d.action = .blockFinalized → ∀ block token released,
    GossipChecked C d.world s d.message block token →
    links (cachedTip token.chain) block = true →
    createHash C block = block.currentHash →
    Releasable C d.world.now s.orphans block.signedTrans.transaction.tokenId
      block.currentHash released →
    token.chain.length + 1 + released.length ≤ token.securityLevel

/-- A property of tokens under their ids that the loaded ones have and the two
appends keep holds of every cached token. -/
theorem forall_cached_of_step (Good : Bytes → Token → Prop)
    (hgd : ∀ tokenId token, s.tokens.lookup tokenId = some token →
      Good tokenId token) (hld : ∀ tokenId token, d.world.getToken tokenId = some token →
      Good tokenId token)
    (hcm : d.action = .commit → ∀ c token, Good c.tokenId token →
      CommitChecked C cfg d.world s d.message c → Appends C cfg d.world s c token →
      Good c.tokenId (token.commitBlock C cfg.validators c.proposedBlock
        (s.rollbackTarget c)).1) (hg : d.action = .blockFinalized → ∀ block token,
      Good block.signedTrans.transaction.tokenId token →
      GossipChecked C d.world s d.message block token → links (cachedTip token.chain) block = true →
      createHash C block = block.currentHash → Good block.signedTrans.transaction.tokenId
        (token.grown (block :: (s.replayed C d.world block).2))) {token : Token}
    (h : (committerStep C P cfg s d).tokens.lookup tokenId = some token) : Good tokenId token := by
  have hc : ∀ {tokenId : Bytes} {token : Token},
      cachedToken d.world s.tokens tokenId = some token → Good tokenId token := by
    intro tokenId token hc
    unfold cachedToken at hc
    split at hc
    · next hl =>
      exact hgd tokenId token (hl.trans hc)
    · exact hld tokenId token hc
  cases tokenChange_of_step h with
  | kept hk => exact hc hk
  | committed ha hch hf hap hid =>
    rw [← hid]
    exact hcm ha _ _ (hc hap.lands.cached) hch hap
  | gossiped ha hch hln hh hid =>
    rw [← hid]
    exact hg ha _ _ (hc hch.cached) hch hln hh

theorem ChainsValid.step (h : ChainsValid C s) (hld : LoadsEmpty d) :
    ChainsValid C (committerStep C P cfg s d) := by
  refine fun tokenId token => forall_cached_of_step
    (fun _ token => ValidChain C token.chain) h (fun id token hlo => ?_)
    (fun _ c token hv _ ha =>
      Token.commitBlockAs_valid hv ha.lands.accepted)
    (fun _ block token hv _ hl hh => grown_valid hv hl hh)
  rw [(hld id token hlo).1]
  exact validChain_nil

/-- The chain is within the security level, which is not zero. -/
def Token.Capped (token : Token) : Prop :=
  token.chain.length ≤ token.securityLevel ∧ 1 ≤ token.securityLevel

/-- Every cached chain is. -/
def AllCapped (s : CommitterState) : Prop :=
  ∀ tokenId token, s.tokens.lookup tokenId = some token → token.Capped

theorem AllCapped.step (h : AllCapped s) (hld : LoadsEmpty d)
    (hs : CapSafe C s d) : AllCapped (committerStep C P cfg s d) := by
  refine fun tokenId token => forall_cached_of_step (fun _ token => token.Capped) h
    (fun id token hlo => ?_) (fun _ c token hc _ ha => ?_)
    (fun hac block token hc hch hln hh => ?_)
  · obtain ⟨he, hl⟩ := hld id token hlo
    refine ⟨?_, hl⟩
    rw [he]
    exact Nat.zero_le _
  · refine ⟨Token.commitBlock_length hc.1 hc.2 ha.lands.accepted, ?_⟩
    rw [Token.commitBlock_of_accepted ha.lands.accepted]
    exact hc.2
  · have hf := hs hac block token _ hch hln hh (s.releasable_replayed C d.world block)
    refine ⟨?_, hc.2⟩
    show (token.chain ++ block :: (s.replayed C d.world block).2).length ≤ token.securityLevel
    rw [length_append, length_cons]
    exact Nat.le_trans (by omega) hf

/-- From empty chains, every chain of every run is valid, whatever is delivered. -/
theorem chainsValid_of_empty {deliveries : List CommitterDelivery}
    (he : EmptyChains s) (hld : ∀ d ∈ deliveries, LoadsEmpty d) :
    ChainsValid C (Run.run (committerStep C P cfg) s deliveries) := by
  have hs : ChainsValid C s := by
    intro tokenId token hl
    rw [(he tokenId token hl).1]
    exact validChain_nil
  exact Run.run_invariant (fun _ _ h hlo => h.step hlo) hs (Run.meets_of_forall hld)

/-- And where no gossiped block goes on a full chain, none is longer than its cap. -/
theorem chainsSound_of_capSafe {deliveries : List CommitterDelivery}
    (hempty : EmptyChains s) (hloads : ∀ d ∈ deliveries, LoadsEmpty d)
    (hsafe : Run.Meets (committerStep C P cfg) (CapSafe C) s deliveries) :
    ChainsValid C (Run.run (committerStep C P cfg) s deliveries) ∧
      ChainsCapped (Run.run (committerStep C P cfg) s deliveries) := by
  refine ⟨chainsValid_of_empty hempty hloads, ?_⟩
  have hs : AllCapped s := by
    intro tokenId token hl
    obtain ⟨hnil, hlv⟩ := hempty tokenId token hl
    refine ⟨?_, hlv⟩
    rw [hnil]
    exact Nat.zero_le _
  have hend : AllCapped (Run.run (committerStep C P cfg) s deliveries) :=
    Run.run_invariant (fun _ _ h hg => h.step hg.1 hg.2) hs ((Run.meets_of_forall hloads).and hsafe)
  exact fun tokenId token hl => (hend tokenId token hl).1

/-- A first block, and one that follows it. -/
def firstBlock : Block := blockOn [] (signedCarrier (routedTransaction "a") none)

def nextBlock : Block :=
  blockOn firstBlock.currentHash (signedCarrier (routedTransaction "b") none)

/-- A codec in which a body names one of the two. -/
def gossipCodec : Codec :=
  { ShieldedPool.sampleCodec with
    decodeBlock := fun body => if body = [1] then some firstBlock else some nextBlock }

/-- A data service whose tokens are to hold one block. -/
def shortWorld : CommitterWorld :=
  { obligingWorld with
    getToken := fun tokenId => some { emptyToken with id := tokenId, securityLevel := 1 } }

def gossipOf (body : Bytes) : CommitterDelivery :=
  { world := shortWorld
    action := .blockFinalized
    message := { publicKey := [4], body := body, signature := [] } }

theorem gossipOf_loadsEmpty (body : Bytes) : LoadsEmpty (gossipOf body) := by
  intro tokenId token h
  obtain rfl := some.inj h
  exact ⟨rfl, Nat.le_refl 1⟩

theorem bootState_emptyChains : EmptyChains bootState := by
  intro tokenId token h
  cases h

/-- Two gossiped blocks on a token that is to hold one. -/
theorem gossip_exceeds_cap :
    EmptyChains bootState ∧ LoadsEmpty (gossipOf [1]) ∧ LoadsEmpty (gossipOf [2]) ∧
      ((Run.run (committerStep gossipCodec ShieldedPool.samplePrimitives sampleCommitter)
        bootState [gossipOf [1], gossipOf [2]]).tokens.lookup [7]).map
          (fun token => (token.chain.length, token.securityLevel)) = some (2, 1) :=
  ⟨bootState_emptyChains, gossipOf_loadsEmpty _, gossipOf_loadsEmpty _, rfl⟩

/-- One block fits. -/
theorem one_gossip_fits :
    ((Run.run (committerStep gossipCodec ShieldedPool.samplePrimitives sampleCommitter)
        bootState [gossipOf [1]]).tokens.lookup [7]).map Token.chain = some [firstBlock] ∧
      ChainsValid gossipCodec (Run.run (committerStep gossipCodec
        ShieldedPool.samplePrimitives sampleCommitter) bootState [gossipOf [1]]) ∧
      ChainsCapped (Run.run (committerStep gossipCodec
        ShieldedPool.samplePrimitives sampleCommitter) bootState [gossipOf [1]]) := by
  refine ⟨rfl, chainsSound_of_capSafe bootState_emptyChains
    (by simpa using gossipOf_loadsEmpty [1]) ⟨?_, trivial⟩⟩
  intro _ block token r hc _ _ hr
  obtain rfl : firstBlock = block := some.inj hc.decoded
  obtain rfl := some.inj hc.cached
  rw [hr.eq_nil rfl]
  exact Nat.le_refl 1

end Pneumatic
