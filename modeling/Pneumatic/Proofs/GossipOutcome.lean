import Pneumatic.Proofs.CommitOutcome

/-!
# Where a gossiped block ends

`handle_block_finalized` refuses a block, buffers it, drops it for a hash it does
not have, or appends it. `GossipExit` lists the four with the exact state each
leaves. After an append the replay takes orphans out of the buffer one by one;
what it takes depends on the buffer alone, because every block it appends is the
tip the next one is looked up by, so `OrphanBuffer.replay` says it without the
chain.

The pool comes last, block by block, and stops at the first block it refuses or
cannot save. The chain is not taken back then.
-/

namespace Pneumatic

open Handler HandlerM CommitterState OrphanBuffer Finmap List Option

variable {C : Codec} {P : ShieldedPrimitives} {cfg : CommitterConfig}
  {world : CommitterWorld} {s : CommitterState}

/-- What a replay from a hash leaves in the buffer, and the blocks it appends. A
block whose hash is wrong is taken out, and ends the replay. -/
def OrphanBuffer.replay (C : Codec) (now : Nat) (tokenId : Bytes) :
    Nat → OrphanBuffer → Bytes → OrphanBuffer × List Block
  | 0, buffer, _ => (buffer, [])
  | turns + 1, buffer, tip =>
    match (buffer.dropExpired now).takeMatching tokenId tip now with
    | (buffer, none) => (buffer, [])
    | (buffer, some chosen) =>
      if createHash C chosen = chosen.currentHash then
        let (buffer, blocks) := replay C now tokenId turns buffer chosen.currentHash
        (buffer, chosen :: blocks)
      else (buffer, [])

section Replay

variable {now : Nat} {tokenId tip : Bytes} {turns : Nat} {buffer buffer' : OrphanBuffer}

theorem OrphanBuffer.replay_none
    (h : (buffer.dropExpired now).takeMatching tokenId tip now = (buffer', none)) :
    buffer.replay C now tokenId (turns + 1) tip = (buffer', []) := by
  rw [replay, h]

theorem OrphanBuffer.replay_wrong {chosen : Block}
    (h : (buffer.dropExpired now).takeMatching tokenId tip now =
      (buffer', some chosen)) (hh : createHash C chosen ≠ chosen.currentHash) :
    buffer.replay C now tokenId (turns + 1) tip = (buffer', []) := by
  rw [replay, h]
  exact if_neg hh

theorem OrphanBuffer.replay_some {chosen : Block}
    (h : (buffer.dropExpired now).takeMatching tokenId tip now =
      (buffer', some chosen)) (hh : createHash C chosen = chosen.currentHash) :
    buffer.replay C now tokenId (turns + 1) tip =
      ((buffer'.replay C now tokenId turns chosen.currentHash).1,
        chosen :: (buffer'.replay C now tokenId turns chosen.currentHash).2) := by
  rw [replay, h]
  exact if_pos hh

end Replay

section Releasable

variable {now : Nat} {tokenId tip : Bytes} {block : Block} {blocks : List Block}
  {buffer buffer' : OrphanBuffer}

theorem Releasable.nil (now : Nat) (buffer : OrphanBuffer)
    (tokenId tip : Bytes) : Releasable C now buffer tokenId tip [] :=
  ⟨nil_subperm, trivial, fun _ hb => by cases hb⟩

theorem Releasable.eq_nil (h : Releasable C now buffer tokenId tip blocks)
    (he : buffer.live tokenId now = []) : blocks = [] := by
  have hw := h.waiting
  rw [he] at hw
  exact subperm_nil.mp hw

theorem Releasable.hashes_cons (h : Releasable C now buffer tokenId tip blocks)
    (hh : createHash C block = block.currentHash) :
    ∀ b ∈ block :: blocks, createHash C b = b.currentHash := by
  intro b hb
  rcases mem_cons.mp hb with rfl | hb
  · exact hh
  · exact h.hashes b hb

theorem Releasable.cons (hp : block.previousHash = tip)
    (hl : (block :: buffer'.live tokenId now).Perm (buffer.live tokenId now))
    (hh : createHash C block = block.currentHash)
    (hr : Releasable C now buffer' tokenId block.currentHash blocks) :
    Releasable C now buffer tokenId tip (block :: blocks) := by
  refine ⟨?_, ⟨hp, hr.follows⟩, hr.hashes_cons hh⟩
  exact hl.subperm_left.mp ((subperm_cons block).mpr hr.waiting)

theorem OrphanBuffer.releasable_replay (turns : Nat) (buffer : OrphanBuffer) (tip : Bytes) :
    Releasable C now buffer tokenId tip (buffer.replay C now tokenId turns tip).2 := by
  induction turns generalizing buffer tip with
  | zero => exact .nil _ _ _ _
  | succ turns ih =>
    cases ht : (buffer.dropExpired now).takeMatching tokenId tip now with
    | mk buffer' c =>
      cases c with
      | none => rw [replay_none ht]; exact .nil _ _ _ _
      | some c =>
        by_cases hh : createHash C c = c.currentHash
        · obtain ⟨hp, hl, -⟩ := takeMatching_some ht
          rw [live_dropExpired] at hl
          rw [replay_some ht hh]
          exact .cons hp hl hh (ih buffer' _)
        · rw [replay_wrong ht hh]; exact .nil _ _ _ _

end Releasable

variable {E : CommitterError → CommitterState → Prop} {blocks : List Block}

section Append

variable {tokenId : Bytes} {token : Token} {block : Block}

def Token.grown (token : Token) (blocks : List Block) : Token :=
  { token with chain := token.chain ++ blocks }

@[simp]
theorem Token.grown_nil (token : Token) : token.grown [] = token := by
  rw [grown, append_nil]

@[simp]
theorem Token.grown_grown (token : Token) (blocks blocks' : List Block) :
    (token.grown blocks).grown blocks' = token.grown (blocks ++ blocks') := by
  simp only [grown, append_assoc]

@[simp]
theorem cachedTip_grown_singleton (token : Token) (block : Block) :
    cachedTip (token.grown [block]).chain = block.currentHash := by
  simp only [Token.grown, cachedTip, getLast?_append, getLast?_singleton, some_or]

/-- The state with blocks appended to a cached chain by gossip. -/
def CommitterState.grown (s : CommitterState) (tokenId : Bytes) (token : Token)
    (blocks : List Block) : CommitterState :=
  { s with
    tokens := s.tokens.insert tokenId (token.grown blocks)
    log := s.log ++ gossiped tokenId blocks }

theorem ends_appendToChain {Q : AppendOutcome → CommitterState → Prop}
    (hm : links (cachedTip token.chain) block = false → Q .linkageMismatch s)
    (hi : links (cachedTip token.chain) block = true →
      createHash C block ≠ block.currentHash → Q .invalidHash s)
    (ha : links (cachedTip token.chain) block = true →
      createHash C block = block.currentHash → Q .appended (s.grown tokenId token [block])) :
    Ends (appendToChain C tokenId token block) s Q E := by
  unfold appendToChain appendValidatedBlock
  cases hl : links (cachedTip token.chain) block with
  | false => exact hm hl
  | true =>
    by_cases hh : createHash C block = block.currentHash
    · rw [if_neg (not_not.mpr hh)]
      exact ha hl hh
    · rw [if_pos hh]
      exact hi hl hh

theorem CommitterState.grown_grown {blocks' : List Block} :
    (s.grown tokenId token blocks).grown tokenId (token.grown blocks) blocks' =
      s.grown tokenId token (blocks ++ blocks') := by
  simp only [grown, Token.grown_grown, insert_insert, gossiped, map_append, append_assoc]

theorem CommitterState.grown_nil (h : s.tokens.lookup tokenId = some token) :
    s.grown tokenId token [] = s := by
  rw [grown, Token.grown_nil, insert_eq_self_iff.mpr h, append_gossiped_nil]

end Append

variable {tokenId tip : Bytes}

theorem ends_takeOrphan {Q : Option Block → CommitterState → Prop}
    (h : ∀ o c, (s.orphans.dropExpired world.now).takeMatching tokenId
      tip world.now = (o, c) → Q c { s with orphans := o }) :
    Ends (takeOrphan world tokenId tip) s Q E :=
  h _ _ rfl

/-- The replay over a cached chain, from its tip. -/
theorem ends_replayLoop {token : Token} {turns : Nat} {Q : List Block → CommitterState → Prop}
    (hc : s.tokens.lookup tokenId = some token)
    (htip : cachedTip token.chain = tip)
    (hQ : Q (s.orphans.replay C world.now tokenId turns tip).2
      { s.grown tokenId token (s.orphans.replay C world.now tokenId turns tip).2 with
        orphans := (s.orphans.replay C world.now tokenId turns tip).1 }) :
    Ends (replayLoop C world tokenId turns tip) s Q E := by
  induction turns generalizing s token tip Q with
  | zero =>
    rw [OrphanBuffer.replay, grown_nil hc] at hQ
    exact hQ
  | succ turns ih =>
    simp only [replayLoop, ends_bind]
    refine ends_takeOrphan fun o c ht => ?_
    -- a turn that appends nothing ends the replay
    have hs : s.orphans.replay C world.now tokenId (turns + 1) tip =
        (o, []) → Q [] { s with orphans := o } := by
      intro hn
      rw [hn, grown_nil hc] at hQ
      exact hQ
    cases c with
    | none => exact hs (replay_none ht)
    | some c =>
      obtain ⟨hp, -, -⟩ := takeMatching_some ht
      have hl : links (cachedTip token.chain) c = true :=
        links_of_eq (hp.trans htip.symm)
      simp only [ends_bind, ends_getState, hc]
      refine ends_appendToChain (fun hnot => ?_) (fun _ hh => ?_) (fun _ hh => ?_)
      · cases hnot.symm.trans hl
      · exact hs (replay_wrong ht hh)
      · simp only [ends_bind, ends_pure]
        refine ih (lookup_insert _) (cachedTip_grown_singleton _ _) ?_
        rw [replay_some ht hh] at hQ
        rw [grown_grown]
        exact hQ

/-- The pool after the loop over the appended blocks, and how the loop ends. -/
def finalizedPool (C : Codec) (P : ShieldedPrimitives) (cfg : CommitterConfig)
    (world : CommitterWorld) : ShieldedPool → List Block →
    ShieldedPool × Except CommitterError Unit
  | pool, [] => (pool, .ok ())
  | pool, block :: rest =>
    match pool.applyUpdate C P cfg.env block with
    | (pool, .error e) => (pool, .error e)
    | (pool, .ok .applied) =>
      if world.savePool pool.stateSnapshot = true then
        finalizedPool C P cfg world pool rest
      else (pool, .error .poolPersist)
    | (pool, .ok _) => finalizedPool C P cfg world pool rest

theorem ends_finalizedPool {Q : Unit → CommitterState → Prop}
    (hQ : ∀ pool, finalizedPool C P cfg world s.pool blocks = (pool, .ok ()) →
      Q () { s with pool := pool })
    (hE : ∀ e pool, finalizedPool C P cfg world s.pool blocks = (pool, .error e) →
      E e { s with pool := pool }) :
    Ends (applyFinalized C P cfg world blocks) s Q E := by
  induction blocks generalizing s with
  | nil => exact hQ s.pool rfl
  | cons block rest ih =>
    simp only [applyFinalized, ends_bind]
    refine ends_poolApply (fun o pool ha => ?_) fun e pool ha => ?_
    all_goals simp only [finalizedPool, ha] at hQ hE
    · cases o with
      | alreadyApplied => exact ih hQ hE
      | plain => exact ih hQ hE
      | applied =>
        simp only [poolSave, ends_bind, ends_getState, ends_require]
        refine ⟨fun hs => ?_, fun hs => hE _ pool (if_neg hs)⟩
        exact ih (fun pool' h => hQ pool' ((if_pos hs).trans h))
          (fun e pool' h => hE e pool' ((if_pos hs).trans h))
    · exact hE e pool rfl

variable (cfg world) in
/-- Where the pool takes every block the loop ends with all their hashes in, also if the
last save fails. -/
theorem takenAll_finalizedPool {pool : ShieldedPool}
    (h : UniqueInv P pool) (hh : ∀ block ∈ blocks, createHash C block = block.currentHash) :
    UniqueInv P (finalizedPool C P cfg world pool blocks).1 ∧
      (PoolTakes C P cfg.env world pool blocks →
        TakenAll P blocks pool (finalizedPool C P cfg world pool blocks).1) := by
  -- the pool moves along the list, so the condition on it has to move too
  induction blocks generalizing pool with
  | nil => exact ⟨h, fun _ => h.takenAll (by simp)⟩
  | cons block rest ih =>
    have hkey := blockKey_of_createHash (hh block mem_cons_self)
    rcases h.applyUpdate cfg.env hkey with ⟨pool', o, heq, ht⟩ | ⟨e, heq⟩
    · have hr := ih ht.unique fun b hb => hh b (mem_cons_of_mem _ hb)
      have hth : PoolTakes C P cfg.env world pool (block :: rest) →
          (o = .applied → rest.any Block.isShielded = true →
            world.savePool pool'.stateSnapshot = true) ∧
          PoolTakes C P cfg.env world pool' rest := by
        rintro ⟨pool₁, o₁, heq₁, hs, htk⟩
        cases heq.symm.trans heq₁
        exact ⟨hs, htk⟩
      have hd : PoolTakes C P cfg.env world pool (block :: rest) →
          TakenAll P (block :: rest) pool (finalizedPool C P cfg world pool' rest).1 :=
        fun htk => ht.cons (hr.2 (hth htk).2)
      cases o with
      | alreadyApplied | plain =>
        simp only [finalizedPool, heq]
        exact ⟨hr.1, hd⟩
      | applied =>
        simp only [finalizedPool, heq]
        split_ifs with hsv
        · exact ⟨hr.1, hd⟩
        · refine ⟨ht.unique, fun htk => ?_⟩
          exact ht.cons (ht.unique.takenAll fun hany => hsv ((hth htk).1 rfl hany))
    · simp only [finalizedPool, heq]
      refine ⟨h, ?_⟩
      rintro ⟨pool', o', heq', -⟩
      cases heq.symm.trans heq'

/-- A gossiped block that gets to the chain of its token. -/
structure GossipChecked (C : Codec) (world : CommitterWorld) (s : CommitterState)
    (message : Message) (block : Block) (token : Token) : Prop where
  sender : authenticateSender C world message = .ok ()
  decoded : C.decodeBlock message.body = some block
  authority : gossipAuthority C world s.pending block message.publicKey = .ok ()
  cached : cachedToken world s.tokens block.signedTrans.transaction.tokenId = some token

theorem GossipChecked.admitted {message : Message} {block : Block} {token : Token}
    (h : GossipChecked C world s message block token)
    (hl : links (cachedTip token.chain) block = true)
    (hh : createHash C block = block.currentHash) : GossipAdmitted C world s message block :=
  ⟨h.sender, h.decoded, h.authority, ⟨token, h.cached, hl⟩, hh⟩

namespace CommitterState

variable (C world s)

/-- The buffer after the replay that follows a block, and the blocks it appends. -/
def replayed (block : Block) : OrphanBuffer × List Block :=
  s.orphans.replay C world.now block.signedTrans.transaction.tokenId
    (s.orphans.len + 1) block.currentHash

theorem releasable_replayed (block : Block) : Releasable C world.now s.orphans
      block.signedTrans.transaction.tokenId block.currentHash (s.replayed C world block).2 :=
  releasable_replay _ _ _

/-- The state after a block of a cached token is gossiped, up to the pool. -/
def gossipedTo (block : Block) (token : Token) : CommitterState :=
  { s.grown block.signedTrans.transaction.tokenId token
      (block :: (s.replayed C world block).2) with
    orphans := (s.replayed C world block).1 }

end CommitterState

/-- How the handling of a gossiped block ends. -/
inductive GossipExit (C : Codec) (P : ShieldedPrimitives) (cfg : CommitterConfig)
    (world : CommitterWorld) (s : CommitterState) (message : Message) :
    Except CommitterError Unit → CommitterState → Prop
  | refused {e : CommitterError}
      (hnot : ∀ block token, ¬ GossipChecked C world s message block token) :
      GossipExit C P cfg world s message (.error e) s
  | buffered {block : Block} {token : Token}
      (hchecked : GossipChecked C world s message block token)
      (hlinks : links (cachedTip token.chain) block = false) :
      GossipExit C P cfg world s message (.ok ())
        { s with
          tokens := s.tokens.insert block.signedTrans.transaction.tokenId token
          orphans := (s.orphans.insert block.signedTrans.transaction.tokenId block
            world.now).1 }
  | misnamed {block : Block} {token : Token} {e : CommitterError}
      (hchecked : GossipChecked C world s message block token)
      (hlinks : links (cachedTip token.chain) block = true)
      (hhash : createHash C block ≠ block.currentHash) :
      GossipExit C P cfg world s message (.error e)
        { s with
          tokens := s.tokens.insert block.signedTrans.transaction.tokenId token }
  | appended {block : Block} {token : Token} {pool : ShieldedPool}
      {verdict : Except CommitterError Unit}
      (hchecked : GossipChecked C world s message block token)
      (hlinks : links (cachedTip token.chain) block = true)
      (hhash : createHash C block = block.currentHash)
      (hpool : finalizedPool C P cfg world s.pool
        (block :: (s.replayed C world block).2) = (pool, verdict)) :
      GossipExit C P cfg world s message verdict
        { s.gossipedTo C world block token with pool := pool }

/-- The gates in front of the chain, then the three outcomes of the append. -/
theorem ends_handleBlockFinalized {message : Message} {Q : Unit → CommitterState → Prop}
    (hr : (∀ block token, ¬ GossipChecked C world s message block token) → ∀ e, E e s)
    (hb : ∀ block token, GossipChecked C world s message block token →
      links (cachedTip token.chain) block = false →
      Q () { s with
        tokens := s.tokens.insert block.signedTrans.transaction.tokenId token
        orphans := (s.orphans.insert block.signedTrans.transaction.tokenId block
          world.now).1 })
    (hm : ∀ block token, GossipChecked C world s message block token →
      links (cachedTip token.chain) block = true → createHash C block ≠ block.currentHash →
      ∀ e, E e { s with
        tokens := s.tokens.insert block.signedTrans.transaction.tokenId token })
    (hap : ∀ block token, GossipChecked C world s message block token →
      links (cachedTip token.chain) block = true → createHash C block = block.currentHash →
      Ends (applyFinalized C P cfg world (block :: (s.replayed C world block).2))
        (s.gossipedTo C world block token) Q E) :
    Ends (handleMessage C P cfg world .blockFinalized message) s Q E := by
  simp only [handleMessage, handleBlockFinalized, ends_bind, ends_ofOption,
    ends_getState, ends_lift]
  refine ⟨fun _ hs => ⟨fun block hd => ⟨fun _ ha => ?_,
    fun e hf => ?_⟩, fun hf => ?_⟩, fun e hf => ?_⟩
  · refine ends_warmToken (fun token t hcc hlk _ ho => ?_) (fun hn => ?_)
    · have hc : GossipChecked C world s message block token :=
        ⟨hs, hd, ha, hcc⟩
      obtain rfl := ho.eq_insert hlk
      refine ends_appendToChain (fun hl => hb block token hc hl)
        (fun hl hh => hm block token hc hl hh _)
        (fun hl hh => ?_)
      simp only [replayOrphanBlocks, ends_bind, ends_getState]
      refine ends_replayLoop (lookup_insert _) (cachedTip_grown_singleton _ _) ?_
      have hdn := hap block token hc hl hh
      simp only [gossipedTo, grown] at hdn
      simp only [grown, Token.grown_grown, insert_insert, append_gossiped_cons, singleton_append]
      exact hdn
    · refine hr fun block' token' h => ?_
      obtain rfl := mem_unique hd h.decoded
      cases hn.symm.trans h.cached
  · refine hr (fun block' token' h => ?_) e
    obtain rfl := mem_unique hd h.decoded
    cases hf.symm.trans h.authority
  · exact hr (fun block token h => by cases hf.symm.trans h.decoded) _
  · exact hr (fun block token h => by cases hf.symm.trans h.sender) _

variable (C P cfg world s) in
/-- Every gossiped block leaves by one of the ways out. -/
theorem gossipExit (message : Message) : GossipExit C P cfg world s message
      ((handleMessage C P cfg world .blockFinalized message).exec s).1
      ((handleMessage C P cfg world .blockFinalized message).exec s).2 := by
  refine ends_verdict.mp (ends_handleBlockFinalized (fun hnot e => .refused hnot)
    (fun block token hc hl => .buffered hc hl) (fun block token hc hl hh e => .misnamed hc hl hh)
    (fun block token hc hl hh => ?_))
  exact ends_finalizedPool (fun pool hp => .appended hc hl hh hp)
    (fun e pool hp => .appended hc hl hh hp)

/-- What holds on every way out holds after a message. -/
theorem committerStep_induct {Q : CommitterState → Prop} {d : CommitterDelivery}
    (hc : d.action = .commit → ∀ {v s'},
      CommitMessageExit C P cfg d.world s d.message v s' → Q s')
    (hg : d.action = .blockFinalized → ∀ {v s'},
      GossipExit C P cfg d.world s d.message v s' → Q s') :
    Q (committerStep C P cfg s d) := by
  unfold committerStep committerHandle
  cases ha : d.action with
  | commit => exact hc ha (commitMessageExit C P cfg d.world s d.message)
  | blockFinalized => exact hg ha (gossipExit C P cfg d.world s d.message)

end Pneumatic
