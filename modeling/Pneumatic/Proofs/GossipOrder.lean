import Pneumatic.Lib.Reorder
import Pneumatic.Proofs.ChainOwnership
import Pneumatic.Proofs.Conflicts

/-!
# The order in which blocks arrive

A gossiped block that goes on the tip is appended, and the orphan buffer is asked
again and again for the block that goes on the new tip; any other block waits in the
buffer. The answer is the oldest waiting block that names the tip as its parent, and
a block whose hash is wrong ends the search when it is the answer, whatever waits
behind it. `Tracks` says that the chain of a token and its part of the buffer are the
line of `Reorder`, message by message, so that library says which orders of a set of
blocks leave the whole chain: those in which no block of it came between a block with
a wrong hash that names the same parent and a block in front of both.

A Commit goes on the tip or is refused, and asks the buffer for nothing. So it does
no harm only when its parent is there and no valid block waits for it.
-/

namespace Pneumatic

open Handler HandlerM Run ShieldedPool Finmap List CommitterState

variable {C : Codec} {P : ShieldedPrimitives} {cfg : CommitterConfig} {s : CommitterState}

/-- What the chain and the buffer read of a block. -/
def hashLabels (C : Codec) : Reorder.Labels Block Bytes where
  parent := Block.previousHash
  name := Block.currentHash
  sound block := createHash C block = block.currentHash

/-! ## The buffer as a queue -/

namespace OrphanBuffer

def queue (buffer : OrphanBuffer) (tokenId : Bytes) : List Block :=
  (buffer.entries.filter fun b => b.tokenId == tokenId).map BufferedBlock.block

/-- The blocks of a token have come since a moment, and there is room for some
more. -/
structure Ready (buffer : OrphanBuffer) (tokenId : Bytes) (since ttl need : Nat) :
    Prop where
  ttl_eq : buffer.ttl = ttl
  fresh : ∀ b ∈ buffer.entries, b.tokenId = tokenId → since ≤ b.insertedAt ∧ b.ttl = ttl
  room : buffer.len + need ≤ buffer.maxEntries
  share : (buffer.queue tokenId).length + need ≤ buffer.maxPerToken

variable {buffer : OrphanBuffer} {tokenId : Bytes} {since ttl need now : Nat}

theorem Ready.not_expired (h : buffer.Ready tokenId since ttl need) (hsince : since ≤ now)
    (hnow : now < since + ttl) {b : BufferedBlock} (hb : b ∈ buffer.entries)
    (hid : b.tokenId = tokenId) : b.isExpired now = false := by
  obtain ⟨hi, httl⟩ := h.fresh b hb hid
  have hl : ¬ b.ttl ≤ now - b.insertedAt := by omega
  exact decide_eq_false hl

theorem Ready.mono {need' : Nat} (h : buffer.Ready tokenId since ttl need)
    (hle : need' ≤ need) : buffer.Ready tokenId since ttl need' :=
  ⟨h.ttl_eq, h.fresh, Nat.le_trans (Nat.add_le_add_left hle _) h.room,
    Nat.le_trans (Nat.add_le_add_left hle _) h.share⟩

theorem mem_queue {b : BufferedBlock} (hb : b ∈ buffer.entries) (hid : b.tokenId = tokenId) :
    b.block ∈ buffer.queue tokenId :=
  mem_map_of_mem (mem_filter.mpr ⟨hb, beq_iff_eq.mpr hid⟩)

theorem length_queue_le (buffer : OrphanBuffer) : (buffer.queue tokenId).length ≤ buffer.len := by
  rw [queue, length_map]
  exact length_filter_le _ _

section InTime

variable (h : buffer.Ready tokenId since ttl need) (hsince : since ≤ now) (hnow : now < since + ttl)

include h hsince hnow

theorem queue_dropExpired : (buffer.dropExpired now).queue tokenId = buffer.queue tokenId := by
  unfold queue dropExpired
  rw [filter_filter]
  refine congrArg _ (filter_congr fun b hb => ?_)
  cases hid : b.tokenId == tokenId with
  | false => rfl
  | true => simp [h.not_expired hsince hnow hb (eq_of_beq hid)]

theorem ready_dropExpired : (buffer.dropExpired now).Ready tokenId since ttl need where
  ttl_eq := h.ttl_eq
  fresh b hb := h.fresh b (mem_of_mem_filter hb)
  room := Nat.le_trans (Nat.add_le_add_right (buffer.len_dropExpired_le now) need) h.room
  share := by
    rw [queue_dropExpired h hsince hnow]
    exact h.share

/-- What `take_matching` finds is the oldest block of the queue with that parent. -/
theorem takeMatching_queue (tip : Bytes) : (buffer.takeMatching tokenId tip now = (buffer, none) ∧
      ∀ b ∈ buffer.queue tokenId, b.previousHash ≠ tip) ∨
    ∃ front c back buffer', buffer.takeMatching tokenId tip now =
        (buffer', some c) ∧ buffer.queue tokenId = front ++ c :: back ∧
      (∀ b ∈ front, b.previousHash ≠ tip) ∧ c.previousHash = tip ∧
      buffer'.queue tokenId = front ++ back ∧ buffer'.Ready tokenId since ttl need := by
  -- a block of the token that does not match has another parent
  have ho : ∀ b ∈ buffer.entries, b.tokenId = tokenId →
      matching tokenId tip now b ≠ true → b.block.previousHash ≠ tip := by
    intro b hb hid hm heq
    refine hm ?_
    simp [matching, hid, heq, h.not_expired hsince hnow hb hid]
  unfold takeMatching
  cases hfn : buffer.entries.find? (matching tokenId tip now) with
  | none =>
    refine .inl ⟨rfl, fun b hb => ?_⟩
    obtain ⟨entry, hen, rfl⟩ := mem_map.mp hb
    obtain ⟨hmem, hid⟩ := mem_filter.mp hen
    exact ho entry hmem (eq_of_beq hid) (find?_eq_none.mp hfn entry hmem)
  | some found =>
    obtain ⟨hm, front, back, he, hf⟩ :=
      find?_eq_some_iff_append.mp hfn
    have hid : found.tokenId = tokenId ∧ found.block.previousHash = tip := by
      simp only [matching, Bool.and_eq_true, beq_iff_eq] at hm
      exact ⟨hm.1.1, hm.2⟩
    have her : buffer.entries.eraseP (matching tokenId tip now) = front ++ back := by
      rw [he, eraseP_append_right _ (by simpa using hf), eraseP_cons_of_pos hm]
    have hq : buffer.queue tokenId =
        (front.filter fun b => b.tokenId == tokenId).map BufferedBlock.block ++ found.block ::
            (back.filter fun b => b.tokenId == tokenId).map BufferedBlock.block := by
      rw [queue, he, filter_append, filter_cons_of_pos (by simp [hid.1]), map_append, map_cons]
    have hq' : ({ buffer with
        entries := buffer.entries.eraseP (matching tokenId tip now) } :
          OrphanBuffer).queue tokenId =
        (front.filter fun b => b.tokenId == tokenId).map BufferedBlock.block ++
          (back.filter fun b => b.tokenId == tokenId).map BufferedBlock.block := by
      rw [queue, her, filter_append, map_append]
    refine .inr ⟨_, _, _, _, rfl, hq, fun b hb => ?_, hid.2, hq',
      h.ttl_eq, fun b hb => h.fresh b (mem_of_mem_eraseP hb), ?_, ?_⟩
    · obtain ⟨entry, hen, rfl⟩ := mem_map.mp hb
      obtain ⟨hmem, hei⟩ := mem_filter.mp hen
      refine ho entry ?_ (eq_of_beq hei) (by simpa using hf entry hmem)
      rw [he]
      exact mem_append_left _ hmem
    · exact Nat.le_trans (Nat.add_le_add_right length_eraseP_le need) h.room
    · have hs := h.share
      rw [hq, length_append, length_cons] at hs
      rw [hq', length_append]
      dsimp only
      omega

end InTime

theorem queue_insert (h : buffer.Ready tokenId since ttl (need + 1)) (hsince : since ≤ now)
    (hnow : now < since + ttl) (block : Block) : (buffer.insert tokenId block now).1.queue tokenId =
        buffer.queue tokenId ++ [block] ∧
      (buffer.insert tokenId block now).1.Ready tokenId since ttl need := by
  have hr := ready_dropExpired h hsince hnow
  have hq := queue_dropExpired h hsince hnow
  generalize hd : buffer.dropExpired now = dropped at hr hq
  have hh : dropped.entries.countP (fun b => b.tokenId == tokenId) =
      (dropped.queue tokenId).length := by
    rw [queue, length_map, countP_eq_length_filter]
  have hrm := hr.room
  have hs := hr.share
  have hi : (buffer.insert tokenId block now).1 = dropped.pushBack tokenId block now := by
    unfold insert
    rw [hd]
    dsimp only
    rw [if_neg (by omega), hh,
      show (dropped.queue tokenId).length + 1 - dropped.maxPerToken = 0 by omega]
    rfl
  have hp : (dropped.pushBack tokenId block now).queue tokenId =
      dropped.queue tokenId ++ [block] := by
    simp [queue, pushBack]
  rw [hi, hp, hq]
  refine ⟨rfl, hr.ttl_eq, fun b hb hid => ?_, ?_, ?_⟩
  · rcases mem_append.mp hb with hb | hb
    · exact hr.fresh b hb hid
    · rw [mem_singleton.mp hb]
      exact ⟨hsince, hr.ttl_eq⟩
  · simp only [len, pushBack, length_append, length_singleton] at hrm ⊢
    omega
  · rw [hp, length_append, length_singleton]
    show (dropped.queue tokenId).length + 1 + need ≤ dropped.maxPerToken
    omega

/-- The replay takes from the queue what the line takes from the waiting blocks. -/
theorem release_replay (hsince : since ≤ now) (hnow : now < since + ttl) (turns : Nat)
    (h : buffer.Ready tokenId since ttl need)
    (htr : (buffer.queue tokenId).length < turns) (tip : Bytes) (placed : List Block) :
    Reorder.Release (hashLabels C) ⟨tip, placed, buffer.queue tokenId⟩
        ⟨(hashLabels C).tipAfter tip (buffer.replay C now tokenId turns tip).2,
          placed ++ (buffer.replay C now tokenId turns tip).2,
          (buffer.replay C now tokenId turns tip).1.queue tokenId⟩ ∧
      (buffer.replay C now tokenId turns tip).1.Ready tokenId since ttl need := by
  induction turns generalizing buffer tip placed with
  | zero => omega
  | succ turns ih =>
    have hr := ready_dropExpired h hsince hnow
    have hq := queue_dropExpired h hsince hnow
    rcases takeMatching_queue hr hsince hnow tip with
      ⟨ht, hn⟩ | ⟨front, c, back, buffer', ht, hs, ho, hp, hq', hr'⟩
    · rw [replay_none ht]
      refine ⟨?_, hr⟩
      rw [append_nil, hq]
      rw [hq] at hn
      exact .stop hn
    · rw [hq] at hs
      by_cases hh : createHash C c = c.currentHash
      · have hl : (buffer'.queue tokenId).length < turns := by
          rw [hs, length_append, length_cons] at htr
          rw [hq', length_append]
          omega
        obtain ⟨hrs, hd⟩ :=
          ih hr' hl c.currentHash (placed ++ [c])
        rw [replay_some ht hh]
        refine ⟨.next hs ho hp hh ?_, hd⟩
        rw [Reorder.tipAfter_cons, ← hq']
        rw [append_assoc] at hrs
        exact hrs
      · rw [replay_wrong ht hh]
        refine ⟨?_, hr'⟩
        rw [append_nil, hq']
        exact .drop hs ho hp hh

end OrphanBuffer

/-! ## Deliveries -/

section

variable (C : Codec) (P : ShieldedPrimitives) (cfg : CommitterConfig)

structure Parcel where
  delivery : CommitterDelivery
  block : Block

def parcelStep (s : CommitterState) (p : Parcel) : CommitterState :=
  committerStep C P cfg s p.delivery

/-- The chain of a token in the cache, where it may have to be loaded first. -/
def CommitterState.chainOf (s : CommitterState) (tokenId : Bytes) (token : Token) : List Block :=
  ((s.tokens.lookup tokenId).getD token).chain

/-- The message brings this block of the token, and passes the checks of its path in
the state it meets. -/
structure Authorised (tokenId : Bytes)
    (s : CommitterState) (p : Parcel) : Prop where
  ofToken : p.block.signedTrans.transaction.tokenId = tokenId
  gossiped : p.delivery.action = .blockFinalized → ∃ token,
    GossipChecked C p.delivery.world s p.delivery.message p.block token
  committed : p.delivery.action = .commit → ∃ commit,
    CommitChecked C cfg p.delivery.world s p.delivery.message commit ∧
      commit.proposedBlock = p.block ∧ commit.tokenId = tokenId

section

variable (s : CommitterState) (tokenId : Bytes) (token : Token) (chain wrong : List Block)
  (ps : List Parcel)

/-- The blocks to deliver: a chain on the tip of a token, which may still have to be
loaded, and some whose hash is wrong. The buffer holds none of the token and has room
for all. -/
structure Consignment : Prop where
  cached : (s.tokens.lookup tokenId).getD token = token
  course : Reorder.Course (hashLabels C) (cachedTip token.chain) chain
  misnamed : ∀ block ∈ wrong, createHash C block ≠ block.currentHash
  distinct : (chain ++ wrong).Nodup
  empty : s.orphans.queue tokenId = []
  room : s.orphans.len + (chain ++ wrong).length ≤ s.orphans.maxEntries
  share : (chain ++ wrong).length ≤ s.orphans.maxPerToken

/-- An order in which they are delivered, within the buffer's time limit. -/
structure DeliveryOrder : Prop where
  blocks : (ps.map Parcel.block).Perm (chain ++ wrong)
  authorised : Meets (parcelStep C P cfg) (Authorised C cfg tokenId) s ps
  current : ∀ p ∈ ps, cachedToken p.delivery.world s.tokens tokenId = some token
  inTime : ∃ since, ∀ p ∈ ps, since ≤ p.delivery.world.now ∧
    p.delivery.world.now < since + s.orphans.ttl

/-- After two orders the chains are the same, and end with the blocks. -/
structure SameChain (qs : List Parcel) : Prop where
  equal : (run (parcelStep C P cfg) s ps).chainOf tokenId token =
    (run (parcelStep C P cfg) s qs).chainOf tokenId token
  first : chain <:+ (run (parcelStep C P cfg) s ps).chainOf tokenId token
  second : chain <:+ (run (parcelStep C P cfg) s qs).chainOf tokenId token

end

/-- A Commit whose block goes on the tip: nothing refuses it, it has no rival, it
trims no block, and no block of the token waits for it. -/
structure GoesOnTip (world : CommitterWorld) (s : CommitterState) (commit : TransactionCommit)
    (token : Token) : Prop where
  unrivalled : s.candidatesAt commit.position = []
  ready : CommitReady C s commit
  goesOn : GoesOn C P cfg world s commit token
  hash_eq : createHash C commit.proposedBlock = commit.proposedBlock.currentHash
  untrimmed : token.securityLevel ≠ token.chain.length
  unawaited : ∀ block ∈ s.orphans.queue commit.tokenId, createHash C block = block.currentHash →
      block.previousHash ≠ commit.proposedBlock.currentHash

/-- A message that is a Commit has a block that goes on the tip. -/
def CommitsOnTip (s : CommitterState) (p : Parcel) : Prop :=
  p.delivery.action = .commit → ∀ commit,
    CommitChecked C cfg p.delivery.world s p.delivery.message commit →
      ∃ token, GoesOnTip C P cfg p.delivery.world s commit token

/-- No block of the chain came between a block with a wrong hash that names the same
parent and some block in front of both. -/
def Unintercepted (chain : List Block) (ps : List Parcel) : Prop :=
  ∀ pre block post, chain = pre ++ block :: post →
    ¬ Reorder.Intercepted (hashLabels C) (ps.map Parcel.block) pre block

end

/-! ## One message -/

theorem links_iff {tip : Bytes} {block : Block} :
    links tip block = true ↔ block.previousHash = tip := by
  refine ⟨fun h => ?_, links_of_eq⟩
  by_cases htip : tip = []
  · subst htip
    simpa [links] using h
  · exact (eq_of_links htip h).symm

theorem cachedTip_concat (chain : List Block) (block : Block) :
    cachedTip (chain ++ [block]) = block.currentHash := by
  simp [cachedTip]

theorem cachedTip_append (base placed : List Block) :
    cachedTip (base ++ placed) = (hashLabels C).tipAfter (cachedTip base) placed := by
  unfold cachedTip Reorder.Labels.tipAfter
  rw [getLast?_append]
  cases placed.getLast? with
  | none => rfl
  | some last => rfl

theorem GossipChecked.unique {world : CommitterWorld} {message : Message}
    {block block' : Block} {token token' : Token} (h : GossipChecked C world s message block token)
    (h' : GossipChecked C world s message block' token') : block = block' ∧ token = token' := by
  obtain rfl := Option.mem_unique h.decoded h'.decoded
  exact ⟨rfl, Option.mem_unique h.cached h'.cached⟩

section Track

variable {tokenId : Bytes} {token : Token} {base : List Block} {since ttl need : Nat}
  {l : Reorder.Line Block Bytes} {p : Parcel} {ps : List Parcel}

/-- The line that the chain and the buffer of a token are, with some messages still
to come. -/
structure Tracks (tokenId : Bytes) (token : Token) (base : List Block)
    (since ttl : Nat) (ps : List Parcel) (s : CommitterState)
    (l : Reorder.Line Block Bytes) : Prop where
  cached : ∀ p ∈ ps, cachedToken p.delivery.world s.tokens tokenId =
    some ((s.tokens.lookup tokenId).getD token)
  chain : s.chainOf tokenId token = base ++ l.placed
  tip : l.tip = cachedTip (base ++ l.placed)
  queue : s.orphans.queue tokenId = l.waiting
  ready : s.orphans.Ready tokenId since ttl ps.length
  inTime : ∀ p ∈ ps, since ≤ p.delivery.world.now ∧ p.delivery.world.now < since + ttl

section

variable (h : Tracks tokenId token base since ttl (p :: ps) s l)

include h

theorem Tracks.later {s' : CommitterState} {token' : Token} {l' : Reorder.Line Block Bytes}
    (hc : s'.tokens.lookup tokenId = some token') (hch : token'.chain = base ++ l'.placed)
    (htip : l'.tip = cachedTip (base ++ l'.placed)) (hqu : s'.orphans.queue tokenId = l'.waiting)
    (hr : s'.orphans.Ready tokenId since ttl ps.length) :
    Tracks tokenId token base since ttl ps s' l' := by
  refine ⟨fun q _ => ?_, ?_, htip, hqu, hr, fun q hq => h.inTime q (mem_cons_of_mem p hq)⟩
  · rw [cachedToken_of_lookup hc, hc, Option.getD_some]
  · rw [chainOf, hc, Option.getD_some, hch]

theorem Tracks.chain_known
    {known : Token} (hk : cachedToken p.delivery.world s.tokens tokenId = some known) :
    known.chain = base ++ l.placed ∧ l.tip = cachedTip known.chain := by
  have hc : known.chain = base ++ l.placed := by
    rw [← Option.mem_unique (h.cached p mem_cons_self) hk]
    exact h.chain
  rw [hc]
  exact ⟨rfl, h.tip⟩

section

variable (hauthorised : Authorised C cfg tokenId s p)

include hauthorised

/-- A gossiped block does to the chain and the buffer what it does to the line. -/
theorem Tracks.gossip (ha : p.delivery.action = .blockFinalized) :
    ∃ l', Reorder.Arrive (hashLabels C) l p.block l' ∧
      Tracks tokenId token base since ttl ps (parcelStep C P cfg s p) l' := by
  obtain ⟨known, hc⟩ := hauthorised.gossiped ha
  obtain rfl := hauthorised.ofToken
  obtain ⟨hsince, hnow⟩ := h.inTime p mem_cons_self
  obtain ⟨hch, htip⟩ := h.chain_known hc.cached
  have hrd : s.orphans.Ready p.block.signedTrans.transaction.tokenId since ttl
      (ps.length + 1) := h.ready
  have hs : s.orphans.Ready p.block.signedTrans.transaction.tokenId since ttl
      ps.length := hrd.mono (Nat.le_succ _)
  have he := gossipExit C P cfg p.delivery.world s p.delivery.message
  rw [← ha] at he
  unfold parcelStep committerStep committerHandle
  generalize (handleMessage C P cfg p.delivery.world p.delivery.action
    p.delivery.message).exec s = result at he ⊢
  obtain ⟨v, s'⟩ := result
  cases he with
  | refused hnot => exact absurd hc (hnot _ _)
  | buffered hmet hu =>
    obtain ⟨rfl, rfl⟩ := hc.unique hmet
    obtain ⟨hq, hlf⟩ := OrphanBuffer.queue_insert hrd hsince hnow p.block
    refine ⟨{ l with waiting := l.waiting ++ [p.block] }, .wait fun hp => ?_,
      h.later (lookup_insert _) hch h.tip ?_ hlf⟩
    · rw [links_of_eq (hp.trans htip)] at hu
      cases hu
    · rw [← h.queue]
      exact hq
  | misnamed hmet hl hh =>
    obtain ⟨rfl, rfl⟩ := hc.unique hmet
    exact ⟨l, .refuse ((links_iff.mp hl).trans htip.symm) hh,
      h.later (lookup_insert _) hch h.tip h.queue hs⟩
  | appended hmet hl hh hpl =>
    obtain ⟨rfl, rfl⟩ := hc.unique hmet
    -- the queue is no longer than the buffer, so the replay has turns enough
    have ht : (s.orphans.queue p.block.signedTrans.transaction.tokenId).length <
        s.orphans.len + 1 := Nat.lt_succ_of_le s.orphans.length_queue_le
    obtain ⟨hr, hlf⟩ := OrphanBuffer.release_replay (C := C) hsince hnow
      (s.orphans.len + 1) hs ht p.block.currentHash (l.placed ++ [p.block])
    rw [h.queue] at hr
    refine ⟨_, .place ((links_iff.mp hl).trans htip.symm) hh hr,
      h.later (lookup_insert _) ?_ ?_ rfl hlf⟩
    · show known.chain ++ p.block :: _ = _
      rw [hch]
      simp [replayed]
    · rw [← append_assoc, cachedTip_append (C := C)]
      rw [← append_assoc, cachedTip_concat]

/-- A Commit on the tip is an item that is let in. -/
theorem Tracks.commit (hac : p.delivery.action = .commit)
    (hon : CommitsOnTip C P cfg s p) : ∃ l', Reorder.Arrive (hashLabels C) l p.block l' ∧
      Tracks tokenId token base since ttl ps (parcelStep C P cfg s p) l' := by
  obtain ⟨c, hc, hb, rfl⟩ := hauthorised.committed hac
  obtain ⟨known, htip⟩ := hon hac c hc
  have hg := htip.goesOn
  obtain ⟨hch, hend⟩ := h.chain_known hg.lands.cached
  have hr := rollbackTarget_of_nil htip.unrivalled
  have ha := hg.lands.accepted
  rw [hr, Token.rolled_none] at ha
  have hh : Token.hashed C c.proposedBlock = p.block := by
    rw [Token.hashed, htip.hash_eq, ← hb]
  have hpr : p.block.previousHash = l.tip := by
    rw [hend, ← links_iff, ← hh]
    exact Token.links_of_validateBlock ha
  have he := commitMessageExit C P cfg p.delivery.world s p.delivery.message
  rw [← hac] at he
  unfold parcelStep committerStep committerHandle
  generalize (handleMessage C P cfg p.delivery.world p.delivery.action
    p.delivery.message).exec s = result at he ⊢
  obtain ⟨v, s'⟩ := result
  cases he with
  | refused hnot => exact absurd hc (hnot _)
  | handled hmet hend =>
    obtain rfl := Option.mem_unique hc.decoded hmet.decoded
    have hef := hend.effect
    cases hef with
    | refused hnot => exact absurd htip.ready hnot
    | discarded hrd hp hls =>
      have hrv := (mem_of_unbeaten hls).1
      rw [htip.unrivalled] at hrv
      cases hrv
    | unlanded hrd hp hbt hnot hcc ho =>
      exact absurd hg (hnot known)
    | landed hrd hp hbt hg' hl ho hu =>
      obtain rfl := Option.some.inj (hg.lands.cached.symm.trans hg'.lands.cached)
      refine ⟨_, .letIn hpr (hb ▸ htip.hash_eq) ?_,
        h.later hl ?_ ?_ h.queue (h.ready.mono (Nat.le_succ _))⟩
      · rw [← h.queue, ← hb]
        exact htip.unawaited
      · rw [hr, Token.commitBlock_of_accepted ha, Token.rolled_none,
          Token.keptChain, if_neg fun h => htip.untrimmed h.2, hh, hch, append_assoc]
      · rw [← append_assoc, cachedTip_concat]
        rfl

theorem Tracks.step (ho : CommitsOnTip C P cfg s p) :
    ∃ l', Reorder.Arrive (hashLabels C) l p.block l' ∧
      Tracks tokenId token base since ttl ps (parcelStep C P cfg s p) l' := by
  cases ha : p.delivery.action with
  | commit => exact h.commit hauthorised ha ho
  | blockFinalized => exact h.gossip hauthorised ha

end

end

theorem Tracks.run {start : Reorder.Line Block Bytes} {items : List Block}
    (h : Tracks tokenId token base since ttl ps s l)
    (hauthorised : Meets (parcelStep C P cfg) (Authorised C cfg tokenId) s ps)
    (ho : Meets (parcelStep C P cfg) (CommitsOnTip C P cfg) s ps)
    (hi : Reorder.Arrivals (hashLabels C) start items l) :
    ∃ l', Reorder.Arrivals (hashLabels C) start (items ++ ps.map Parcel.block) l' ∧
      (Run.run (parcelStep C P cfg) s ps).chainOf tokenId token = base ++ l'.placed := by
  induction ps generalizing s l items with
  | nil =>
    rw [map_nil, append_nil]
    exact ⟨l, hi, h.chain⟩
  | cons p ps ih =>
    obtain ⟨l', har, ht⟩ := h.step hauthorised.1 ho.1
    obtain ⟨l'', ha, hc⟩ :=
      ih ht hauthorised.2 ho.2 (hi.snoc har)
    rw [append_assoc, singleton_append] at ha
    exact ⟨l'', ha, hc⟩

end Track

/-! ## Two orders -/

section Orders

variable {tokenId : Bytes} {token : Token} {chain wrong : List Block} {ps qs : List Parcel}

/-- The chain at the end of an order: a beginning of the blocks, and all of them when
none was intercepted. -/
theorem DeliveryOrder.chain_eq (hbl : Consignment C s tokenId token chain wrong)
    (h : DeliveryOrder C P cfg s tokenId token chain wrong ps)
    (ho : Meets (parcelStep C P cfg) (CommitsOnTip C P cfg) s ps) :
    ∃ placed, (run (parcelStep C P cfg) s ps).chainOf tokenId token = token.chain ++ placed ∧
      placed <+: chain ∧ (placed = chain ↔ Unintercepted C chain ps) := by
  obtain ⟨since, ht⟩ := h.inTime
  have hl : ps.length = (chain ++ wrong).length := by
    rw [← h.blocks.length_eq, length_map]
  have hst : Tracks tokenId token token.chain since s.orphans.ttl ps s
      ⟨cachedTip token.chain, [], []⟩ := by
    refine ⟨fun p hp => ?_, ?_, ?_, hbl.empty, ⟨rfl, ?_, ?_, ?_⟩, ht⟩
    · rw [h.current p hp, hbl.cached]
    · rw [chainOf, hbl.cached, append_nil]
    · rw [append_nil]
    · intro b hb hid
      exact absurd hbl.empty (ne_nil_of_mem (OrphanBuffer.mem_queue hb hid))
    · rw [hl]
      exact hbl.room
    · rw [hbl.empty, hl, length_nil, Nat.zero_add]
      exact hbl.share
  obtain ⟨l, ha, hc⟩ := hst.run h.authorised ho .nil
  have hs : ∀ b ∈ ps.map Parcel.block, (hashLabels C).sound b → b ∈ chain := by
    intro b hb hr
    rcases mem_append.mp (h.blocks.mem_iff.mp hb) with hb | hb
    · exact hb
    · exact absurd hr (hbl.misnamed b hb)
  obtain ⟨hiff, hbg⟩ := Reorder.placed_iff hbl.course (h.blocks.nodup_iff.mpr hbl.distinct) hs
    (fun b hb => h.blocks.mem_iff.mpr (mem_append_left _ hb)) ha
  exact ⟨l.placed, hc, hbg, hiff⟩

/-- A beginning of the blocks that has all of them at its end is all of them. -/
theorem Consignment.eq_of_suffix (h : Consignment C s tokenId token chain wrong)
    {placed : List Block} (hb : placed <+: chain)
    (hs : chain <:+ token.chain ++ placed) : placed = chain := by
  rcases chain.eq_nil_or_concat with rfl | ⟨front, last, rfl⟩
  · exact prefix_nil.mp hb
  · refine h.course.tipAfter_inj hb (prefix_refl _) ?_
    obtain ⟨rest, hr⟩ := hs
    rw [← cachedTip_append, ← hr, concat_eq_append, ← append_assoc,
      cachedTip_concat, Reorder.tipAfter_concat]
    rfl

/-- Two orders, whose Commits all go on the tip, leave the same chain with all the
blocks if and only if neither has a block intercepted. -/
theorem sameChain_iff_unintercepted (hblocks : Consignment C s tokenId token chain wrong)
    (hps : DeliveryOrder C P cfg s tokenId token chain wrong ps)
    (hqs : DeliveryOrder C P cfg s tokenId token chain wrong qs)
    (hpsTip : Meets (parcelStep C P cfg) (CommitsOnTip C P cfg) s ps)
    (hqsTip : Meets (parcelStep C P cfg) (CommitsOnTip C P cfg) s qs) :
    SameChain C P cfg s tokenId token chain ps qs ↔
      Unintercepted C chain ps ∧ Unintercepted C chain qs := by
  obtain ⟨pl, hp, hpb, hpi⟩ := hps.chain_eq hblocks hpsTip
  obtain ⟨pl', hq, hqb, hqi⟩ := hqs.chain_eq hblocks hqsTip
  constructor
  · rintro ⟨-, hf, hs⟩
    rw [hp] at hf
    rw [hq] at hs
    exact ⟨hpi.mp (hblocks.eq_of_suffix hpb hf), hqi.mp (hblocks.eq_of_suffix hqb hs)⟩
  · rintro ⟨hf, hs⟩
    obtain rfl := hpi.mpr hf
    obtain rfl := hqi.mpr hs
    refine ⟨hp.trans hq.symm, ?_, ?_⟩
    · rw [hp]
      exact suffix_append _ _
    · rw [hq]
      exact suffix_append _ _

end Orders

/-! ## Two blocks and a third -/

/-- A block in the place of the second one, under a wrong hash. -/
def strayBlock : Block := { nextBlock with currentHash := [0] }

def orderedBlock (body : Bytes) : Block :=
  if body = [1] then firstBlock else if body = [2] then nextBlock else strayBlock

/-- A codec in which a body names one of the three, or the Commit of one. -/
def orderCodec : Codec :=
  { sampleCodec with
    decodeBlock := fun body => some (orderedBlock body)
    decodeTransactionCommit := fun body => some
      { relabelled [7] (if body = [1] then "a" else "b") with
        proposedBlock := orderedBlock body } }

def parcelOf (action : CommitterAction) (body : Bytes) : Parcel where
  delivery :=
    { world := obligingWorld
      action := action
      message := { publicKey := [4], body := body, signature := [] } }
  block := orderedBlock body

/-- The first block, the second and the stray one, gossiped. -/
def inOrder : List Parcel :=
  [parcelOf .blockFinalized [1], parcelOf .blockFinalized [2], parcelOf .blockFinalized [3]]

def reversed : List Parcel :=
  [parcelOf .blockFinalized [3], parcelOf .blockFinalized [2], parcelOf .blockFinalized [1]]

def crossed : List Parcel :=
  [parcelOf .blockFinalized [2], parcelOf .blockFinalized [1], parcelOf .blockFinalized [3]]

def committedFirst : List Parcel :=
  [parcelOf .commit [1], parcelOf .blockFinalized [3], parcelOf .blockFinalized [2]]

/-- The chain of the token after some messages to a fresh Committer. -/
def chainAfter (ps : List Parcel) : List Block :=
  (run (parcelStep orderCodec samplePrimitives sampleCommitter) bootState ps).chainOf [7] emptyToken

theorem twoBlocks_consignment :
    Consignment orderCodec bootState [7] emptyToken [firstBlock, nextBlock] [strayBlock] where
  cached := by decide +kernel
  course := ⟨⟨by decide +kernel, by decide +kernel, trivial⟩, by decide +kernel,
    show ∀ b ∈ [firstBlock, nextBlock], createHash orderCodec b = b.currentHash by
      decide +kernel⟩
  misnamed b hb := by
    obtain rfl := mem_singleton.mp hb
    decide +kernel
  distinct := by decide +kernel
  empty := rfl
  room := by decide
  share := by decide

theorem gossip_authorised {body : Bytes} (hb : body ∈ [[1], [2], [3]])
    (hu : s.pending.lookup (orderedBlock body).signedTrans.transaction.id = none) :
    Authorised orderCodec sampleCommitter [7] s (parcelOf .blockFinalized body) := by
  obtain ⟨token, hc⟩ : ∃ token, cachedToken obligingWorld s.tokens
      (orderedBlock body).signedTrans.transaction.tokenId = some token := by
    unfold cachedToken
    split <;> exact ⟨_, rfl⟩
  have hcl : ∀ body ∈ [[1], [2], [3]], (orderedBlock body).signedTrans.transaction.tokenId = [7] ∧
      authenticateSender orderCodec obligingWorld
        (parcelOf .blockFinalized body).delivery.message = .ok () ∧
      blockAuthority orderCodec obligingWorld ∅ (orderedBlock body) [4]
        (orderedBlock body).signedTrans.transaction.id = .ok () := by
    decide +kernel
  obtain ⟨hid, hs, ha⟩ := hcl body hb
  refine ⟨hid, fun _ => ⟨token, hs, rfl, ?_, hc⟩, fun hac => by cases hac⟩
  -- an id nobody holds is judged as by an empty registry
  show blockAuthority orderCodec obligingWorld s.pending (orderedBlock body) [4]
    (orderedBlock body).signedTrans.transaction.id = .ok ()
  simp only [blockAuthority, heldDecision, hu]
  exact ha

/-- An order in which the three come to a fresh Committer. -/
theorem deliveryOrder_of_authorised {ps : List Parcel}
    (hb : (ps.map Parcel.block).Perm [firstBlock, nextBlock, strayBlock])
    (hw : ∀ p ∈ ps, p.delivery.world = obligingWorld)
    (hauthorised : Meets (parcelStep orderCodec samplePrimitives
      sampleCommitter) (Authorised orderCodec sampleCommitter [7]) bootState ps) :
    DeliveryOrder orderCodec samplePrimitives sampleCommitter bootState [7]
      emptyToken [firstBlock, nextBlock] [strayBlock] ps := by
  refine ⟨hb, hauthorised, fun p hp => ?_, 0, fun p hp => ?_⟩
  · rw [hw p hp]
    rfl
  · rw [hw p hp]
    exact ⟨Nat.le_refl 0, by decide⟩

theorem firstCommit_checked : CommitChecked orderCodec sampleCommitter obligingWorld bootState
      (parcelOf .commit [1]).delivery.message (relabelled [7] "a") :=
  ⟨by decide +kernel, rfl, by decide +kernel, by decide +kernel⟩

/-- After the stray block and the second one, the first finds the stray one oldest: it
is dropped, and the second is left waiting. A Commit releases no waiting block, and
one that comes before its parent is lost. -/
theorem order_changes_chain :
    Consignment orderCodec bootState [7] emptyToken [firstBlock, nextBlock] [strayBlock] ∧
      DeliveryOrder orderCodec samplePrimitives sampleCommitter bootState
        [7] emptyToken [firstBlock, nextBlock] [strayBlock] inOrder ∧
      DeliveryOrder orderCodec samplePrimitives sampleCommitter bootState
        [7] emptyToken [firstBlock, nextBlock] [strayBlock] reversed ∧
      chainAfter inOrder = [firstBlock, nextBlock] ∧ chainAfter reversed = [firstBlock] ∧
      chainAfter [parcelOf .blockFinalized [2], parcelOf .commit [1]] = [firstBlock] ∧
      chainAfter [parcelOf .commit [2], parcelOf .commit [1]] = [firstBlock] := by
  refine ⟨twoBlocks_consignment, ?_, ?_, by decide +kernel, by decide +kernel,
    by decide +kernel, by decide +kernel⟩
  · refine deliveryOrder_of_authorised (by decide +kernel) (by simp [inOrder, parcelOf])
      ⟨?_, ?_, ?_, trivial⟩
    all_goals exact gossip_authorised (by decide) (by decide +kernel)
  · refine deliveryOrder_of_authorised (by decide +kernel) (by simp [reversed, parcelOf])
      ⟨?_, ?_, ?_, trivial⟩
    all_goals exact gossip_authorised (by decide) (by decide +kernel)

theorem unintercepted_of_three {ps : List Parcel} (hl : ps.length = 3)
    (hb : ∀ x, createHash orderCodec x ≠ x.currentHash →
      ps.map Parcel.block ≠ [x, nextBlock, firstBlock]) :
    Unintercepted orderCodec [firstBlock, nextBlock] ps := by
  rintro pre block post hs ⟨x, hu, -, a, ha, hsub⟩
  have heq := hsub.eq_of_length (by rw [length_map, hl]; rfl)
  rcases pre with _ | ⟨c, _ | ⟨d, rest⟩⟩
  · cases ha
  · obtain ⟨rfl, ht⟩ := cons.inj hs
    obtain rfl := mem_singleton.mp ha
    obtain ⟨rfl, -⟩ := cons.inj ht
    exact hb x hu heq.symm
  · simp at hs

/-- The second block gossiped before the first, and the first as a Commit before the
stray block: the same chain. -/
theorem crossed_sameChain : SameChain orderCodec samplePrimitives sampleCommitter bootState [7]
      emptyToken [firstBlock, nextBlock] crossed committedFirst := by
  refine (sameChain_iff_unintercepted twoBlocks_consignment ?_ ?_ ?_ ?_).mpr ⟨?_, ?_⟩
  · refine deliveryOrder_of_authorised (by decide +kernel) (by simp [crossed, parcelOf])
      ⟨?_, ?_, ?_, trivial⟩
    all_goals exact gossip_authorised (by decide) (by decide +kernel)
  · refine deliveryOrder_of_authorised (by decide +kernel) (by simp [committedFirst, parcelOf])
      ⟨?_, ?_, ?_, trivial⟩
    · exact ⟨by decide +kernel, nofun, fun _ => ⟨_, firstCommit_checked, rfl, rfl⟩⟩
    all_goals exact gossip_authorised (by decide) (by decide +kernel)
  · refine ⟨fun h => ?_, fun h => ?_, fun h => ?_, trivial⟩
    · cases h
    · cases h
    · cases h
  · refine ⟨fun _ c hc => ?_, fun h => ?_, fun h => ?_, trivial⟩
    · obtain rfl := Option.mem_unique firstCommit_checked.decoded hc.decoded
      refine ⟨emptyToken, by decide +kernel, ⟨by decide +kernel, _, rfl, rfl⟩,
        ⟨rfl, ⟨_, .plain, rfl, fun h => by cases h⟩, ⟨by decide +kernel, rfl⟩⟩,
        by decide +kernel, by decide, ?_⟩
      intro block hb
      cases hb
    · cases h
    · cases h
  · refine unintercepted_of_three rfl fun x hu h => ?_
    have hx : nextBlock = x := (cons.inj h).1
    exact hu (hx ▸ by decide +kernel)
  · refine unintercepted_of_three rfl fun x hu h => ?_
    exact absurd (cons.inj (cons.inj h).2).1 (by decide +kernel)

end Pneumatic
