import Pneumatic.Proofs.ChainOwnership
import Pneumatic.Proofs.FinalizerAuthority

/-!
# What the executor signatures of a block are worth

A block says that its transaction was executed by its map of executor signatures. The
Committer never verifies an entry of that map. On the Commit path the `"Executed"` spec
asks that the map is not empty; on the gossip path no spec is run. What stands behind an
entry is the Finalizer that the routing decision names and whose signature covers the
map: it verified the vote that it put there.

So the evidence is genuine where that Finalizer signs only what its handlers sign, and
worthless where it does not.
-/

namespace Pneumatic

open Handler HandlerM Run Finmap List Option

/-! ## Evidence -/

section

variable (C : Codec) (roles : Bytes → List NodeRegistryType)

/-- An entry of the map is a registered Executor's signature over the result. -/
def HasEvidence (signed : SignedTransaction) : Prop :=
  ∃ key sig, signed.executorSigs.lookup key = some sig ∧ .executor ∈ roles key ∧
    C.checkSignature sig.signature key signed.transaction.resultHash = some true

/-- Every block of the chain has evidence. -/
def EvidencedChain (token : Token) : Prop :=
  ∀ block ∈ token.chain, HasEvidence C roles block.signedTrans

/-- Every block that is cached has. -/
def EvidencedChains (s : CommitterState) : Prop :=
  ∀ tokenId token, s.tokens.lookup tokenId = some token → EvidencedChain C roles token

/-- Every block that waits has. -/
def EvidencedOrphans (buffer : OrphanBuffer) : Prop :=
  ∀ entry ∈ buffer.entries, HasEvidence C roles entry.block.signedTrans

/-- So does every chain that is loaded while the message is handled. -/
def LoadsEvidenced (d : CommitterDelivery) : Prop :=
  ∀ tokenId token, d.world.getToken tokenId = some token → EvidencedChain C roles token

/-- An Executor's signature over the hash it comes with. -/
def VerifiedVote (voter : Bytes) (sig : TransactionSignature) : Prop :=
  .executor ∈ roles voter ∧ C.checkSignature sig.signature voter sig.transactionHash = some true

/-- Every collected vote was verified, and every carrier that was signed has evidence. -/
structure EvidenceInv (s : FinalizerState) : Prop where
  votes : ∀ txId voter sig, (s.votes txId).lookup voter = some sig → VerifiedVote C roles voter sig
  signed : ∀ st ∈ s.signed, HasEvidence C roles st

/-- A key whose holder signs only what the Finalizer's handlers sign, with signatures and
digests that are ideal: a carrier whose digest verifies under the key is, but for the
signature slot, one that a run of the handlers signed. The Executors its registry knew
are registered. -/
def HonestFinalizer (key : Bytes) : Prop :=
  ∀ signature signed,
    C.checkSignature signature key (finalizerDigest C C.sha256 signed) = some true →
    ∃ (own : FinalizerConfig) (ds : List FinalizerDelivery), own.publicKey = key ∧
      (∀ d ∈ ds, ∀ k, .executor ∈ d.world.roles k → .executor ∈ roles k) ∧
      ∃ st ∈ (run (finalizerStep C own) .new ds).signed,
        st.transaction = signed.transaction ∧ st.executorSigs = signed.executorSigs

/-- The block carries a routing decision, and the Finalizer it names is honest. -/
def HonestlyRouted (block : Block) : Prop :=
  ∃ record, block.signedTrans.transaction.selection = some record ∧
    HonestFinalizer C roles record.finalizerPublicKey

end

/-! ## The Finalizer's side -/

section Finalizer

variable {C : Codec} {cfg : FinalizerConfig} {world : FinalizerWorld}
  {roles : Bytes → List NodeRegistryType} {s : FinalizerState}

variable {sig : TransactionSignature} {voter : Bytes}

theorem authenticated_of_signatureMessage {message : Message}
    (h : authenticateSignatureMessage C world message = .ok voter) :
    message.publicKey = voter ∧ .executor ∈ world.roles voter ∧
      C.checkSignature message.signature voter message.body = some true := by
  unfold authenticateSignatureMessage at h
  split at h
  · cases h
  · cases h
  · next known hk =>
    split at h
    · next hmem =>
      cases h
      unfold authenticateEnvelope at hk
      split at hk
      · cases hk
      · cases hk
      · next hv =>
        split at hk
        · cases hk
        · cases hk
          exact ⟨rfl, hmem, hv⟩
    · cases h

theorem checked_of_executorSignature (h : checkExecutorSignature C voter sig = .ok ()) :
    C.checkSignature sig.signature voter sig.transactionHash = some true := by
  unfold checkExecutorSignature at h
  split at h
  · cases h
  · cases h
  · assumption

section

variable {ds : List FinalizerDelivery}
  (hds : ∀ d ∈ ds, ∀ key, .executor ∈ d.world.roles key → .executor ∈ roles key)

include hds

theorem EvidenceInv.run : EvidenceInv C roles (Run.run (finalizerStep C cfg) .new ds) := by
  have h : FinalizerInv (fun _ _ => True) (fun _ => VerifiedVote C roles) (HasEvidence C roles)
      (Run.run (finalizerStep C cfg) .new ds) := FinalizerInv.run (M := fun _ _ => True)
    (fun _ _ _ _ => trivial)
    (fun _ _ voter _ _ _ hv _ => ⟨voter, _, lookup_singleton_eq, hv.1, hv.2⟩)
    ((meets_of_forall hds).imp fun s d hd => ?_)
  · exact ⟨h.votes, h.signed⟩
  · unfold Brings
    split
    · exact fun _ _ _ => ⟨trivial, fun _ _ _ _ _ _ _ => trivial⟩
    · refine fun vote voter _ ha hc => ⟨⟨hd _ ?_, checked_of_executorSignature hc⟩,
        fun _ _ _ _ _ => trivial⟩
      exact (authenticated_of_signatureMessage ha).2.1

/-- Everything the Finalizer signs in a run has evidence. -/
theorem signed_hasEvidence :
    ∀ st ∈ (run (finalizerStep C cfg) .new ds).signed, HasEvidence C roles st :=
  (EvidenceInv.run hds).signed

end

/-! ## The result that was voted on -/

/-- The voter signed an envelope with a vote for the id and the hash, and the signature in
it is over the hash. -/
def VotedFor (C : Codec) (voter : Bytes) (id : String) (hash signature : Bytes) : Prop :=
  ∃ (message : Message) (vote : TransactionSignature), message.publicKey = voter ∧
    C.checkSignature message.signature voter message.body = some true ∧
    C.decodeTransactionSignature message.body = some vote ∧
    vote.txId = id ∧ vote.transactionHash = hash ∧
    vote.signature = signature ∧ C.checkSignature signature voter hash = some true

/-- The result hash is that of the result, and the one executor signature was made for it. -/
def SelfConsistent (C : Codec) (st : SignedTransaction) : Prop :=
  C.sha256 st.transaction.resultData = st.transaction.resultHash ∧
    ∃ voter sig, st.executorSigs = Finmap.singleton voter sig ∧
      VotedFor C voter st.transaction.id st.transaction.resultHash sig.signature

/-- An assigned preload leaves a result that the vote it is finalized with is for, and so
does a verified vote that is the first. -/
def ResultMatches (C : Codec) (cfg : FinalizerConfig) (s : FinalizerState)
    (d : FinalizerDelivery) : Prop :=
  match d.message with
  | .preload message => ∀ tx voter vote entry held, C.decodeTransaction message.body = some tx →
      finalizeAuthority C cfg d.world tx = .ok () → firstSignature s tx.id = some (voter, vote) →
      (registerPreload s.pending tx).lookup tx.id = some entry → entry.state.live = some held →
      C.sha256 held.resultData = vote.transactionHash
  | .sign message => ∀ vote voter entry held,
      C.decodeTransactionSignature message.body = some vote →
      authenticateSignatureMessage C d.world message = .ok voter →
      checkExecutorSignature C voter vote = .ok () →
      s.votes vote.txId = ∅ →
      s.pending.lookup vote.txId = some entry →
      entry.state.live = some held → C.sha256 held.resultData = vote.transactionHash

/-- In every run of such messages every carrier that is signed is consistent with itself. -/
theorem signed_selfConsistent {ds : List FinalizerDelivery}
    (hds : Run.Meets (finalizerStep C cfg) (ResultMatches C cfg) .new ds) :
    ∀ st ∈ (run (finalizerStep C cfg) .new ds).signed, SelfConsistent C st := by
  refine (FinalizerInv.run (T := fun id tx => tx.id = id)
    (V := fun id voter vote => VotedFor C voter id vote.transactionHash vote.signature)
    (M := fun held vote => C.sha256 held.resultData = vote.transactionHash)
    (fun _ _ _ h => h) (fun id tx voter vote fin hid hv hm => ?_)
    (hds.imp fun s d hd => ?_)).signed
  · exact ⟨hm, voter, _, rfl, hid ▸ hv⟩
  · unfold Brings
    unfold ResultMatches at hd
    split
    · next m hmm =>
      rw [hmm] at hd
      exact fun tx htx ha =>
        ⟨rfl, fun voter vote entry held => hd tx voter vote entry held htx ha⟩
    · next m hmm =>
      rw [hmm] at hd
      refine fun vote voter hvote ha hc => ⟨⟨m, vote, ?_⟩, fun hfirst entry held =>
        hd vote voter entry held hvote ha hc hfirst⟩
      obtain ⟨hkey, -, hv⟩ := authenticated_of_signatureMessage ha
      exact ⟨hkey, hv, hvote, rfl, rfl, rfl, checked_of_executorSignature hc⟩

/-- A preload brings no result, the vote is for the result `[5]`. -/
theorem unmatched_result_signed : ∃ st ∈ (run (finalizerStep fourSignatures sampleFinalizer) .new
      (preloadThenVote [5])).signed, ¬ SelfConsistent fourSignatures st := by
  refine ⟨_, List.mem_singleton_self _, fun h => ?_⟩
  exact absurd h.1 (by decide)

/-- The transfer with the result that the vote is for. -/
def resultTransfer : Transaction := { signedTransfer with resultData := [5] }

def resultCodec : Codec :=
  { fourSignatures with decodeTransaction := fun _ => some resultTransfer }

theorem matched_result_signed :
    (run (finalizerStep resultCodec sampleFinalizer) .new (preloadThenVote [5])).signed.length = 1 ∧
      ∀ st ∈ (run (finalizerStep resultCodec sampleFinalizer) .new (preloadThenVote [5])).signed,
        SelfConsistent resultCodec st := by
  refine ⟨rfl, signed_selfConsistent ⟨?_, ?_, trivial⟩⟩
  · intro tx voter vote entry held _ _ hf
    cases hf
  · intro vote voter entry held hv _ _ _ he hl
    obtain rfl : executorVote = vote := some.inj hv
    obtain rfl : PendingTransaction.new (.preloaded resultTransfer) = entry := some.inj he
    obtain rfl : resultTransfer = held := some.inj hl
    rfl

end Finalizer

/-! ## The Committer's side -/

section Committer

variable {C : Codec} {P : ShieldedPrimitives} {cfg : CommitterConfig}
  {roles : Bytes → List NodeRegistryType} {s : CommitterState} {d : CommitterDelivery}

/-- Every block that a message brings past the gates is routed honestly. -/
def BringsHonest (C : Codec) (cfg : CommitterConfig)
    (roles : Bytes → List NodeRegistryType) (s : CommitterState) (d : CommitterDelivery) :
    Prop :=
  (d.action = .commit → ∀ commit, CommitChecked C cfg d.world s d.message commit →
    HonestlyRouted C roles commit.proposedBlock) ∧
  (d.action = .blockFinalized → ∀ block token,
    GossipChecked C d.world s d.message block token → HonestlyRouted C roles block)

variable {txId : String}

theorem verifies_of_verifyFinalizerSigUnder {signed : SignedTransaction} {key : Bytes}
    (h : verifyFinalizerSigUnder C signed key txId = .ok ()) :
    C.checkSignature signed.finalizerSig.signature key
      (finalizerDigest C C.sha256 signed) = some true := by
  unfold verifyFinalizerSigUnder at h
  split at h
  · next hv =>
    unfold verifyFinalizerSignature at hv
    split at hv
    · cases hv
    · split at hv
      · cases hv
      · split at hv
        · assumption
        · cases hv
  · cases h
  · cases h

theorem verifies_of_blockAuthority {world : CommitterWorld} {pending : PendingRegistry}
    {block : Block} {sender : Bytes} {record : SelectionRecord}
    (h : blockAuthority C world pending block sender txId = .ok ())
    (hr : block.signedTrans.transaction.selection = some record) :
    C.checkSignature block.signedTrans.finalizerSig.signature record.finalizerPublicKey
      (finalizerDigest C C.sha256 block.signedTrans) = some true := by
  unfold blockAuthority at h
  simp only [hr] at h
  split at h
  · cases h
  · cases h
  · split at h
    · cases h
    · split at h
      · cases h
      · split at h
        · exact verifies_of_verifyFinalizerSigUnder h
        · split at h
          · cases h
          · exact verifies_of_verifyFinalizerSigUnder h

theorem HonestlyRouted.hasEvidence {world : CommitterWorld} {pending : PendingRegistry}
    {block : Block} {sender : Bytes} (hrt : HonestlyRouted C roles block)
    (h : blockAuthority C world pending block sender txId = .ok ()) :
    HasEvidence C roles block.signedTrans := by
  obtain ⟨r, hr, hh⟩ := hrt
  obtain ⟨own, ds, -, hds, st, hst, ht, hs⟩ :=
    hh _ _ (verifies_of_blockAuthority h hr)
  obtain ⟨key, sig, hsig, hrl, hv⟩ := signed_hasEvidence hds st hst
  refine ⟨key, sig, ?_, hrl, ?_⟩
  · rw [← hs]
    exact hsig
  · rw [← ht]
    exact hv

theorem Releasable.hasEvidence {now : Nat} {buffer : OrphanBuffer} {tokenId tip : Bytes}
    {blocks : List Block} (h : Releasable C now buffer tokenId tip blocks)
    (ho : EvidencedOrphans C roles buffer) :
    ∀ block ∈ blocks, HasEvidence C roles block.signedTrans := by
  intro block hb
  obtain ⟨entry, he, rfl⟩ := mem_map.mp (h.waiting.subset hb)
  exact ho entry (mem_filter.mp he).1

theorem EvidencedOrphans.step (h : EvidencedOrphans C roles s.orphans)
    (hb : BringsHonest C cfg roles s d) :
    EvidencedOrphans C roles (committerStep C P cfg s d).orphans := by
  intro entry he
  rcases mem_orphans_of_step he with hold | ⟨ha, token, hc, -⟩
  · exact h entry hold
  · exact (hb.2 ha _ _ hc).hasEvidence hc.authority

theorem EvidencedChains.step (h : EvidencedChains C roles s)
    (ho : EvidencedOrphans C roles s.orphans) (hl : LoadsEvidenced C roles d)
    (hbr : BringsHonest C cfg roles s d) :
    EvidencedChains C roles (committerStep C P cfg s d) := by
  refine fun ti token => forall_cached_of_step
    (fun _ token => EvidencedChain C roles token) h hl
    (fun ha c token hh hc hap b hb => ?_)
    (fun ha block token hh hc _ _ b hb => ?_)
  · rcases Token.mem_commitBlock hap.lands.accepted hb with hold | rfl
    · exact hh b hold
    · exact (hbr.1 ha c hc).hasEvidence hc.authority
  · rcases mem_append.mp hb with hold | hnew
    · exact hh b hold
    · rcases mem_cons.mp hnew with rfl | hr
      · exact (hbr.2 ha b token hc).hasEvidence hc.authority
      · exact (s.releasable_replayed C d.world block).hasEvidence ho b hr

/-- In a run in which every block that passes the gates is routed to an honest Finalizer,
every block on a chain has evidence. -/
theorem evidenced_of_honest {deliveries : List CommitterDelivery}
    (hchains : EvidencedChains C roles s) (horphans : EvidencedOrphans C roles s.orphans)
    (hloads : ∀ d ∈ deliveries, LoadsEvidenced C roles d)
    (hbrings : Run.Meets (committerStep C P cfg) (BringsHonest C cfg roles) s deliveries) :
    EvidencedChains C roles (run (committerStep C P cfg) s deliveries) := by
  have hend : EvidencedChains C roles (run (committerStep C P cfg) s deliveries) ∧
      EvidencedOrphans C roles (run (committerStep C P cfg) s deliveries).orphans :=
    run_invariant
      (fun s d (h : EvidencedChains C roles s ∧ EvidencedOrphans C roles s.orphans) hg =>
        ⟨h.1.step h.2 hg.1 hg.2, h.2.step hg.2⟩)
      ⟨hchains, horphans⟩ ((meets_of_forall hloads).and hbrings)
  exact hend.1

end Committer

/-! ## Blocks without evidence -/

namespace Hollow

def committer : CommitterConfig :=
  { sampleCommitter with
    validators := fun name => if name = "Executed" then some executedBlockSpec else none }

def surroundings : CommitterWorld :=
  { obligingWorld with
    getToken := fun tokenId =>
      some { emptyToken with id := tokenId, blockValidationSpecName := "Executed" } }

/-- A carrier with one executor signature, which verifies under no key. -/
def hollowCarrier : SignedTransaction :=
  { signedCarrier { routedTransaction "a" with resultHash := [1] } none with
    executorSigs := Finmap.singleton [9] { (default : TransactionSignature) with
      signature := [66] }
    finalizerSig :=
      { transactionId := asBytes "a"
        envId := []
        transactionHash := [7, 66]
        signature := [40]
        currentStake := 0 } }

def hollowCommit : TransactionCommit where
  transId := asBytes "a"
  tokenId := [7]
  envId := "env"
  proposedBlock := blockOn [] hollowCarrier

/-- A codec in which all signatures verify but one. -/
def codec : Codec :=
  { carrying hollowCommit firstBlock with
    checkSignature := fun sig _ _ => some (sig != [66]) }

def after (action : CommitterAction) : CommitterState :=
  run (committerStep codec ShieldedPool.samplePrimitives committer) bootState
    [⟨surroundings, action, ⟨[4], [], []⟩⟩]

/-- The block that a routed Finalizer commits has a made-up signature, the one it gossips
has none; both are appended to a token whose spec is `"Executed"`. -/
theorem hollow_blocks_appended : (((after .commit).tokens.lookup [7]).map fun token =>
        (token.blockValidationSpecName, token.chain)) =
          some ("Executed", [hollowCommit.proposedBlock]) ∧
      (((after .blockFinalized).tokens.lookup [7]).map fun token =>
        (token.blockValidationSpecName, token.chain)) = some ("Executed", [firstBlock]) ∧
      ∀ roles, ¬ HasEvidence codec roles hollowCommit.proposedBlock.signedTrans ∧
        ¬ HasEvidence codec roles firstBlock.signedTrans := by
  refine ⟨rfl, rfl, fun roles => ⟨?_, ?_⟩⟩
  · rintro ⟨key, sig, hsig, -, hv⟩
    have hkey : key = [9] := by
      by_contra hne
      rw [show hollowCommit.proposedBlock.signedTrans.executorSigs =
        singleton [9] { (default : TransactionSignature) with signature := [66] }
        from rfl, lookup_eq_none.mpr (by simpa using hne)] at hsig
      cases hsig
    subst hkey
    cases hsig
    cases hv
  · rintro ⟨key, sig, hsig, -⟩
    cases hsig

end Hollow

/-! ## A block with evidence -/

namespace Genuine

/-- What the Finalizer builds from the Executor's vote on the signed transfer. -/
def carrier : SignedTransaction :=
  buildSignedTransactionOptimistic sampleFinalizer executorVote signedTransfer [3]

/-- The four signatures of `fourSignatures`, and the Finalizer's own two: over the digest
of the carrier, and over its envelope. The digest tells the carrier from every other. -/
def signatures : Codec :=
  { fourSignatures with
    checkSignature := fun sig key message =>
      some ([([10], [1], [9]), ([20], [2], asBytes "t"), ([30], [3], [7]), ([31], [3], [5]),
        ([1, 31], [4], [1, 31]), ([60], [4], [])].contains (sig, key, message))
    rmpFinalizerCarrier := fun st => if st = carrier then [1] else [0] }

def block : Block :=
  let block := { (default : Block) with
    signedTrans := { carrier with
      finalizerSig :=
        { transactionId := asBytes "t"
          envId := []
          transactionHash := [1, 31]
          signature := [1, 31]
          currentStake := 1 } } }
  { block with currentHash := createHash signatures block }

def commit : TransactionCommit where
  transId := asBytes "t"
  tokenId := []
  envId := "env"
  proposedBlock := block

def codec : Codec := { signatures with decodeTransactionCommit := fun _ => some commit }

theorem exists_digest_eq (signed : SignedTransaction) :
    ∃ rest, finalizerDigest codec codec.sha256 signed =
      (if { signed with finalizerSig := finalizerPlaceholderSig signed.transaction } = carrier
        then ([1] : Bytes) else [0]) ++ rest :=
  ⟨_, rfl⟩

/-- The Finalizer `[4]` signs what its handlers sign: the one carrier. -/
theorem honest : HonestFinalizer codec sampleWorld.roles [4] := by
  intro sn sg hv
  have hmem := List.contains_iff_mem.mp (some.inj hv)
  have hc : { sg with
      finalizerSig := finalizerPlaceholderSig sg.transaction } = carrier := by
    by_contra hne
    obtain ⟨rest, hdg⟩ := exists_digest_eq sg
    rw [hdg, if_neg hne] at hmem
    simp at hmem
  refine ⟨sampleFinalizer, preloadThenVote [5], rfl, fun d hd key hkey => ?_, ?_⟩
  · rcases mem_pair.mp hd with rfl | rfl <;> exact hkey
  · have hs : (run (finalizerStep codec sampleFinalizer) .new
        (preloadThenVote [5])).signed = [block.signedTrans] := rfl
    refine ⟨block.signedTrans, by rw [hs]; exact mem_singleton_self _, ?_, ?_⟩
    · exact (congrArg SignedTransaction.transaction hc).symm
    · exact (congrArg SignedTransaction.executorSigs hc).symm

def after : CommitterState :=
  run (committerStep codec ShieldedPool.samplePrimitives Hollow.committer) bootState
    [⟨Hollow.surroundings, .commit, ⟨[4], [60], []⟩⟩]

/-- The block of a verified vote is committed. -/
theorem genuine_block_appended : ((after.tokens.lookup []).map Token.chain) = some [block] ∧
      EvidencedChains codec sampleWorld.roles after := by
  have hch : EvidencedChains codec sampleWorld.roles bootState := by
    intro ti token h
    cases h
  refine ⟨rfl, ?_⟩
  refine evidenced_of_honest hch (fun entry h => by cases h) ?_ ?_
  · intro d hd ti token hl b hb
    obtain rfl := mem_singleton.mp hd
    obtain rfl := some.inj hl
    cases hb
  · refine ⟨⟨fun _ brought hc => ?_, fun ha => ?_⟩, trivial⟩
    · obtain rfl : commit = brought := some.inj hc.decoded
      exact ⟨_, rfl, honest⟩
    · cases ha

end Genuine

end Pneumatic
