import Pneumatic.Finalizer.Finalizer
import Pneumatic.Lib.Run

/-!
# What a Finalizer signs

The transaction in a signed block is the one the registry holds, the registry
holds what preloads put there, and between the two only the result hash is
stamped. So whatever holds of every assigned preload, and does not depend on
the result hash, holds of every signed block (`HeldInv.run`).

The handlers check of a preload that a Sentinel assigned its id to this node.
That says nothing about the rest of it. The attestation covers the id, anyone
may deliver a preload, and the sender's signature is never looked at: a body
swapped under an attested id is signed and sent.
-/

namespace Pneumatic

open Handler HandlerM Option

variable {C : Codec} {cfg : FinalizerConfig} {world : FinalizerWorld}

/-- The sender authorised the transaction: the signature verifies over the
canonical bytes as they are before execution. -/
def SenderAuthorised (C : Codec) (tx : Transaction) : Prop :=
  ({ tx with resultHash := [] } : Transaction).verifySenderSignature C = some true

instance (tx : Transaction) : Decidable (SenderAuthorised C tx) :=
  inferInstanceAs (Decidable (_ = _))

theorem signFinalizerBlock_ends {s : FinalizerState} (st : SignedTransaction) :
    Ends (signFinalizerBlock C cfg world st) s
      (fun st' s' => (∃ sig, st' = { st with finalizerSig := sig }) ∧
        s' = { s with signed := s.signed ++ [st'] })
      (fun _ s' => s' = s) := by
  unfold signFinalizerBlock
  simp only [ends_bind, ends_ofOption, ends_update, ends_pure]
  exact ⟨fun _ _ => ⟨⟨_, rfl⟩, trivial⟩, fun _ => trivial⟩

theorem lookup_of_firstSignature {s : FinalizerState} {txId : String} {voter : Bytes}
    {sig : TransactionSignature} (h : firstSignature s txId = some (voter, sig)) :
    (s.votes txId).lookup voter = some sig := by
  unfold firstSignature at h
  split at h
  · cases h
  · obtain ⟨sig', hsig, heq⟩ := map_eq_some_iff.mp h
    cases heq
    exact hsig

/-! ## One walk through the handlers -/

/-- Properties of what is held, of the votes that are collected and of what is signed. -/
structure FinalizerInv (T : String → Transaction → Prop)
    (V : String → Bytes → TransactionSignature → Prop) (G : SignedTransaction → Prop)
    (s : FinalizerState) : Prop where
  held : ∀ id entry tx, s.pending.lookup id = some entry → entry.state.live = some tx → T id tx
  votes : ∀ id voter sig, (s.votes id).lookup voter = some sig → V id voter sig
  signed : ∀ st ∈ s.signed, G st

/-- A delivery that is accepted brings in a transaction or a vote that has its property, and
what is held then meets the vote it is finalized with. -/
def Brings (C : Codec) (cfg : FinalizerConfig) (T : String → Transaction → Prop)
    (V : String → Bytes → TransactionSignature → Prop)
    (M : Transaction → TransactionSignature → Prop) (s : FinalizerState)
    (d : FinalizerDelivery) : Prop :=
  match d.message with
  | .preload message =>
    ∀ tx, C.decodeTransaction message.body = some tx →
      finalizeAuthority C cfg d.world tx = .ok () → T tx.id tx ∧
        ∀ voter sig entry held, firstSignature s tx.id = some (voter, sig) →
          (registerPreload s.pending tx).lookup tx.id = some entry →
          entry.state.live = some held → M held sig
  | .sign message =>
    ∀ vote voter, C.decodeTransactionSignature message.body = some vote →
      authenticateSignatureMessage C d.world message = .ok voter →
      checkExecutorSignature C voter vote = .ok () →
      let sig := { vote with currentStake := currentStakeForVoter d.world voter }
      let id := vote.txId
      V id voter sig ∧ (s.votes id = ∅ → ∀ entry held, s.pending.lookup id = some entry →
        entry.state.live = some held → M held sig)

section Walk

variable {T : String → Transaction → Prop} {V : String → Bytes → TransactionSignature → Prop}
  {G : SignedTransaction → Prop} {M : Transaction → TransactionSignature → Prop}
  {s : FinalizerState}

namespace FinalizerInv

section

variable (h : FinalizerInv T V G s)

include h

theorem setState (txId : String) (state : TransactionState)
    (hs : ∀ tx, state.live = some tx → T txId tx) :
    FinalizerInv T V G { s with pending := s.pending.setState txId state } := by
  refine ⟨?_, h.votes, h.signed⟩
  intro id entry tx he htx
  rcases PendingRegistry.lookup_setState he with hold | ⟨rfl, hnew⟩
  · exact h.held id entry tx hold htx
  · rw [hnew] at htx
    exact hs tx htx

theorem sign {st : SignedTransaction} (hst : G st) :
    FinalizerInv T V G { s with signed := s.signed ++ [st] } := by
  refine ⟨h.held, h.votes, ?_⟩
  intro st' hmem
  rcases List.mem_append.mp hmem with hold | hnew
  · exact h.signed st' hold
  · rw [List.mem_singleton.mp hnew]
    exact hst

theorem setVotes (txId : String) {votes : VoteMap}
    (hv : ∀ voter sig, votes.lookup voter = some sig → V txId voter sig) :
    FinalizerInv T V G { s with signatures := s.signatures.insert txId votes } := by
  refine ⟨h.held, ?_, h.signed⟩
  intro id voter sig hsig
  by_cases hid : id = txId
  · subst hid
    rw [votes_insert] at hsig
    exact hv voter sig hsig
  · unfold FinalizerState.votes at hsig
    rw [Finmap.lookup_insert_of_ne _ hid] at hsig
    exact h.votes id voter sig hsig

theorem erase (txId : String) :
    FinalizerInv T V G { s with signatures := s.signatures.erase txId } := by
  refine ⟨h.held, ?_, h.signed⟩
  intro id voter sig hsig
  unfold FinalizerState.votes at hsig
  by_cases hid : id = txId
  · rw [hid, Finmap.lookup_erase, getD_none, Finmap.lookup_empty] at hsig
    cases hsig
  · rw [Finmap.lookup_erase_ne hid] at hsig
    exact h.votes id voter sig hsig

theorem registerPreload {tx : Transaction} (htx : T tx.id tx) :
    FinalizerInv T V G { s with pending := Pneumatic.registerPreload s.pending tx } := by
  have hput : ∀ state : TransactionState, state.live = some tx →
      ∀ t, state.live = some t → T tx.id t := by
    intro state hl t ht
    rw [hl] at ht
    obtain rfl := some.inj ht
    exact htx
  unfold Pneumatic.registerPreload
  split
  · refine ⟨?_, h.votes, h.signed⟩
    intro id entry t he ht
    rcases Finmap.lookup_insert_cases he with ⟨rfl, rfl⟩ | hold
    · exact hput _ rfl t ht
    · exact h.held id entry t hold ht
  · split
    case h_5 => exact h
    all_goals exact h.setState _ _ (hput _ rfl)

end

variable (hstamp : ∀ id tx hash, T id tx → T id { tx with resultHash := hash })
  (hsign : ∀ id tx voter sig fin, T id tx → V id voter sig → M tx sig →
    G { buildSignedTransactionOptimistic cfg sig { tx with resultHash := sig.transactionHash } voter
        with finalizerSig := fin })

include hstamp hsign

/-- A finalization signs what is held, with the result hash stamped on it. -/
theorem tryFinalizeOptimistic (h : FinalizerInv T V G s) {txId : String} {voter : Bytes}
    {sig : TransactionSignature} (hv : V txId voter sig)
    (hm : ∀ entry held, s.pending.lookup txId = some entry →
      entry.state.live = some held → M held sig) :
    Keeps (Pneumatic.tryFinalizeOptimistic C cfg world txId sig voter) s (FinalizerInv T V G) := by
  unfold Keeps Pneumatic.tryFinalizeOptimistic
  simp only [ends_bind, ends_getState, ends_ofOption, ends_lift, ends_update,
    ends_require, ends_pure]
  refine ⟨?_, fun _ => h⟩
  intro entry he
  refine ⟨?_, fun _ => h⟩
  intro held hh
  refine ⟨?_, fun _ _ => h⟩
  intro _ _
  have hT : T txId held := h.held txId entry held he hh
  refine (signFinalizerBlock_ends _).mono ?_ ?_
  · rintro st s' ⟨⟨fin, hst⟩, rfl⟩
    have hG : G st := hst ▸ hsign txId held voter sig fin hT hv (hm entry held he hh)
    have hf := (h.sign hG).setState txId
      (.finalizing { held with resultHash := sig.transactionHash } (assignedKey entry.state))
      (fun tx htx => by obtain rfl := some.inj htx; exact hstamp _ _ _ hT)
    -- from here on only the transport can fail, and what is held is committed
    refine ⟨fun _ => ⟨fun _ => ⟨fun _ => ?_, fun _ => ?_⟩, fun _ => ?_⟩, fun _ => hf⟩
    · exact ⟨(hf.setState txId (.committed _ _) (fun _ htx => by cases htx)).held,
        (hf.erase txId).votes, hf.signed⟩
    · exact ⟨hf.held, hf.votes, hf.signed⟩
    · exact ⟨hf.held, hf.votes, hf.signed⟩
  · rintro _ _ rfl
    exact h

theorem step (h : FinalizerInv T V G s) {d : FinalizerDelivery} (hd : Brings C cfg T V M s d) :
    FinalizerInv T V G (finalizerStep C cfg s d) := by
  obtain ⟨world, m⟩ := d
  apply keeps_iff.mp
  cases m with
  | preload m =>
    show Keeps (handlePreload C cfg world m) s (FinalizerInv T V G)
    unfold Keeps handlePreload retryFinalizeFromCollected
    simp only [ends_bind, ends_ofOption, ends_lift, ends_update, ends_getState, ends_pure]
    refine ⟨?_, fun _ => h⟩
    intro tx htx
    refine ⟨?_, fun _ _ => h⟩
    intro _ ha
    obtain ⟨hT, hM⟩ := hd tx htx ha
    have hr := h.registerPreload hT
    have hh : FinalizerInv T V G
        { s with
          preloadTasks := s.preloadTasks.insert tx.id (C.rmpTransaction tx)
          pending := Pneumatic.registerPreload s.pending tx } := ⟨hr.held, hr.votes, hr.signed⟩
    split
    · exact hh
    · next voter sig hf =>
      simp only [ends_bind, ends_attempt, ends_pure]
      exact tryFinalizeOptimistic hstamp hsign hh
        (h.votes _ _ _ (lookup_of_firstSignature (s := s) hf))
        fun entry held => hM voter sig entry held hf
  | sign m =>
    show Keeps (handleSignature C cfg world m) s (FinalizerInv T V G)
    unfold Keeps handleSignature addSignature
    simp only [ends_bind, ends_getState, ends_ofOption, ends_lift,
      ends_update, ends_require, ends_ite, ends_pure]
    refine ⟨?_, fun _ => h⟩
    intro vote hvote
    refine ⟨?_, fun _ _ => h⟩
    intro voter ha
    refine ⟨?_, fun _ _ => h⟩
    intro _ hch
    refine ⟨?_, fun _ _ => h⟩
    intro _ _
    obtain ⟨hV, hM⟩ := hd vote voter hvote ha hch
    have he := h.setVotes vote.txId (h.votes _)
    refine ⟨?_, fun _ => he⟩
    intro hn
    have hc := he.setVotes vote.txId fun other sig hs => by
      rcases Finmap.lookup_insert_cases hs with ⟨rfl, rfl⟩ | hold
      · exact hV
      · exact he.votes _ other sig hold
    refine ⟨fun hone => tryFinalizeOptimistic hstamp hsign hc hV (hM ?_), fun _ => hc⟩
    simp only [FinalizerState.votes, Finmap.lookup_insert, getD_some] at hn hone ⊢
    exact Finmap.eq_empty_of_card_insert hn hone

theorem run {ds : List FinalizerDelivery}
    (hds : Run.Meets (finalizerStep C cfg) (Brings C cfg T V M) .new ds) :
    FinalizerInv T V G (Run.run (finalizerStep C cfg) .new ds) := by
  refine Run.run_invariant (fun s d h hd => step hstamp hsign h hd) ⟨?_, ?_, ?_⟩ hds
  · intro id entry tx he
    exact nomatch he
  · intro id voter sig hsig
    exact nomatch hsig
  · intro st hst
    exact nomatch hst

end FinalizerInv

end Walk

/-! ## What is held -/

/-- A property of transactions holds of everything held and signed. -/
structure HeldInv (R : Transaction → Prop) (s : FinalizerState) : Prop where
  held : ∀ id entry tx, s.pending.lookup id = some entry → entry.state.live = some tx → R tx
  signed : ∀ st ∈ s.signed, R st.transaction

/-- The condition on a delivery: a preload that a Sentinel's decision assigns
to this node has the property. -/
def AssignedPreload (C : Codec) (cfg : FinalizerConfig) (R : Transaction → Prop)
    (d : FinalizerDelivery) : Prop :=
  match d.message with
  | .preload message =>
    ∀ tx, C.decodeTransaction message.body = some tx →
      finalizeAuthority C cfg d.world tx = .ok () → R tx
  | .sign _ => True

section Stable

variable {R : Transaction → Prop}
  (hstamp : ∀ (tx : Transaction) (hash : Bytes), R tx → R { tx with resultHash := hash })

include hstamp

theorem HeldInv.run {ds : List FinalizerDelivery} (hds : Run.Meets (finalizerStep C cfg)
      (fun _ d => AssignedPreload C cfg R d) .new ds) :
    HeldInv R (Run.run (finalizerStep C cfg) .new ds) := by
  have h := FinalizerInv.run (T := fun _ tx => R tx) (V := fun _ _ _ => True)
    (G := fun st => R st.transaction) (M := fun _ _ => True)
    (fun _ tx hash => hstamp tx hash) (fun _ _ _ _ _ hT _ _ => hstamp _ _ (hstamp _ _ hT))
    (hds.imp fun s d hd => ?_)
  · exact ⟨h.held, h.signed⟩
  · unfold Brings
    unfold AssignedPreload at hd
    split
    · next m hmm =>
      rw [hmm] at hd
      exact fun tx htx ha => ⟨hd tx htx ha, fun _ _ _ _ _ _ _ => trivial⟩
    · exact fun _ _ _ _ _ => ⟨trivial, fun _ _ _ _ _ => trivial⟩

end Stable

/-- In every run whose assigned preloads carry their sender's authorisation,
so does every transaction the Finalizer signs. -/
theorem signed_authorised {ds : List FinalizerDelivery} (hds : Run.Meets (finalizerStep C cfg)
      (fun _ d => AssignedPreload C cfg (SenderAuthorised C) d) .new ds) :
    ∀ st ∈ (Run.run (finalizerStep C cfg) .new ds).signed, SenderAuthorised C st.transaction :=
  (HeldInv.run (fun _ _ h => h) hds).signed

/-- What a registered Sentinel's attestation of an id stands for: a transaction
with that id passed the sender check. -/
def SentinelsVerify (C : Codec) (roles : Bytes → List NodeRegistryType) : Prop :=
  ∀ (record : SelectionRecord) (txId : String), record.verify C txId finalizerDomain = some true →
    .sentinel ∈ roles record.sentinelPublicKey →
    ∃ tx : Transaction, tx.id = txId ∧ tx.verifySenderSignature C = some true

/-- A transfer to `[9]` that the holder of key `[1]` signed, assigned to the
Finalizer `[4]` by the Sentinel `[2]`. -/
def signedTransfer : Transaction :=
  { (default : Transaction) with
    id := "t"
    sender := [1]
    receiver := [9]
    amount := some 100
    senderSignature := [10]
    selection := some
      { finalizerPublicKey := [4]
        epochNumber := 0
        salt := []
        sentinelPublicKey := [2]
        attestation := [20] } }

def swappedTransfer : Transaction := { signedTransfer with receiver := [8] }

def executorVote : TransactionSignature where
  transactionId := asBytes "t"
  envId := []
  transactionHash := [5]
  signature := [31]
  currentStake := 0

/-- A codec in which exactly four signatures verify: the sender's over the
signed transfer, the Sentinel's over the id, and the Executor's over its vote's
envelope and over its vote. -/
def fourSignatures : Codec where
  sha256 bytes := bytes
  checkSignature sig key message :=
    some (decide ((sig, key, message) ∈
      [([10], [1], [9]), ([20], [2], asBytes "t"), ([30], [3], [7]), ([31], [3], [5])]))
  rmpInt _ := []
  rmpNat _ := []
  rmpBytes bytes := bytes
  rmpMetadata _ := []
  rmpTransaction tx := tx.receiver
  rmpCanonicalTransaction tx := tx.receiver ++ tx.resultHash
  rmpShielded stx := stx.proof
  rmpSignedTransaction st := st.transaction.receiver
  rmpFinalizerCarrier st := st.transaction.receiver
  rmpAttestation id _ _ _ _ := id
  decodeTransaction body :=
    if body = [5] then some signedTransfer
    else if body = [6] then some swappedTransfer
    else none
  decodeTransactionSignature body :=
    if body = [7] then some executorVote else none
  decodeTransactionCommit _ := none
  decodeBlock _ := none

def sampleFinalizer : FinalizerConfig where
  publicKey := [4]
  hashProvider bytes := bytes
  leaderAddress := [4]
  leaderStake := 1
  leaderHash := []
  finalizerAddr := [4]
  envId := "env"
  currentEpoch := 0

/-- One Sentinel, one Executor, and a transport that delivers. -/
def sampleWorld : FinalizerWorld where
  roles key :=
    if key = [2] then [.sentinel] else if key = [3] then [.executor] else []
  stakeSet := none
  tokenTip _ := none
  signData digest := some digest
  now := 0
  committersReached := true
  gossipReached := true
  sentinelsReached := true

def preloadThenVote (body : Bytes) : List FinalizerDelivery :=
  [⟨sampleWorld, .preload ⟨[], [], body⟩⟩, ⟨sampleWorld, .sign ⟨[3], [30], [7]⟩⟩]

theorem sentinelsVerify_sample : SentinelsVerify fourSignatures sampleWorld.roles := by
  intro r txId hv hr
  have hkey : r.sentinelPublicKey = [2] := by
    by_contra hne
    simp only [sampleWorld, if_neg hne] at hr
    split at hr <;> simp at hr
  unfold SelectionRecord.verify at hv
  split at hv
  · cases hv
  · -- the Sentinel's one signature is over the bytes of one id
    have hmem := of_decide_eq_true (some.inj hv)
    rw [hkey] at hmem
    have hid : r.attestation = [20] ∧ asBytes txId = asBytes "t" := by
      simpa [SelectionRecord.attestationSurface, fourSignatures] using hmem
    obtain rfl := asBytes_injective hid.2
    exact ⟨signedTransfer, rfl, rfl⟩

/-- The Sentinel has attested the id of a signed transfer only; a body with
another receiver is delivered under it, and the Finalizer signs that body. -/
theorem swapped_body_signed : SentinelsVerify fourSignatures sampleWorld.roles ∧
      ∃ st ∈ (Run.run (finalizerStep fourSignatures sampleFinalizer) .new
          (preloadThenVote [6])).signed, ¬ SenderAuthorised fourSignatures st.transaction :=
  ⟨sentinelsVerify_sample, by decide +kernel⟩

/-- The signed transfer itself is delivered and signed. -/
theorem signed_authorised_of_transfer : (Run.run (finalizerStep fourSignatures sampleFinalizer) .new
        (preloadThenVote [5])).signed.length = 1 ∧
      ∀ st ∈ (Run.run (finalizerStep fourSignatures sampleFinalizer) .new
          (preloadThenVote [5])).signed, SenderAuthorised fourSignatures st.transaction := by
  refine ⟨rfl, signed_authorised ⟨?_, trivial, trivial⟩⟩
  intro tx htx _
  obtain rfl : signedTransfer = tx := some.inj htx
  decide +kernel

end Pneumatic
