import Pneumatic.Finalizer.Shielded
import Pneumatic.Proofs.PoolRepresentation

/-!
# A shielded transfer at quorum

A transfer is finalized by a vote: the one that is newly collected when the bytes are
recorded, the votes so far carry the quorum, and none of them is for other bytes. A vote
request records the bytes and does nothing more, so votes that were all there before it
stay where they are; and a vote for other bytes that was collected under the id blocks
the transfer for good, since collected votes are dropped only once a block is out.

The theorem says when a Commit is sent, and that it is one: finalizing drops the bytes,
and without them no later vote finalizes again.
-/

namespace Pneumatic

open Handler HandlerM Finmap List Option

variable {C : Codec} {cfg : ShieldedConfig} {world : ShieldedWorld} {s s' : ShieldedState}
  {txId : String} {stx : ShieldedTransaction}

/-! ## Commits -/

def commitsFor (txId : String) (outbox : List Outbound) : List TransactionCommit :=
  outbox.filterMap fun
    | .commit message => if message.transId = asBytes txId then some message else none
    | _ => none

/-- Exactly one Commit was sent for the transfer, and its block carries it. -/
def OneCommit (stx : ShieldedTransaction) (s : ShieldedState) : Prop :=
  ∃ commit, commitsFor stx.id s.base.outbox = [commit] ∧
    commit.proposedBlock.signedTrans.shielded = some stx

/-! ## Votes and the vote that decides -/

section Condition

variable (C cfg)

/-- The votes for a transaction after a delivery, as long as nothing is finalized. -/
def collect (txId : String) (votes : VoteMap) (d : ShieldedDelivery) : VoteMap :=
  match d.message with
  | .sign _ => votes
  | .vote message =>
    match admitVote C d.world message with
    | .error _ => votes
    | .ok (id, voter, vote) =>
      if id = txId ∧ voter ∉ votes then votes.insert voter vote else votes

/-- The votes a list of deliveries brings: the first of each voter. -/
def tally (txId : String) (ds : List ShieldedDelivery) : VoteMap :=
  ds.foldl (collect C txId) ∅

/-- The votes carry the quorum, for the gate and for the reconciliation after it. -/
def Quorate (world : ShieldedWorld) (txId : String) (votes : VoteMap) : Prop :=
  checkStakeQuorum cfg votes (resolveStakeMetrics world).1 = true ∧
    ∃ responsible reconciled, responsibleSet cfg world = .ok responsible ∧
      reconcileSignatures cfg txId (some votes) responsible = .ok reconciled

/-- A delivery brings a new vote, and the votes so far carry the quorum and are all for
the transfer. -/
def Decisive (stx : ShieldedTransaction) (votes : VoteMap) (d : ShieldedDelivery) : Prop :=
  ∃ message voter vote, d.message = .vote message ∧
    admitVote C d.world message = .ok (stx.id, voter, vote) ∧ voter ∉ votes ∧
    Quorate cfg d.world stx.id (votes.insert voter vote) ∧
    ∀ key sig, (votes.insert voter vote).lookup key = some sig → sig.transactionHash = stx.hash C

/-- The request passes its sender's authentication and the advisory check. -/
def RequestAccepted (world : ShieldedWorld) (message : Message) (stx : ShieldedTransaction) :
    Prop :=
  authenticateShieldedMessage C world.roles message = .ok () ∧
    validateShieldedAdvisory cfg.primitives cfg.env world.poolView stx = .ok ()

end Condition

/-- Signing and both dispatches succeed. -/
structure Served (world : ShieldedWorld) : Prop where
  signs : ∀ bytes, (world.signData bytes).isSome
  committers : world.committersReached = true
  gossip : world.gossipReached = true

/-! ## What the handlers do -/

variable {base : FinalizerState}

theorem exec_inFinalizer_ok {α : Type} {m : FinalizerM α} {a : α}
    (h : m.exec s.base = (.ok a, base)) :
    (inFinalizer m).exec s = (.ok a, { s with base := base }) := by
  have hrun : m s.base = (.ok a, base) := h
  unfold exec inFinalizer zoom
  simp only [hrun]

theorem exec_inFinalizer_error {α : Type} {m : FinalizerM α} {e : PneumaticError}
    (h : m.exec s.base = (.error e, base)) :
    (inFinalizer m).exec s = (.error (.core e), { s with base := base }) := by
  have hrun : m s.base = (.error e, base) := h
  unfold exec inFinalizer zoom
  simp only [hrun]

theorem exec_addSignature (txId : String) (voter : Bytes) (vote : TransactionSignature)
    (s : FinalizerState) :
    (addSignature txId voter vote).exec s =
      if voter ∈ s.votes txId then
        (.error (.registry (.duplicateSignature voter txId)),
          { s with signatures := s.signatures.insert txId (s.votes txId) })
      else (.ok (), { s with
        signatures := s.signatures.insert txId ((s.votes txId).insert voter vote) }) := by
  unfold addSignature
  simp only [exec_bind, exec_update, exec_getState, exec_require, votes_insert]
  by_cases hv : voter ∈ s.votes txId
  · simp only [hv, not_true_eq_false, if_false, if_true]
  · simp only [hv, not_false_eq_true, if_true, if_false, votes_insert, insert_insert]

/-- A commit for the transaction was sent, and what was held for it is gone. -/
structure Finalized (txId : String) (stx : ShieldedTransaction) (s s' : ShieldedState) :
    Prop where
  recorded : s'.shieldedTransactions = s.shieldedTransactions.erase txId
  signatures : s'.base.signatures = s.base.signatures.erase txId
  sent : ∃ commit block stakes,
    s'.base.outbox = s.base.outbox ++ [.commit commit, .blockFinalized block stakes] ∧
      commit.transId = asBytes txId ∧
      commit.proposedBlock.signedTrans.shielded = some stx

theorem exec_signFinalizerBlock {c : FinalizerConfig}
    {w : FinalizerWorld} {signed : SignedTransaction}
    (hsg : ∀ bytes, (w.signData bytes).isSome) :
    ∃ done base', (signFinalizerBlock C c w signed).exec base = (.ok done, base') ∧
      done.shielded = signed.shielded ∧ base'.signatures = base.signatures ∧
      base'.outbox = base.outbox := by
  unfold signFinalizerBlock
  obtain ⟨sg, hs⟩ := isSome_iff_exists.mp (hsg (finalizerDigest C c.hashProvider signed))
  simp only [exec_bind, hs, exec_ofOption_some, exec_update, exec_pure]
  exact ⟨_, _, rfl, rfl, rfl, rfl⟩

theorem finalized_commitShielded {reconciled : ReconciledSignatures} (hs : Served world) :
    Finalized txId stx s ((commitShielded C cfg world txId reconciled stx).exec s).2 := by
  obtain ⟨signed, base, hrun, hsh, hsg, ho⟩ :
      ∃ done base', (signFinalizerBlock C cfg.toFinalizerConfig world.toFinalizerWorld
        (buildSignedTransactionShielded cfg reconciled stx (resolveStakeMetrics world).1
          (resolveStakeMetrics world).2)).exec s.base = (.ok done, base') ∧ _ :=
    exec_signFinalizerBlock hs.signs
  unfold commitShielded
  rw [exec_bind_ok (exec_inFinalizer_ok hrun)]
  simp only [exec_bind, exec_require, hs.committers, hs.gossip, if_true, exec_update, exec_pure]
  refine ⟨rfl, ?_, ?_⟩
  · rw [hsg]
  · exact ⟨_, _, _, by rw [ho, append_assoc]; rfl, rfl, hsh⟩

theorem otherVote_eq_none_iff {votes : VoteMap} {hash : Bytes} : otherVote cfg votes hash = none ↔
      ∀ key sig, votes.lookup key = some sig → sig.transactionHash = hash := by
  unfold otherVote
  rw [map_eq_none_iff, find?_eq_none]
  constructor
  · intro h key sig hsig
    simpa using h (key, sig) (cfg.order.mem_list.mpr hsig)
  · rintro h ⟨key, sig⟩ hmem
    simpa using h key sig (cfg.order.mem_list.mp hmem)

/-- The votes are reconciled, the bytes recorded, and every vote is for them. -/
def Finalizable (C : Codec) (cfg : ShieldedConfig) (world : ShieldedWorld) (txId : String)
    (votes : VoteMap) (recorded : Option Bytes) (stx : ShieldedTransaction) : Prop :=
  (∃ responsible reconciled, responsibleSet cfg world = .ok responsible ∧
    reconcileSignatures cfg txId (some votes) responsible = .ok reconciled) ∧
  recorded.bind cfg.decodeShielded = some stx ∧
  ∀ key sig, votes.lookup key = some sig → sig.transactionHash = stx.hash C

variable (C cfg) in
/-- An attempt finalizes, or leaves everything as it is. -/
theorem tryFinalizeShielded_cases {votes : VoteMap} (hs : Served world)
    (hv : s.base.signatures.lookup txId = some votes) :
    (∃ stx, Finalizable C cfg world txId votes (s.shieldedTransactions.lookup txId) stx ∧
      Finalized txId stx s ((tryFinalizeShielded C cfg world txId).exec s).2) ∨
    (∀ stx, ¬ Finalizable C cfg world txId votes (s.shieldedTransactions.lookup txId) stx) ∧
      ((tryFinalizeShielded C cfg world txId).exec s).2 = s := by
  unfold tryFinalizeShielded
  cases hr : responsibleSet cfg world with
  | error e =>
    refine .inr ⟨fun stx h => ?_, ?_⟩
    · obtain ⟨⟨_, _, hset, -⟩, -⟩ := h
      rw [hr] at hset
      cases hset
    · rw [exec_bind_error (exec_lift _ _)]
  | ok r =>
    rw [exec_bind_ok (exec_lift _ _), exec_bind_ok (exec_getState _), hv]
    dsimp only
    cases hrc : reconcileSignatures cfg txId (some votes) r with
    | error e =>
      refine .inr ⟨fun stx h => ?_, ?_⟩
      · obtain ⟨⟨_, _, hset, hrec⟩, -⟩ := h
        rw [hr] at hset
        cases hset
        rw [hrc] at hrec
        cases hrec
      · rw [exec_bind_error (exec_lift _ _)]
    | ok rc =>
      rw [exec_bind_ok (exec_lift _ _)]
      cases hrr : s.shieldedTransactions.lookup txId with
      | none =>
        refine .inr ⟨fun stx h => ?_, ?_⟩
        · cases h.2.1
        · rw [exec_bind_error (exec_ofOption_none _ _)]
      | some bytes =>
        rw [exec_bind_ok (exec_ofOption_some _ _ _)]
        cases hd : cfg.decodeShielded bytes with
        | none =>
          refine .inr ⟨fun stx h => ?_, ?_⟩
          · have hrd := h.2.1
            rw [bind_some, hd] at hrd
            cases hrd
          · rw [exec_bind_error (exec_ofOption_none _ _)]
        | some stx =>
          rw [exec_bind_ok (exec_ofOption_some _ _ _), bind_some]
          cases ho : otherVote cfg votes (stx.hash C) with
          | some voter =>
            refine .inr ⟨fun other h => ?_, ?_⟩
            · have hrd := h.2.1
              rw [bind_some, hd] at hrd
              cases hrd
              rw [otherVote_eq_none_iff.mpr h.2.2] at ho
              cases ho
            · rw [exec_bind_error (exec_lift _ _)]
          | none =>
            refine .inl ⟨stx, ⟨⟨r, rc, hr, hrc⟩,
              hd, otherVote_eq_none_iff.mp ho⟩, ?_⟩
            exact finalized_commitShielded hs

/-! ## One delivery -/

/-- What is kept and was sent for one transaction. -/
structure SameFor (txId : String) (s s' : ShieldedState) : Prop where
  votes : s'.base.votes txId = s.base.votes txId
  recorded : s'.shieldedTransactions.lookup txId = s.shieldedTransactions.lookup txId
  commits : commitsFor txId s'.base.outbox = commitsFor txId s.base.outbox

variable {id : String}

theorem votes_insert_of_ne {s : FinalizerState} (h : txId ≠ id) (votes : VoteMap) :
    FinalizerState.votes { s with signatures := s.signatures.insert id votes } txId =
      s.votes txId := by
  unfold FinalizerState.votes
  rw [lookup_insert_of_ne _ h]

theorem Finalized.sameFor (h : Finalized id stx s s') (hne : txId ≠ id) : SameFor txId s s' := by
  obtain ⟨c, block, st, ho, hid, -⟩ := h.sent
  refine ⟨?_, ?_, ?_⟩
  · unfold FinalizerState.votes
    rw [h.signatures, lookup_erase_ne hne]
  · rw [h.recorded, lookup_erase_ne hne]
  · have hot : asBytes id ≠ asBytes txId := fun heq => hne (asBytes_injective heq).symm
    simp only [commitsFor, ho, filterMap_append, filterMap_cons, hid,
      if_neg hot, filterMap_nil, append_nil]

theorem Finalized.commits (h : Finalized txId stx s s') :
    ∃ commit, commitsFor txId s'.base.outbox = commitsFor txId s.base.outbox ++ [commit] ∧
      commit.proposedBlock.signedTrans.shielded = some stx := by
  obtain ⟨commit, block, st, ho, hid, hstx⟩ := h.sent
  refine ⟨commit, ?_, hstx⟩
  simp only [commitsFor, ho, filterMap_append, filterMap_cons, hid, if_true, filterMap_nil]

def ShieldedState.withVote (s : ShieldedState) (txId : String) (voter : Bytes)
    (vote : TransactionSignature) : ShieldedState :=
  { s with base.signatures :=
      s.base.signatures.insert txId ((s.base.votes txId).insert voter vote) }

/-- What a vote can make of the state. -/
inductive VoteEffect (C : Codec) (cfg : ShieldedConfig) (world : ShieldedWorld)
    (message : Message) (s : ShieldedState) : ShieldedState → Prop
  | refused {e : ShieldedFault} (admitted : admitVote C world message = .error e) :
      VoteEffect C cfg world message s s
  | repeated {txId : String} {voter : Bytes} {vote : TransactionSignature}
      (admitted : admitVote C world message = .ok (txId, voter, vote))
      (held : voter ∈ s.base.votes txId) :
      VoteEffect C cfg world message s
        { s with base.signatures := s.base.signatures.insert txId (s.base.votes txId) }
  | collected {txId : String} {voter : Bytes} {vote : TransactionSignature}
      (admitted : admitVote C world message = .ok (txId, voter, vote))
      (fresh : voter ∉ s.base.votes txId)
      (short : ¬ (checkStakeQuorum cfg ((s.base.votes txId).insert voter vote)
          (resolveStakeMetrics world).1 = true ∧
        ∃ stx, Finalizable C cfg world txId ((s.base.votes txId).insert voter vote)
          (s.shieldedTransactions.lookup txId) stx)) :
      VoteEffect C cfg world message s (s.withVote txId voter vote)
  | finalized {txId : String} {voter : Bytes} {vote : TransactionSignature}
      {stx : ShieldedTransaction} {s' : ShieldedState}
      (admitted : admitVote C world message = .ok (txId, voter, vote))
      (fresh : voter ∉ s.base.votes txId)
      (quorum : checkStakeQuorum cfg ((s.base.votes txId).insert voter vote)
        (resolveStakeMetrics world).1 = true)
      (ready : Finalizable C cfg world txId ((s.base.votes txId).insert voter vote)
        (s.shieldedTransactions.lookup txId) stx)
      (done : Finalized txId stx (s.withVote txId voter vote) s') :
      VoteEffect C cfg world message s s'

theorem handleShieldedVote_effect (message : Message) (hs : Served world) :
    VoteEffect C cfg world message s ((handleShieldedVote C cfg world message).exec s).2 := by
  unfold handleShieldedVote
  cases ha : admitVote C world message with
  | error e =>
    exact .refused ha
  | ok a =>
    obtain ⟨txId, voter, vote⟩ := a
    rw [exec_bind_ok (exec_lift _ _)]
    have hadd := exec_addSignature txId voter vote s.base
    by_cases hv : voter ∈ s.base.votes txId
    · rw [if_pos hv] at hadd
      rw [exec_bind_error (exec_inFinalizer_error hadd)]
      exact .repeated ha hv
    · rw [if_neg hv] at hadd
      rw [exec_bind_ok (exec_inFinalizer_ok hadd), exec_bind_ok (exec_getState _), votes_insert]
      change VoteEffect C cfg world message s (HandlerM.exec _ (s.withVote txId voter vote)).2
      split
      · next hq =>
        have hvt : (s.withVote txId voter vote).base.signatures.lookup txId = some _ :=
          lookup_insert _
        rcases tryFinalizeShielded_cases C cfg hs hvt with
          ⟨stx, hr, hd⟩ | ⟨hnot, hsm⟩
        · exact .finalized ha hv hq hr hd
        · rw [hsm]
          exact .collected ha hv fun h => h.2.elim hnot
      · next hq =>
        exact .collected ha hv fun h => hq h.1

/-- A delivery that does not finalize a transaction leaves its votes as `collect` says, and
the rest as it is. -/
structure Collected (C : Codec) (txId : String) (d : ShieldedDelivery)
    (s s' : ShieldedState) : Prop where
  votes : s'.base.votes txId = collect C txId (s.base.votes txId) d
  recorded : s'.shieldedTransactions.lookup txId = s.shieldedTransactions.lookup txId
  commits : commitsFor txId s'.base.outbox = commitsFor txId s.base.outbox

/-- A delivery that finalizes a transfer drops its bytes and sends one Commit. -/
structure Completed (txId : String) (stx : ShieldedTransaction) (s s' : ShieldedState) :
    Prop where
  recorded : s'.shieldedTransactions.lookup txId = none
  commits : ∃ commit, commitsFor txId s'.base.outbox = commitsFor txId s.base.outbox ++ [commit] ∧
      commit.proposedBlock.signedTrans.shielded = some stx

section Votes

variable {d : ShieldedDelivery} {message : Message}

theorem collect_of_admitted (txId : String) (hd : d.message = .vote message)
    {voter : Bytes} {vote : TransactionSignature}
    (h : admitVote C d.world message = .ok (id, voter, vote)) (votes : VoteMap) :
    collect C txId votes d =
      if id = txId ∧ voter ∉ votes then votes.insert voter vote else votes := by
  simp only [collect, hd, h]

/-- A vote, told for one transaction. -/
theorem VoteEffect.sentOrCollected (hd : d.message = .vote message)
    (h : VoteEffect C cfg d.world message s s') (txId : String) : Collected C txId d s s' ∧
        (∀ voter vote, admitVote C d.world message = .ok (txId, voter, vote) →
          voter ∉ s.base.votes txId →
          ¬ (checkStakeQuorum cfg ((s.base.votes txId).insert voter vote)
              (resolveStakeMetrics d.world).1 = true ∧
            ∃ stx, Finalizable C cfg d.world txId ((s.base.votes txId).insert voter vote)
              (s.shieldedTransactions.lookup txId) stx)) ∨
      ∃ voter vote stx, admitVote C d.world message = .ok (txId, voter, vote) ∧
        voter ∉ s.base.votes txId ∧ checkStakeQuorum cfg ((s.base.votes txId).insert voter vote)
          (resolveStakeMetrics d.world).1 = true ∧
        Finalizable C cfg d.world txId ((s.base.votes txId).insert voter vote)
          (s.shieldedTransactions.lookup txId) stx ∧ Completed txId stx s s' := by
  cases h with
  | refused admitted =>
    left
    refine ⟨⟨by simp only [collect, hd, admitted], rfl, rfl⟩, fun voter vote ho => ?_⟩
    rw [admitted] at ho
    cases ho
  | @repeated id voter vote admitted held =>
    left
    have hc := collect_of_admitted txId hd admitted (s.base.votes txId)
    refine ⟨⟨?_, rfl, rfl⟩, fun other vote' ho hf => ?_⟩
    · by_cases hid : id = txId
      · subst hid
        rw [hc, if_neg fun hnew => hnew.2 held, votes_insert]
      · rw [hc, if_neg fun hnew => hid hnew.1, votes_insert_of_ne (Ne.symm hid)]
    · rw [admitted] at ho
      cases ho
      exact absurd held hf
  | @collected id voter vote admitted fresh short =>
    left
    have hc := collect_of_admitted txId hd admitted (s.base.votes txId)
    refine ⟨⟨?_, rfl, rfl⟩, fun other vote' ho _ => ?_⟩
    · by_cases hid : id = txId
      · subst hid
        rw [hc, if_pos ⟨rfl, fresh⟩]
        exact votes_insert _ _
      · rw [hc, if_neg fun hnew => hid hnew.1]
        exact votes_insert_of_ne (Ne.symm hid) _
    · rw [admitted] at ho
      cases ho
      exact short
  | @finalized id voter vote stx _ admitted fresh q ready done =>
    by_cases hid : id = txId
    · subst hid
      right
      refine ⟨voter, vote, stx, admitted, fresh, q, ready, ?_, done.commits⟩
      rw [done.recorded, lookup_erase]
    · left
      have hc := collect_of_admitted txId hd admitted (s.base.votes txId)
      have hs := done.sameFor (Ne.symm hid)
      refine ⟨⟨?_, hs.recorded, hs.commits⟩, fun other vote' ho _ => ?_⟩
      · rw [hs.votes, hc, if_neg fun hnew => hid hnew.1]
        exact votes_insert_of_ne (Ne.symm hid) _
      · rw [admitted] at ho
        cases ho
        exact absurd rfl hid

theorem collected_of_missing (hs : Served d.world) (hd : d.message = .vote message)
    (hm : s.shieldedTransactions.lookup txId = none) :
    Collected C txId d s (shieldedStep C cfg s d) := by
  have he : VoteEffect C cfg d.world message s (shieldedStep C cfg s d) := by
    unfold shieldedStep handleShieldedDelivery
    rw [hd]
    exact handleShieldedVote_effect message hs
  rcases he.sentOrCollected hd txId with ⟨hc, -⟩ | ⟨_, _, _, -, -, -, hr, -⟩
  · exact hc
  · rw [hm] at hr
    cases hr.2.1

/-- With the bytes, it depends on whether the vote decides. -/
theorem completed_or_collected (hs : Served d.world) (hd : d.message = .vote message)
    (hrc : (s.shieldedTransactions.lookup stx.id).bind cfg.decodeShielded = some stx) :
    Decisive C cfg stx (s.base.votes stx.id) d ∧ Completed stx.id stx s (shieldedStep C cfg s d) ∨
      ¬ Decisive C cfg stx (s.base.votes stx.id) d ∧
        Collected C stx.id d s (shieldedStep C cfg s d) := by
  have he : VoteEffect C cfg d.world message s (shieldedStep C cfg s d) := by
    unfold shieldedStep handleShieldedDelivery
    rw [hd]
    exact handleShieldedVote_effect message hs
  rcases he.sentOrCollected hd stx.id with
    ⟨hc, hnot⟩ | ⟨voter, vote, stx', ha, hf, hq, hry, hdn⟩
  · refine .inr ⟨?_, hc⟩
    rintro ⟨message', voter, vote, hd', ha, hf, ⟨hq, hr⟩, hh⟩
    rw [hd] at hd'
    cases hd'
    exact hnot voter vote ha hf ⟨hq, stx, hr, hrc, hh⟩
  · obtain ⟨hr, hrd, hh⟩ := hry
    rw [hrc] at hrd
    cases hrd
    exact .inl ⟨⟨message, voter, vote, hd, ha, hf, ⟨hq, hr⟩, hh⟩, hdn⟩

end Votes

theorem request_recorded {d : ShieldedDelivery} {message : Message}
    (hd : d.message = .sign message) (hstx : cfg.decodeShielded message.body = some stx)
    (hsr : Served d.world) (hm : s.shieldedTransactions.lookup stx.id = none)
    (ha : RequestAccepted C cfg d.world message stx) :
    (shieldedStep C cfg s d).base = s.base ∧
      (shieldedStep C cfg s d).shieldedTransactions.lookup stx.id = some (C.rmpShielded stx) := by
  obtain ⟨hsn, hv⟩ := ha
  obtain ⟨sg, hs⟩ :=
    isSome_iff_exists.mp (hsr.signs (stx.hash C))
  unfold shieldedStep handleShieldedDelivery
  rw [hd]
  dsimp only
  unfold handleSignShielded
  rw [hsn, Except.mapError, exec_bind_ok (exec_lift _ _), hstx,
    exec_bind_ok (exec_ofOption_some _ _ _), hv, Except.mapError, exec_bind_ok (exec_lift _ _),
    exec_bind_ok (exec_getState _)]
  simp only [hm, exec_bind, exec_require, exec_update, hs, exec_ofOption_some,
    exec_pure, not_mem_none, false_implies, implies_true, if_true]
  -- the transfer is recorded before the vote is packaged
  cases d.world.votePackaged <;> exact ⟨rfl, lookup_insert _⟩

theorem request_refused {d : ShieldedDelivery} {message : Message}
    (hd : d.message = .sign message) (hstx : cfg.decodeShielded message.body = some stx)
    (hr : ¬ RequestAccepted C cfg d.world message stx) : shieldedStep C cfg s d = s := by
  unfold shieldedStep handleShieldedDelivery
  rw [hd]
  dsimp only
  unfold handleSignShielded
  cases hs : authenticateShieldedMessage C d.world.roles message with
  | error e => rw [Except.mapError, exec_bind_error (exec_lift _ _)]
  | ok _ =>
    rw [Except.mapError, exec_bind_ok (exec_lift _ _), hstx,
      exec_bind_ok (exec_ofOption_some _ _ _)]
    cases hv : validateShieldedAdvisory cfg.primitives cfg.env d.world.poolView stx with
    | error e => rw [Except.mapError, exec_bind_error (exec_lift _ _)]
    | ok _ => exact absurd ⟨hs, hv⟩ hr

/-! ## Whole runs -/

/-- A vote, handled where signing works and what is sent gets out. -/
def ServedVote (d : ShieldedDelivery) : Prop :=
  Served d.world ∧ ∃ message, d.message = .vote message

variable {ds : List ShieldedDelivery}

/-- Votes without the bytes are collected. -/
theorem run_missing (hds : ∀ d ∈ ds, ServedVote d)
    (hm : s.shieldedTransactions.lookup txId = none) :
    (Run.run (shieldedStep C cfg) s ds).base.votes txId =
        ds.foldl (collect C txId) (s.base.votes txId) ∧
      (Run.run (shieldedStep C cfg) s ds).shieldedTransactions.lookup txId = none ∧
      commitsFor txId (Run.run (shieldedStep C cfg) s ds).base.outbox =
        commitsFor txId s.base.outbox := by
  induction ds generalizing s with
  | nil => exact ⟨rfl, hm, rfl⟩
  | cons d ds ih =>
    obtain ⟨hs, message, hd⟩ := hds d mem_cons_self
    have hc : Collected C txId d s (shieldedStep C cfg s d) :=
      collected_of_missing hs hd hm
    obtain ⟨hv, hn, hcm⟩ := ih (fun e he => hds e (mem_cons_of_mem d he)) (hc.recorded.trans hm)
    refine ⟨?_, hn, hcm.trans hc.commits⟩
    rw [foldl_cons, ← hc.votes]
    exact hv

/-- With the bytes, a Commit is sent if one of the votes decides, and then only one. -/
theorem run_recorded (hds : ∀ d ∈ ds, ServedVote d)
    (hr : (s.shieldedTransactions.lookup stx.id).bind cfg.decodeShielded = some stx) :
    (∃ pre d post, ds = pre ++ d :: post ∧
        Decisive C cfg stx (pre.foldl (collect C stx.id) (s.base.votes stx.id)) d) ∧
      (∃ c, commitsFor stx.id (Run.run (shieldedStep C cfg) s ds).base.outbox =
          commitsFor stx.id s.base.outbox ++ [c] ∧
        c.proposedBlock.signedTrans.shielded = some stx) ∨
    (¬ ∃ pre d post, ds = pre ++ d :: post ∧
        Decisive C cfg stx (pre.foldl (collect C stx.id) (s.base.votes stx.id)) d) ∧
      commitsFor stx.id (Run.run (shieldedStep C cfg) s ds).base.outbox =
        commitsFor stx.id s.base.outbox := by
  induction ds generalizing s with
  | nil =>
    refine .inr ⟨?_, rfl⟩
    rintro ⟨pre, d, post, h, -⟩
    cases pre <;> cases h
  | cons d ds ih =>
    obtain ⟨hs, message, hd⟩ := hds d mem_cons_self
    have hrs : ∀ e ∈ ds, ServedVote e := fun e he => hds e (mem_cons_of_mem d he)
    rcases completed_or_collected hs hd hr with
      ⟨hdc, hdn⟩ | ⟨hnot, hc⟩
    · -- the bytes are gone, so nothing more is sent
      left
      obtain ⟨c, hcm, hstx⟩ := hdn.commits
      refine ⟨⟨[], d, ds, rfl, hdc⟩, c, ?_, hstx⟩
      exact (run_missing hrs hdn.recorded).2.2.trans hcm
    · have hsh : (∃ pre e post, d :: ds = pre ++ e :: post ∧
          Decisive C cfg stx (pre.foldl (collect C stx.id) (s.base.votes stx.id)) e) ↔
          ∃ pre e post, ds = pre ++ e :: post ∧ Decisive C cfg stx (pre.foldl (collect C stx.id)
              ((shieldedStep C cfg s d).base.votes stx.id)) e := by
        rw [hc.votes]
        constructor
        · rintro ⟨pre, e, post, h, hdc⟩
          cases pre with
          | nil =>
            cases h
            exact absurd hdc hnot
          | cons d' pre =>
            obtain ⟨rfl, rfl⟩ := h
            exact ⟨pre, e, post, rfl, hdc⟩
        · rintro ⟨pre, e, post, rfl, hdc⟩
          exact ⟨d :: pre, e, post, rfl, hdc⟩
      rw [hsh, ← hc.commits]
      refine ih hrs ?_
      rw [hc.recorded]
      exact hr

/-- One vote request among votes, in any order: exactly one Commit is sent if and only if
the request is accepted and, after it, a newly collected vote completes a quorum of votes
that are all for the transfer. -/
theorem shielded_committed_iff {request : ShieldedDelivery} {message : Message}
    {before after : List ShieldedDelivery}
    (hread : cfg.decodeShielded (C.rmpShielded stx) = some stx)
    (hrequest : request.message = .sign message)
    (hstx : cfg.decodeShielded message.body = some stx) (hserved : Served request.world)
    (hbefore : ∀ d ∈ before, ServedVote d) (hafter : ∀ d ∈ after, ServedVote d)
    (hvotes : s.base.votes stx.id = ∅) (hmissing : s.shieldedTransactions.lookup stx.id = none)
    (hunsent : commitsFor stx.id s.base.outbox = []) :
    OneCommit stx (Run.run (shieldedStep C cfg) s (before ++ request :: after)) ↔
      RequestAccepted C cfg request.world message stx ∧ ∃ pre d post, after = pre ++ d :: post ∧
          Decisive C cfg stx (tally C stx.id (before ++ pre)) d := by
  obtain ⟨hcl, hn, hc⟩ := run_missing (C := C) hbefore hmissing
  rw [hvotes] at hcl
  rw [hunsent] at hc
  rw [Run.run_append]
  show OneCommit stx (Run.run (shieldedStep C cfg)
    (shieldedStep C cfg (Run.run (shieldedStep C cfg) s before) request) after) ↔ _
  generalize Run.run (shieldedStep C cfg) s before = s₁ at hcl hn hc
  by_cases ha : RequestAccepted C cfg request.world message stx
  · obtain ⟨hb, hr⟩ := request_recorded hrequest hstx hserved hn ha
    have hby : ((shieldedStep C cfg s₁ request).shieldedTransactions.lookup stx.id).bind
        cfg.decodeShielded = some stx := by
      rw [hr]
      exact hread
    simp only [tally, foldl_append, ← hcl, ← hb, ha, true_and]
    rw [← hb] at hc
    rcases run_recorded hafter hby with
      ⟨hd, commit, hs, hcr⟩ | ⟨hnot, hs⟩
    · rw [hc] at hs
      exact ⟨fun _ => hd, fun _ => ⟨commit, hs, hcr⟩⟩
    · rw [hc] at hs
      refine ⟨?_, fun h => absurd h hnot⟩
      rintro ⟨commit, hone, -⟩
      rw [hs] at hone
      cases hone
  · rw [request_refused hrequest hstx ha]
    have hs : commitsFor stx.id (Run.run (shieldedStep C cfg) s₁ after).base.outbox = _ :=
      (run_missing hafter hn).2.2
    refine ⟨?_, fun h => absurd h.1 ha⟩
    rintro ⟨commit, hone, -⟩
    rw [hs, hc] at hone
    cases hone

/-! ## A quorum that is not committed -/

/-- Finalizers that hold the quorum share of the stake have cast admitted votes for the
transfer. -/
def Supported (C : Codec) (stakers : StakeSet) (quorumPct : Nat) (stx : ShieldedTransaction)
    (ds : List ShieldedDelivery) : Prop :=
  ∃ voters : List Bytes, voters.Nodup ∧
    (∀ voter ∈ voters, ∃ d ∈ ds, ∃ message vote, d.message = .vote message ∧
      admitVote C d.world message = .ok (stx.id, voter, vote) ∧ vote.transactionHash = stx.hash C) ∧
    0 < stakers.totalStake ∧
    stakers.totalStake * quorumPct ≤ (voters.map stakers.getStake).sum * 100

namespace Blocked

theorem nodup_sortedKeys (votes : VoteMap) : (sortedKeys votes).Nodup := by
  have hn := votes.keys.nodup
  unfold sortedKeys
  revert hn
  induction votes.keys.val using Quot.inductionOn with
  | h keys => exact fun hn => (perm_insertionSort _ keys).nodup_iff.mpr hn

def byKey : MapOrder where
  list votes := (sortedKeys votes).filterMap fun key =>
    (votes.lookup key).map fun vote => (key, vote)
  mem_list := by
    intro votes key vote
    rw [List.mem_filterMap]
    constructor
    · rintro ⟨key', -, h⟩
      obtain ⟨vote', hvote, heq⟩ := Option.map_eq_some_iff.mp h
      cases heq
      exact hvote
    · intro h
      refine ⟨key, mem_sortedKeys.mpr (Finmap.mem_of_lookup_eq_some h), ?_⟩
      rw [h]
      rfl
  nodup := by
    intro votes
    refine (nodup_sortedKeys votes).sublist ?_
    induction sortedKeys votes with
    | nil => exact .slnil
    | cons key keys ih =>
      rw [List.filterMap_cons]
      cases votes.lookup key with
      | none => exact ih.cons _
      | some vote => exact ih.cons_cons _

def transfer : ShieldedTransaction :=
  { ShieldedPool.sampleTransfer [65] (.ofNat 5) (.ofNat 6) (.ofNat 7) (toRepr 0) with
    proof := [77] }

def voteFor (hash : Bytes) : TransactionSignature where
  transactionId := asBytes "transfer"
  envId := []
  transactionHash := hash
  signature := []
  currentStake := 0

/-- Bodies `[1]` and `[2]` are votes for the transfer and for something else. -/
def codec : Codec :=
  { ShieldedPool.sampleCodec with
    decodeTransactionSignature := fun body =>
      if body = [1] then some (voteFor [77])
      else if body = [2] then some (voteFor [78])
      else none }

def config : ShieldedConfig where
  publicKey := [4]
  hashProvider bytes := bytes
  leaderAddress := [4]
  leaderStake := 1
  leaderHash := []
  finalizerAddr := [4]
  envId := "env"
  currentEpoch := 0
  primitives := ShieldedPool.samplePrimitives
  env := ShieldedPool.sampleEnv
  shardCount := 1
  quorumPct := 67
  decodeShielded body := if body = [77] then some transfer else none
  order := byKey

/-- Three Finalizers; the first two hold four fifths of the stake. -/
def stakers : StakeSet :=
  ((Finmap.singleton [1] 50).insert [2] 30).insert [3] 20

def surroundings : ShieldedWorld where
  roles _ := [.finalizer]
  stakeSet := some stakers
  tokenTip _ := none
  signData digest := some digest
  now := 0
  committersReached := true
  gossipReached := true
  sentinelsReached := true
  poolView := ⟨∅, [⟨toRepr 0, 0⟩]⟩
  votePackaged := true

def start : ShieldedState := ⟨.new, ∅, []⟩

def request : ShieldedDelivery := ⟨surroundings, .sign ⟨[1], [], [77]⟩⟩

def vote (voter body : Bytes) : ShieldedDelivery := ⟨surroundings, .vote ⟨voter, [], body⟩⟩

/-- The quorum is there before the request. -/
def votesFirst : List ShieldedDelivery := [vote [1] [1], vote [2] [1], request]

/-- The smallest staker votes for other bytes first. -/
def otherFirst : List ShieldedDelivery :=
  [request, vote [3] [2], vote [1] [1], vote [2] [1]]

def outcome (ds : List ShieldedDelivery) : ShieldedState :=
  Run.run (shieldedStep codec config) start ds

theorem supported_of_mem (hf : vote [1] [1] ∈ ds)
    (hs : vote [2] [1] ∈ ds) : Supported codec stakers 67 transfer ds := by
  refine ⟨[[1], [2]], by decide, ?_, by decide +kernel, by decide +kernel⟩
  intro voter hv
  rcases mem_pair.mp hv with rfl | rfl
  · exact ⟨_, hf, _, _, rfl, by rfl, rfl⟩
  · exact ⟨_, hs, _, _, rfl, by rfl, rfl⟩

theorem not_oneCommit_of_nil {s : ShieldedState}
    (h : (commitsFor "transfer" s.base.outbox).length = 0) : ¬ OneCommit transfer s := by
  rintro ⟨c, hone, -⟩
  have hone : commitsFor "transfer" s.base.outbox = [c] := hone
  rw [hone] at h
  cases h

/-- In both orders the quorum has voted for the transfer, and no Commit is sent. -/
theorem quorum_not_committed : (Supported codec stakers 67 transfer votesFirst ∧
        ¬ OneCommit transfer (outcome votesFirst)) ∧
      Supported codec stakers 67 transfer otherFirst ∧
        ¬ OneCommit transfer (outcome otherFirst) := by
  refine ⟨⟨supported_of_mem ?_ ?_, not_oneCommit_of_nil (by decide +kernel)⟩,
    supported_of_mem ?_ ?_, not_oneCommit_of_nil (by decide +kernel)⟩
  · exact .head _
  · exact .tail _ (.head _)
  · exact .tail _ (.tail _ (.head _))
  · exact .tail _ (.tail _ (.tail _ (.head _)))

theorem served : Served surroundings := ⟨fun _ => rfl, rfl, rfl⟩

/-- The votes once the second one is in. -/
def bothVotes : VoteMap :=
  (tally codec transfer.id [vote [1] [1]]).insert [2] { voteFor [77] with currentStake := 30 }

theorem quorate_bothVotes : Quorate config surroundings transfer.id bothVotes := by
  refine ⟨rfl, .fromStakeSet stakers, ?_⟩
  have hok : (reconcileSignatures config transfer.id (some bothVotes)
      (.fromStakeSet stakers)).isOk = true := rfl
  generalize reconcileSignatures config transfer.id (some bothVotes) (.fromStakeSet stakers) =
    r at hok ⊢
  cases r with
  | error e => cases hok
  | ok rc => exact ⟨rc, rfl, rfl⟩

theorem decisive_second :
    Decisive codec config transfer (tally codec transfer.id [vote [1] [1]]) (vote [2] [1]) := by
  have hn : otherVote config bothVotes (transfer.hash codec) = none := rfl
  exact ⟨_, [2], _, rfl, by rfl, by decide +kernel, quorate_bothVotes,
    otherVote_eq_none_iff.mp hn⟩

/-- With the request first and no other vote, the second vote decides. -/
theorem request_first_committed :
    Supported codec stakers 67 transfer [request, vote [1] [1], vote [2] [1]] ∧
      OneCommit transfer (outcome ([] ++ request :: [vote [1] [1], vote [2] [1]])) := by
  refine ⟨supported_of_mem (.tail _ (.head _)) (.tail _ (.tail _ (.head _))), ?_⟩
  have hv : ∀ d ∈ [vote [1] [1], vote [2] [1]], ServedVote d := by
    intro d hd
    rcases mem_pair.mp hd with rfl | rfl
    · exact ⟨served, _, rfl⟩
    · exact ⟨served, _, rfl⟩
  refine (shielded_committed_iff rfl rfl rfl served (fun d hd => absurd hd not_mem_nil)
    hv rfl rfl rfl).mpr ⟨?_, ?_⟩
  · exact ⟨rfl, by decide +kernel⟩
  · exact ⟨[vote [1] [1]], vote [2] [1], [], rfl, decisive_second⟩

end Blocked

end Pneumatic
