import Pneumatic.Finalizer.Calls
import Pneumatic.Proofs.FinalizerAuthority

/-!
# A voted transaction is attempted

A transaction is tried as soon as one Executor has voted for it, and two calls see to
that. A vote tries if it finds itself to be the only one once it is added; a preload
tries with the first vote it finds once the entry is registered. So a vote that comes
before the preload is found by it, and the first vote that comes after it tries by
itself.

But a vote is added in one step and the votes are counted in another. When two votes are
added after the preload has looked and before either has counted, each counts two, and
nobody tries. Where a vote is added only when the one before it has counted, somebody
does. The invariant says who: as long as nothing was tried and the preload has looked,
there is no vote, or a single one that its call has yet to count, or a call about to
load the entry.
-/

namespace Pneumatic

open Interleaving State Run Finmap Option

variable {C : Codec} {cfg : FinalizerConfig} {m : BusyFinalizer} {tx : Transaction}

/-! ## Attempts -/

/-- The turn is the first step of `try_finalize_optimistic` for a transaction whose entry
is registered. -/
def Attempts (txId : String) (m : BusyFinalizer) : FinalizerTurn → Prop
  | .start _ _ => False
  | .advance i _ =>
    match m.calls i with
    | some (.load vote) => vote.txId = txId ∧ (m.shared.pending.lookup txId).isSome
    | _ => False

instance decidableAttempts (txId : String) (m : BusyFinalizer) :
    ∀ turn, Decidable (Attempts txId m turn)
  | .start _ _ => isFalse id
  | .advance i _ => by
    unfold Attempts
    dsimp only
    rcases m.calls i with _ | call
    · exact isFalse id
    · cases call <;> dsimp only <;> infer_instance

section Runs

variable (C cfg)

/-- Some turn attempts to finalize the transaction. -/
def Attempted (txId : String) (m : BusyFinalizer) (turns : List FinalizerTurn) : Prop :=
  ∃ pre turn post, turns = pre ++ turn :: post ∧
    Attempts txId (run (finalizerTurn C cfg) m pre) turn

/-- The turn starts a call that is not refused. -/
def Opens (m : BusyFinalizer) (i : Nat) (d : FinalizerDelivery) (call : FinalizerCall) : Prop :=
  m.calls i = none ∧ (startCall C cfg d m.shared).2 = some call

/-- The call has a vote for the id to register. -/
def FinalizerCall.opensVote (txId : String) : FinalizerCall → Prop
  | .ensureRegistered vote => vote.txId = txId
  | _ => False

instance decidableOpensVote (txId : String) :
    ∀ call : FinalizerCall, Decidable (call.opensVote txId) := by
  intro call
  unfold FinalizerCall.opensVote
  split <;> infer_instance

/-- The calls that start are votes for the transaction. -/
def StartsVotes (txId : String) (m : BusyFinalizer) : FinalizerTurn → Prop
  | .start i d =>
    m.calls i = none → ∀ call ∈ (startCall C cfg d m.shared).2, call.opensVote txId
  | .advance _ _ => True

instance decidableStartsVotes (txId : String) (m : BusyFinalizer) :
    ∀ turn, Decidable (StartsVotes C cfg txId m turn)
  | .start i d => by
    unfold StartsVotes
    have : Decidable (m.calls i = none) :=
      decidable_of_iff ((m.calls i).isNone = true) Option.isNone_iff_eq_none
    infer_instance
  | .advance _ _ => isTrue trivial

/-- One preload that registers the transaction and at least one vote for it, their steps
in any order, and all of them returned at the end. -/
structure VotedPreload (tx : Transaction) (m : BusyFinalizer) (turns : List FinalizerTurn) :
    Prop where
  idle : ∀ i, m.calls i = none
  fresh : m.shared.pending.lookup tx.id = none
  preload : ∃ before i d after, turns = before ++ .start i d :: after ∧
    Opens C cfg (run (finalizerTurn C cfg) m before) i d (.contains tx) ∧
    Run.Meets (finalizerTurn C cfg) (StartsVotes C cfg tx.id) m before ∧
    Run.Meets (finalizerTurn C cfg) (StartsVotes C cfg tx.id)
      (run (finalizerTurn C cfg) m (before ++ [.start i d])) after
  voted : ∃ before i d after vote, turns = before ++ .start i d :: after ∧
    Opens C cfg (run (finalizerTurn C cfg) m before) i d (.ensureRegistered vote) ∧
    vote.txId = tx.id
  returned : ∀ i, (run (finalizerTurn C cfg) m turns).calls i = none

end Runs

/-! ## The condition -/

/-- A preload's call, from its start to its look for a vote. -/
def FinalizerCall.preloading (tx : Transaction) : FinalizerCall → Prop
  | .contains held => held = tx
  | .refresh held => held = tx
  | .register held => held = tx
  | .preload held => held = tx
  | .firstSignature txId => txId = tx.id
  | _ => False

/-- A vote's call, from its start to its load of the entry. -/
def FinalizerCall.voting (txId : String) : FinalizerCall → Prop
  | .ensureRegistered vote => vote.txId = txId
  | .addSignature vote => vote.txId = txId
  | .signatureCount vote => vote.txId = txId
  | .load vote => vote.txId = txId
  | _ => False

/-- The entry is registered, and no preload has its look for a vote before it. -/
def Looked (tx : Transaction) (m : BusyFinalizer) : Prop :=
  (m.shared.pending.lookup tx.id).isSome ∧ ∀ i call, m.calls i = some call → ¬ call.preloading tx

/-- Once the preload has looked, a vote is added only when the votes before it have been
counted. -/
def CountedFirst (tx : Transaction) (m : BusyFinalizer) : FinalizerTurn → Prop
  | .start _ _ => True
  | .advance i _ => ∀ vote, m.calls i = some (.addSignature vote) → vote.txId = tx.id →
      Looked tx m → ∀ j other, m.calls j = some (.signatureCount other) → other.txId ≠ tx.id

/-! ## The calls that take part -/

/-- Nothing is under way but the preload and votes for its transaction. -/
def OnlyFor (tx : Transaction) (m : BusyFinalizer) : Prop :=
  ∀ i call, m.calls i = some call → call.preloading tx ∨ call.voting tx.id

variable {call : FinalizerCall} {s : FinalizerState} {txId : String}
  {world : FinalizerWorld} {i : Nat}

theorem FinalizerCall.voting.not_preloading (h : call.voting tx.id) : ¬ call.preloading tx := by
  cases call <;> first | exact id | exact fun _ => h

theorem firstSignature_eq_none (h : firstSignature s txId = none) : s.votes txId = ∅ := by
  unfold firstSignature at h
  have hk : ∀ key, key ∉ s.votes txId := by
    intro key hkey
    cases hh : (sortedKeys (s.votes txId)).head? with
    | none =>
      rw [← mem_sortedKeys, List.head?_eq_none_iff.mp hh] at hkey
      cases hkey
    | some voter =>
      have hv := mem_sortedKeys.mp (List.mem_of_mem_head? hh)
      obtain ⟨sig, hsig⟩ := mem_iff.mp hv
      simp only [hh, hsig] at h
      cases h
  exact ext_lookup fun key => by
    rw [lookup_empty, lookup_eq_none]
    exact hk key

theorem isSome_setState {pending : PendingRegistry}
    (state : TransactionState) (h : (pending.lookup txId).isSome) :
    ((pending.setState txId state).lookup txId).isSome := by
  obtain ⟨entry, he⟩ := isSome_iff_exists.mp h
  unfold PendingRegistry.setState
  simp only [he, lookup_insert]
  rfl

theorem isSome_refreshPreload {pending : PendingRegistry} (h : (pending.lookup tx.id).isSome) :
    ((refreshPreload pending tx).lookup tx.id).isSome := by
  obtain ⟨entry, he⟩ := isSome_iff_exists.mp h
  unfold refreshPreload registerPreload
  simp only [he]
  cases entry.state with
  | pending | preloaded _ | validated _ _ | executing _ => exact isSome_setState _ h
  | finalizing _ _ => exact h
  | committed _ _ => exact h
  | failed _ _ => exact h

/-! ## A vote that was cast is kept -/

/-- A vote is collected, or the call of one has yet to add it. -/
def VoteHeld (txId : String) (m : BusyFinalizer) : Prop :=
  m.shared.votes txId ≠ ∅ ∨
    ∃ i vote, vote.txId = txId ∧ (m.calls i = some (.ensureRegistered vote) ∨
      m.calls i = some (.addSignature vote) ∧ (m.shared.signatures.lookup txId).isSome)

/-- What is collected for a transaction is not lost. -/
structure KeepsVotes (txId : String) (s s' : FinalizerState) : Prop where
  collected : (s.signatures.lookup txId).isSome → (s'.signatures.lookup txId).isSome
  votes : s.votes txId ≠ ∅ → s'.votes txId ≠ ∅

theorem KeepsVotes.of_signatures {s' : FinalizerState}
    (h : s'.signatures = s.signatures) : KeepsVotes txId s s' := by
  refine ⟨fun hs => by rwa [h], fun hv => ?_⟩
  unfold FinalizerState.votes at hv ⊢
  rwa [h]

theorem KeepsVotes.insert {id : String} {votes : VoteMap}
    (h : s.votes id ≠ ∅ → votes ≠ ∅) :
    KeepsVotes txId s { s with signatures := s.signatures.insert id votes } := by
  by_cases hid : txId = id
  · subst hid
    refine ⟨fun _ => ?_, fun hv => ?_⟩
    · rw [lookup_insert]
      rfl
    · rw [votes_insert]
      exact h hv
  · refine ⟨fun hs => ?_, fun hv => ?_⟩
    · rwa [lookup_insert_of_ne _ hid]
    · unfold FinalizerState.votes at hv ⊢
      rwa [lookup_insert_of_ne _ hid]

theorem insert_ne_empty (votes : VoteMap)
    (voter : Bytes) (sig : TransactionSignature) : votes.insert voter sig ≠ ∅ := by
  intro h
  have hmem : voter ∈ votes.insert voter sig := mem_insert.mpr (.inl rfl)
  rw [h] at hmem
  exact notMem_empty hmem

theorem ne_empty_of_mem {votes : VoteMap}
    {voter : Bytes} (h : voter ∈ votes) : votes ≠ ∅ := by
  rintro rfl
  exact notMem_empty h

theorem startCall_frame (d : FinalizerDelivery) (s : FinalizerState) :
    (startCall C cfg d s).1.pending = s.pending ∧
      (startCall C cfg d s).1.signatures = s.signatures := by
  unfold startCall
  split
  · unfold startPreload
    split
    · exact ⟨rfl, rfl⟩
    · split <;> exact ⟨rfl, rfl⟩
  · exact ⟨rfl, rfl⟩

theorem advanceCall_keepsVotes
    (h : call ≠ .removeSignatures txId) (world : FinalizerWorld) (s : FinalizerState) :
    KeepsVotes txId s (advanceCall C cfg world call s).1 := by
  cases call with
  | ensureRegistered vote => exact .insert id
  | addSignature vote =>
    simp only [advanceCall]
    split
    · exact .of_signatures rfl
    · split
      · exact .of_signatures rfl
      · exact .insert fun _ => insert_ne_empty _ _ _
  | removeSignatures id =>
    have hid : txId ≠ id := fun hid => h (congrArg _ hid.symm)
    refine ⟨fun hs => ?_, fun hv => ?_⟩
    · simp only [advanceCall]
      rwa [lookup_erase_ne hid]
    · unfold FinalizerState.votes at hv ⊢
      simp only [advanceCall]
      rwa [lookup_erase_ne hid]
  | finalizing vote tx fk =>
    refine .of_signatures ?_
    simp only [advanceCall, signAndMark, signFinalizerBlock, Handler.HandlerM.exec_bind]
    cases world.signData (finalizerDigest C cfg.hashProvider
        (buildSignedTransactionOptimistic cfg vote.sig tx vote.voter)) <;> rfl
  | sendCommit _ _ _ | sendFinalized _ _ _ | sendClear _ _ _ =>
    refine .of_signatures ?_
    simp only [advanceCall, sendOut]
    split <;> rfl
  | _ => exact .of_signatures rfl

variable {r : FinalizerState × Option FinalizerCall}

theorem VoteHeld.moved (h : VoteHeld txId m) (hk : KeepsVotes txId m.shared r.1)
    (hc : ∀ vote, vote.txId = txId → (m.calls i = some (.ensureRegistered vote) ∨
        m.calls i = some (.addSignature vote) ∧ (m.shared.signatures.lookup txId).isSome) →
      VoteHeld txId (m.moved i r)) : VoteHeld txId (m.moved i r) := by
  rcases h with hv | ⟨j, vote, hid, hj⟩
  · exact .inl (hk.votes hv)
  · by_cases hji : j = i
    · subst hji
      exact hc vote hid hj
    · refine .inr ⟨j, vote, hid, ?_⟩
      rw [moved_calls_of_ne hji]
      exact hj.imp_right fun hadd => ⟨hadd.1, hk.collected hadd.2⟩

theorem VoteHeld.turn (h : VoteHeld txId m)
    (hk : ∀ i, m.calls i ≠ some (.removeSignatures txId)) (turn : FinalizerTurn) :
    VoteHeld txId (finalizerTurn C cfg m turn) := by
  refine turn_rule h (fun i d _ hi => ?_) fun i world call _ hcl => ?_
  · refine h.moved (.of_signatures (startCall_frame d m.shared).2) fun vote _ hv => ?_
    rw [hi] at hv
    rcases hv with hv | ⟨hv, -⟩ <;> cases hv
  · have hne : call ≠ .removeSignatures txId := by
      rintro rfl
      exact hk i hcl
    refine h.moved (advanceCall_keepsVotes hne world m.shared) fun vote hid hv => ?_
    rw [hcl] at hv
    rcases hv with hv | ⟨hv, hc⟩
    · -- the collector is there when the vote is added
      cases hv
      refine .inr ⟨i, vote, hid, .inr ⟨moved_calls _ _, ?_⟩⟩
      simp only [moved_shared, advanceCall, hid, lookup_insert]
      rfl
    · cases hv
      subst hid
      left
      obtain ⟨votes, hvt⟩ := isSome_iff_exists.mp hc
      simp only [moved_shared, advanceCall, hvt]
      split
      · rw [votes_of_lookup hvt]
        exact ne_empty_of_mem ‹_›
      · rw [votes_insert]
        exact insert_ne_empty _ _ _

/-! ## Who will try -/

/-- A call is about to load the entry, or there is no vote, or the only one has yet to be
counted. -/
def AttemptDue (txId : String) (m : BusyFinalizer) : Prop :=
  (∃ i vote, m.calls i = some (.load vote) ∧ vote.txId = txId) ∨ m.shared.votes txId = ∅ ∨
    (m.shared.votes txId).keys.card = 1 ∧
      ∃ i vote, m.calls i = some (.signatureCount vote) ∧ vote.txId = txId

/-- Whether the entry is there, told by where the preload is. -/
def FinalizerCall.EntryFits (tx : Transaction) (s : FinalizerState) (call : FinalizerCall) : Prop :=
  (call = .contains tx ∨ call = .register tx) ∧ s.pending.lookup tx.id = none ∨
    call ≠ .register tx ∧ (s.pending.lookup tx.id).isSome

/-- What a step can do before anything was tried. -/
inductive Progress (tx : Transaction) (s : FinalizerState) :
    FinalizerCall → FinalizerState → Option FinalizerCall → Prop
  | preloading {call next : FinalizerCall} {s' : FinalizerState}
      (before : call.preloading tx) (after : next.preloading tx)
      (entry : next.EntryFits tx s') :
      Progress tx s call s' (some next)
  | noneFound (empty : s.votes tx.id = ∅) : Progress tx s (.firstSignature tx.id) s none
  | found {vote : HeldVote} (same : vote.txId = tx.id) :
      Progress tx s (.firstSignature tx.id) s (some (.load vote))
  | ensured {vote : HeldVote} (same : vote.txId = tx.id) : Progress tx s (.ensureRegistered vote)
        { s with signatures := s.signatures.insert tx.id (s.votes tx.id) }
        (some (.addSignature vote))
  | added {vote : HeldVote} (same : vote.txId = tx.id) (fresh : vote.voter ∉ s.votes tx.id) :
      Progress tx s (.addSignature vote)
        { s with signatures :=
            s.signatures.insert tx.id ((s.votes tx.id).insert vote.voter vote.sig) }
        (some (.signatureCount vote))
  | repeated {vote : HeldVote} : Progress tx s (.addSignature vote) s none
  | first {vote : HeldVote} (same : vote.txId = tx.id) :
      Progress tx s (.signatureCount vote) s (some (.load vote))
  | later {vote : HeldVote} (more : (s.votes tx.id).keys.card ≠ 1) :
      Progress tx s (.signatureCount vote) s none
  | notLoaded {vote : HeldVote} (missing : s.pending.lookup tx.id = none) :
      Progress tx s (.load vote) s none

theorem advanceCall_progress
    (hc : m.calls i = some call) (ho : call.preloading tx ∨ call.voting tx.id)
    (he : call.preloading tx → call.EntryFits tx m.shared)
    (ha : ¬ Attempts tx.id m (.advance i world)) :
    Progress tx m.shared call (advanceCall C cfg world call m.shared).1
      (advanceCall C cfg world call m.shared).2 := by
  rcases ho with hp | hv
  · cases call with
    | contains held =>
      obtain rfl : held = tx := hp
      simp only [advanceCall]
      cases hl : m.shared.pending.lookup held.id with
      | none => exact .preloading rfl rfl (.inl ⟨.inr rfl, hl⟩)
      | some entry =>
        refine .preloading rfl rfl (.inr ⟨by simp, ?_⟩)
        rw [hl]
        rfl
    | refresh held =>
      obtain rfl : held = tx := hp
      have hs := (he rfl).resolve_left (by simp)
      exact .preloading rfl rfl (.inr ⟨by simp, isSome_refreshPreload hs.2⟩)
    | register held =>
      obtain rfl : held = tx := hp
      have hn := (he rfl).resolve_right (by simp)
      simp only [advanceCall, insertPending, hn.2, isNone_none, if_true]
      refine .preloading rfl rfl (.inr ⟨by simp, ?_⟩)
      simp only [lookup_insert]
      rfl
    | preload held =>
      obtain rfl : held = tx := hp
      have hs := (he rfl).resolve_left (by simp)
      exact .preloading rfl rfl (.inr ⟨by simp, isSome_setState _ hs.2⟩)
    | firstSignature txId =>
      obtain rfl : txId = tx.id := hp
      simp only [advanceCall]
      cases hf : firstSignature m.shared tx.id with
      | none => exact .noneFound (firstSignature_eq_none hf)
      | some vote => exact .found rfl
    | _ => exact hp.elim
  · cases call with
    | ensureRegistered vote =>
      have hid : vote.txId = tx.id := hv
      simp only [advanceCall, hid]
      exact .ensured hid
    | addSignature vote =>
      obtain ⟨txId, voter, sig⟩ := vote
      obtain rfl : txId = tx.id := hv
      simp only [advanceCall]
      split
      · exact .repeated
      · next votes hvt =>
        obtain rfl := votes_of_lookup hvt
        split
        · exact .repeated
        · exact .added rfl ‹_›
    | signatureCount vote =>
      have hid : vote.txId = tx.id := hv
      simp only [advanceCall, hid]
      split
      · exact .first hid
      · exact .later ‹_›
    | load vote =>
      obtain ⟨txId, voter, sig⟩ := vote
      obtain rfl : txId = tx.id := hv
      simp only [Attempts, hc, true_and, Bool.not_eq_true, isSome_eq_false_iff,
        isNone_iff_eq_none] at ha
      simp only [advanceCall, loadTransaction, ha]
      exact .notLoaded ha
    | _ => exact hv.elim

/-- Until the preload starts, there are votes only, and no entry. -/
structure Unpreloaded (tx : Transaction) (m : BusyFinalizer) : Prop where
  calls : ∀ {i call}, m.calls i = some call → call.voting tx.id
  entry : m.shared.pending.lookup tx.id = none

/-- What holds from the start of the preload until something is tried. -/
structure Awaiting (tx : Transaction) (m : BusyFinalizer) : Prop where
  calls : OnlyFor tx m
  one : ∀ {i j call call'}, m.calls i = some call → m.calls j = some call' →
    call.preloading tx → call'.preloading tx → i = j
  entry : ∀ {i call}, m.calls i = some call → call.preloading tx → call.EntryFits tx m.shared
  underWay : (m.shared.pending.lookup tx.id).isSome ∨
    ∃ i call, m.calls i = some call ∧ call.preloading tx
  due : Looked tx m → AttemptDue tx.id m

theorem StartsVotes.voting {d : FinalizerDelivery} {next : FinalizerCall}
    (h : StartsVotes C cfg tx.id m (.start i d)) (hi : m.calls i = none)
    (hn : (startCall C cfg d m.shared).2 = some next) :
    next.voting tx.id ∧ ∃ vote, next = .ensureRegistered vote := by
  have ho := h hi next hn
  cases next with
  | ensureRegistered vote => exact ⟨ho, vote, rfl⟩
  | _ => exact ho.elim

theorem moved_eq_some {j : Nat} (h : (m.moved i r).calls j = some call) :
    (j = i ∧ r.2 = some call) ∨ (j ≠ i ∧ m.calls j = some call) := by
  by_cases hj : j = i
  · subst hj
    rw [moved_calls] at h
    exact .inl ⟨rfl, h⟩
  · rw [moved_calls_of_ne hj] at h
    exact .inr ⟨hj, h⟩

namespace Unpreloaded

theorem moved {i : Nat} (hinv : Unpreloaded tx m) (hn : ∀ next, r.2 = some next → next.voting tx.id)
    (hp : r.1.pending = m.shared.pending) : Unpreloaded tx (m.moved i r) := by
  constructor
  case calls =>
    intro j call hj
    rcases moved_eq_some hj with ⟨-, hnew⟩ | ⟨-, hold⟩
    · exact hn call hnew
    · exact hinv.calls hold
  case entry =>
    rw [moved_shared, hp]
    exact hinv.entry

theorem turn {turn : FinalizerTurn} (hinv : Unpreloaded tx m)
    (hs : StartsVotes C cfg tx.id m turn) (ha : ¬ Attempts tx.id m turn) :
    Unpreloaded tx (finalizerTurn C cfg m turn) := by
  refine turn_rule hinv (fun i d ht hi => ?_) fun i world call ht hc => ?_
  · subst ht
    exact hinv.moved (fun next hn => (hs.voting hi hn).1) (startCall_frame d m.shared).1
  · subst ht
    have hv := hinv.calls hc
    have hp : Progress tx m.shared call (advanceCall C cfg world call m.shared).1
        (advanceCall C cfg world call m.shared).2 :=
      advanceCall_progress hc (.inr hv) (fun h => absurd h hv.not_preloading) ha
    generalize advanceCall C cfg world call m.shared = r at hp ⊢
    obtain ⟨s', next⟩ := r
    cases hp with
    | preloading b _ _ => exact absurd b hv.not_preloading
    | noneFound _ => exact hv.elim
    | found _ => exact hv.elim
    | ensured same | added same _ => exact hinv.moved (by rintro _ ⟨⟩; exact same) rfl
    | repeated => exact hinv.moved (by rintro _ ⟨⟩) rfl
    | first same => exact hinv.moved (by rintro _ ⟨⟩; exact same) rfl
    | later _ | notLoaded _ => exact hinv.moved (by rintro _ ⟨⟩) rfl

theorem start {i : Nat} {d : FinalizerDelivery} (hinv : Unpreloaded tx m)
    (ho : Opens C cfg m i d (.contains tx)) :
    Awaiting tx (finalizerTurn C cfg m (.start i d)) := by
  have heq : finalizerTurn C cfg m (.start i d) = m.moved i (startCall C cfg d m.shared) := by
    unfold finalizerTurn Interleaving.turn
    simp only [ho.1]
  have hcl : ∀ {j call}, (m.moved i (startCall C cfg d m.shared)).calls j = some call →
      j = i ∧ call = .contains tx ∨ call.voting tx.id := by
    intro j call hj
    rcases moved_eq_some hj with ⟨hji, hnew⟩ | ⟨-, hold⟩
    · rw [ho.2] at hnew
      exact .inl ⟨hji, (some.inj hnew).symm⟩
    · exact .inr (hinv.calls hold)
  have he : (m.moved i (startCall C cfg d m.shared)).shared.pending.lookup tx.id = none := by
    rw [moved_shared, (startCall_frame d m.shared).1]
    exact hinv.entry
  rw [heq]
  constructor
  case calls =>
    intro j call hj
    rcases hcl hj with ⟨-, rfl⟩ | hv
    · exact .inl rfl
    · exact .inr hv
  case one =>
    intro j k call call' hj hk hc hc'
    rcases hcl hj with ⟨rfl, -⟩ | hv
    · rcases hcl hk with ⟨rfl, -⟩ | hv
      · rfl
      · exact absurd hc' hv.not_preloading
    · exact absurd hc hv.not_preloading
  case entry =>
    intro j call hj hc
    rcases hcl hj with ⟨-, rfl⟩ | hv
    · exact .inl ⟨.inl rfl, he⟩
    · exact absurd hc hv.not_preloading
  case underWay =>
    right
    refine ⟨i, .contains tx, ?_, rfl⟩
    rw [moved_calls, ho.2]
  case due =>
    intro hl
    rw [Looked, he] at hl
    cases hl.1

end Unpreloaded

/-- A call that is neither about to load nor about to count moves, and the votes stay. -/
theorem AttemptDue.moved (h : AttemptDue txId m)
    (hv : r.1.votes txId = m.shared.votes txId) (hl : ∀ vote, m.calls i ≠ some (.load vote))
    (hc : ∀ vote, m.calls i ≠ some (.signatureCount vote)) : AttemptDue txId (m.moved i r) := by
  rcases h with ⟨j, vote, hj, hid⟩ | he | ⟨hone, j, vote, hj, hid⟩
  · have hji : j ≠ i := by
      rintro rfl
      exact hl vote hj
    exact .inl ⟨j, vote, (moved_calls_of_ne hji _).trans hj, hid⟩
  · exact .inr (.inl (hv.trans he))
  · have hji : j ≠ i := by
      rintro rfl
      exact hc vote hj
    refine .inr (.inr ⟨?_, j, vote, (moved_calls_of_ne hji _).trans hj, hid⟩)
    rwa [moved_shared, hv]

namespace Awaiting

variable {i : Nat} {r : FinalizerState × Option FinalizerCall}

theorem preloading_moved {call next : FinalizerCall} (hinv : Awaiting tx m)
    (hc : m.calls i = some call) (hb : call.preloading tx) (hn : r.2 = some next)
    (ha : next.preloading tx) (he : next.EntryFits tx r.1) : Awaiting tx (m.moved i r) := by
  have hal : ∀ {j call}, (m.moved i r).calls j = some call → call.preloading tx →
      j = i ∧ call = next := by
    intro j call' hj hp
    rcases moved_eq_some hj with ⟨hji, hnew⟩ | ⟨hji, hold⟩
    · rw [hn] at hnew
      exact ⟨hji, (some.inj hnew).symm⟩
    · exact absurd (hinv.one hold hc hp hb) hji
  constructor
  case calls =>
    intro j call' hj
    rcases moved_eq_some hj with ⟨-, hnew⟩ | ⟨-, hold⟩
    · rw [hn] at hnew
      cases hnew
      exact .inl ha
    · exact hinv.calls j call' hold
  case one =>
    intro j k call' call'' hj hk hc' hc''
    rw [(hal hj hc').1, (hal hk hc'').1]
  case entry =>
    intro j call' hj hc'
    rw [(hal hj hc').2]
    exact he
  case underWay => exact .inr ⟨i, next, (moved_calls _ _).trans hn, ha⟩
  case due =>
    intro hl
    exact absurd ha (hl.2 i next ((moved_calls _ _).trans hn))

theorem voting_moved (hinv : Awaiting tx m)
    (he : ∀ call, m.calls i = some call → call.preloading tx →
      (m.shared.pending.lookup tx.id).isSome) (hn : ∀ next, r.2 = some next → next.voting tx.id)
    (hp : r.1.pending = m.shared.pending)
    (hdue : Looked tx (m.moved i r) → AttemptDue tx.id (m.moved i r)) :
    Awaiting tx (m.moved i r) := by
  have hold : ∀ {j call}, (m.moved i r).calls j = some call → call.preloading tx →
      m.calls j = some call := by
    intro j call hj hpr
    rcases moved_eq_some hj with ⟨-, hnew⟩ | ⟨-, hold⟩
    · exact absurd hpr (hn call hnew).not_preloading
    · exact hold
  constructor
  case calls =>
    intro j call hj
    rcases moved_eq_some hj with ⟨-, hnew⟩ | ⟨-, hold⟩
    · exact .inr (hn call hnew)
    · exact hinv.calls j call hold
  case one =>
    intro j k call call' hj hk hc hc'
    exact hinv.one (hold hj hc) (hold hk hc') hc hc'
  case entry =>
    intro j call hj hc
    unfold FinalizerCall.EntryFits
    rw [moved_shared, hp]
    exact hinv.entry (hold hj hc) hc
  case underWay =>
    rw [moved_shared, hp]
    rcases hinv.underWay with hs | ⟨j, call, hj, hc⟩
    · exact .inl hs
    · by_cases hji : j = i
      · subst hji
        exact .inl (he call hj hc)
      · exact .inr ⟨j, call, (moved_calls_of_ne hji _).trans hj, hc⟩
  case due => exact hdue

/-- Whether the preload has looked does not depend on a vote's step. -/
theorem looked_of_moved (hb : ∀ call, m.calls i = some call → ¬ call.preloading tx)
    (hp : r.1.pending = m.shared.pending) (h : Looked tx (m.moved i r)) : Looked tx m := by
  refine ⟨?_, fun j call hj => ?_⟩
  · rw [← hp]
    exact h.1
  · by_cases hji : j = i
    · exact hb call (hji ▸ hj)
    · exact h.2 j call ((moved_calls_of_ne hji _).trans hj)

theorem vote_moved (hinv : Awaiting tx m) (hb : ∀ call, m.calls i = some call → call.voting tx.id)
    (hn : ∀ next, r.2 = some next → next.voting tx.id)
    (hp : r.1.pending = m.shared.pending)
    (hdue : Looked tx m → AttemptDue tx.id m → AttemptDue tx.id (m.moved i r)) :
    Awaiting tx (m.moved i r) := by
  refine hinv.voting_moved (fun call hc hpr => ?_) hn hp fun hl => ?_
  · exact absurd hpr (hb call hc).not_preloading
  · have hl' : Looked tx m :=
      looked_of_moved (fun call hc => (hb call hc).not_preloading) hp hl
    exact hdue hl' (hinv.due hl')

/-- A vote is added when no other has yet to be counted: it is the first, or a call is
about to load the entry. -/
theorem due_of_added {vote : HeldVote} (hcl : m.calls i = some (.addSignature vote))
    (hid : vote.txId = tx.id)
    (hc : ∀ j other, m.calls j = some (.signatureCount other) → other.txId ≠ tx.id)
    (hdue : AttemptDue tx.id m)
    (hv : r.1.votes tx.id = (m.shared.votes tx.id).insert vote.voter vote.sig)
    (hn : r.2 = some (.signatureCount vote)) : AttemptDue tx.id (m.moved i r) := by
  rcases hdue with ⟨j, other, hj, ho⟩ | he | ⟨-, j, other, hj, ho⟩
  · have hji : j ≠ i := by
      rintro rfl
      rw [hcl] at hj
      cases hj
    exact .inl ⟨j, other, (moved_calls_of_ne hji _).trans hj, ho⟩
  · refine .inr (.inr ⟨?_, i, vote, (moved_calls _ _).trans hn, hid⟩)
    rw [moved_shared, hv, he]
    rfl
  · exact absurd ho (hc j other hj)

theorem turn {turn : FinalizerTurn} (hinv : Awaiting tx m)
    (hst : StartsVotes C cfg tx.id m turn) (hcn : CountedFirst tx m turn)
    (ha : ¬ Attempts tx.id m turn) : Awaiting tx (finalizerTurn C cfg m turn) := by
  refine turn_rule hinv (fun i d ht hi => ?_) fun i world call ht hc => ?_
  · subst ht
    obtain ⟨hpn, hsg⟩ : (startCall C cfg d m.shared).1.pending = _ ∧ _ :=
      startCall_frame d m.shared
    refine hinv.vote_moved (fun call hc => ?_)
      (fun next hn => (hst.voting hi hn).1) hpn fun _ hdue => ?_
    · rw [hi] at hc
      cases hc
    · refine hdue.moved ?_ (fun vote h => ?_) (fun vote h => ?_)
      · unfold FinalizerState.votes
        rw [hsg]
      · rw [hi] at h
        cases h
      · rw [hi] at h
        cases h
  · subst ht
    have hp : Progress tx m.shared call (advanceCall C cfg world call m.shared).1
        (advanceCall C cfg world call m.shared).2 :=
      advanceCall_progress hc (hinv.calls i call hc) (hinv.entry hc) ha
    have hs : ∀ call', m.calls i = some call' → call' = call := fun call' hc' =>
      mem_unique hc' hc
    generalize advanceCall C cfg world call m.shared = r at hp ⊢
    obtain ⟨s', next⟩ := r
    cases hp with
    | preloading b after entry =>
      exact hinv.preloading_moved hc b rfl after entry
    | noneFound empty =>
      have he := (hinv.entry hc rfl).resolve_left (by simp)
      exact hinv.voting_moved (fun _ _ _ => he.2) (by rintro _ ⟨⟩) rfl fun _ => .inr (.inl empty)
    | found same =>
      have he := (hinv.entry hc rfl).resolve_left (by simp)
      exact hinv.voting_moved (fun _ _ _ => he.2) (by rintro _ ⟨⟩; exact same) rfl
        fun _ => .inl ⟨i, _, moved_calls _ _, same⟩
    | ensured same =>
      refine hinv.vote_moved (fun call' h => hs call' h ▸ same)
        (by rintro _ ⟨⟩; exact same) rfl fun _ hdue => ?_
      exact hdue.moved (votes_insert _ _) (fun _ h => by cases hs _ h) (fun _ h => by cases hs _ h)
    | added same fresh =>
      refine hinv.vote_moved (fun call' h => hs call' h ▸ same)
        (by rintro _ ⟨⟩; exact same) rfl fun hl hdue => ?_
      exact due_of_added hc same (hcn _ hc same hl) hdue (votes_insert _ _) rfl
    | repeated =>
      have hv := (hinv.calls i _ hc).resolve_left id
      refine hinv.vote_moved (fun call' h => hs call' h ▸ hv) (by rintro _ ⟨⟩) rfl fun _ hdue => ?_
      exact hdue.moved rfl (fun _ h => by cases hs _ h) (fun _ h => by cases hs _ h)
    | first same =>
      exact hinv.vote_moved (fun call' h => hs call' h ▸ same) (by rintro _ ⟨⟩; exact same) rfl
        fun _ _ => .inl ⟨i, _, moved_calls _ _, same⟩
    | later more =>
      have hv := (hinv.calls i _ hc).resolve_left id
      refine hinv.vote_moved (fun call' h => hs call' h ▸ hv) (by rintro _ ⟨⟩) rfl fun _ hdue => ?_
      rcases hdue with ⟨j, vote, hj, hid⟩ | hem | ⟨hone, -⟩
      · have hji : j ≠ i := by
          rintro rfl
          cases hs _ hj
        exact .inl ⟨j, vote, (moved_calls_of_ne hji _).trans hj, hid⟩
      · exact .inr (.inl hem)
      · exact absurd hone more
    | notLoaded ms =>
      have hv := (hinv.calls i _ hc).resolve_left id
      refine hinv.vote_moved (fun call' h => hs call' h ▸ hv) (by rintro _ ⟨⟩) rfl fun hl _ => ?_
      rw [Looked, ms] at hl
      cases hl.1

end Awaiting

/-! ## Whole runs -/

variable {turns : List FinalizerTurn}

theorem not_attempted_iff : ¬ Attempted C cfg txId m turns ↔
      Run.Meets (finalizerTurn C cfg) (fun m turn => ¬ Attempts txId m turn) m turns := by
  rw [meets_iff_forall]
  constructor
  · intro h pre turn post ht ha
    exact h ⟨pre, turn, post, ht, ha⟩
  · rintro h ⟨pre, turn, post, ht, ha⟩
    exact h pre turn post ht ha

/-- The Finalizer is not about to drop the votes it collected. -/
def KeepsCollected (txId : String) (m : BusyFinalizer) : Prop :=
  ∀ i, m.calls i ≠ some (.removeSignatures txId)

theorem Unpreloaded.keepsCollected (h : Unpreloaded tx m) : KeepsCollected tx.id m :=
  fun _ hc => (h.calls hc).elim

theorem Awaiting.keepsCollected (h : Awaiting tx m) : KeepsCollected tx.id m :=
  fun i hc => (h.calls i _ hc).elim id id

/-- A run without an attempt ends with the preload looked after and the vote held. -/
theorem VotedPreload.awaiting (hrun : VotedPreload C cfg tx m turns)
    (hc : Run.Meets (finalizerTurn C cfg) (CountedFirst tx) m turns)
    (ha : ¬ Attempted C cfg tx.id m turns) :
    Awaiting tx (run (finalizerTurn C cfg) m turns) ∧
      VoteHeld tx.id (run (finalizerTurn C cfg) m turns) := by
  have hn := not_attempted_iff.mp ha
  obtain ⟨b, i, d, after, rfl, ho, hv, hv'⟩ := hrun.preload
  rw [meets_append] at hn hc
  rw [run_append] at hv'
  have hf : Unpreloaded tx m := by
    refine ⟨fun {j call} hcl => ?_, hrun.fresh⟩
    rw [hrun.idle j] at hcl
    cases hcl
  -- up to the start of the preload, and from there on
  have hs : ∀ m turn, Unpreloaded tx m → StartsVotes C cfg tx.id m turn ∧ ¬ Attempts tx.id m turn →
      Unpreloaded tx (finalizerTurn C cfg m turn) :=
    fun m turn hinv hg => hinv.turn hg.1 hg.2
  have hs' : ∀ m turn, Awaiting tx m →
      (StartsVotes C cfg tx.id m turn ∧ CountedFirst tx m turn) ∧ ¬ Attempts tx.id m turn →
      Awaiting tx (finalizerTurn C cfg m turn) :=
    fun m turn hinv hg => hinv.turn hg.1.1 hg.1.2 hg.2
  have hg := hv.and hn.1
  have hg' := (hv'.and hc.2.2).and hn.2.2
  have hb := run_invariant hs hf hg
  have hst := hb.start ho
  refine ⟨?_, ?_⟩
  · rw [run_append]
    show Awaiting tx (run (finalizerTurn C cfg) (finalizerTurn C cfg _ (.start i d)) after)
    exact run_invariant hs' hst hg'
  · have hk : Run.Meets (finalizerTurn C cfg) (fun m _ => KeepsCollected tx.id m) m
        (b ++ .start i d :: after) :=
      meets_append.mpr ⟨Run.Meets.of_invariant hs (fun _ _ hinv _ => hinv.keepsCollected) hf hg,
          hb.keepsCollected,
          Run.Meets.of_invariant hs' (fun _ _ hinv _ => hinv.keepsCollected) hst hg'⟩
    obtain ⟨pre, j, e, post, vote, ht, hvt, hid⟩ := hrun.voted
    rw [ht] at hk ⊢
    rw [run_append]
    show VoteHeld tx.id (run (finalizerTurn C cfg) (finalizerTurn C cfg _ (.start j e)) post)
    have hs : ∀ m turn, VoteHeld tx.id m → KeepsCollected tx.id m →
        VoteHeld tx.id (finalizerTurn C cfg m turn) :=
      fun m turn hh hk => hh.turn hk turn
    refine run_invariant hs ?_ (meets_append.mp hk).2.2
    refine .inr ⟨j, vote, hid, .inl ?_⟩
    show (Interleaving.turn _ _ _ _).calls j = _
    simp only [Interleaving.turn, hvt.1, moved_calls, hvt.2]

/-- Once the preload has looked, each vote is counted before the next one is added:
someone tries. -/
theorem voted_preload_attempted {turns : List FinalizerTurn} (hrun : VotedPreload C cfg tx m turns)
    (hcounted : Run.Meets (finalizerTurn C cfg) (CountedFirst tx) m turns) :
    Attempted C cfg tx.id m turns := by
  by_contra hat
  obtain ⟨ha, hh⟩ := hrun.awaiting hcounted hat
  have he : ∀ i call, (run (finalizerTurn C cfg) m turns).calls i ≠ some call := by
    intro i call hc
    rw [hrun.returned i] at hc
    cases hc
  have hs := ha.underWay.resolve_right fun ⟨i, call, hc, _⟩ =>
    he i call hc
  have hem := ((ha.due ⟨hs, fun i call hc => (he i call hc).elim⟩
    ).resolve_left fun ⟨i, vote, hc, _⟩ => he i _ hc).resolve_right
      fun ⟨_, i, vote, hc, _⟩ => he i _ hc
  rcases hh with hv | ⟨i, vote, -, hc | ⟨hc, -⟩⟩
  · exact hv hem
  · exact he i _ hc
  · exact he i _ hc

namespace Missed

/-- Two Executors, whose votes are the same but for the key. -/
def twoVoters : Codec :=
  { fourSignatures with
    checkSignature := fun sig key message =>
      fourSignatures.checkSignature sig (if key = [8] then [3] else key) message }

def twoExecutors : FinalizerWorld :=
  { sampleWorld with roles := fun key => sampleWorld.roles (if key = [8] then [3] else key) }

def preload (i : Nat) : FinalizerTurn := .start i ⟨twoExecutors, .preload ⟨[], [], [5]⟩⟩

def vote (i : Nat) (voter : Bytes) : FinalizerTurn :=
  .start i ⟨twoExecutors, .sign ⟨voter, [30], [7]⟩⟩

def steps (i n : Nat) : List FinalizerTurn := List.replicate n (.advance i twoExecutors)

def idle : BusyFinalizer := ⟨.new, fun _ => none⟩

/-- The preload comes to its end; then both votes are added, and then both count. -/
def bothAdded : List FinalizerTurn :=
  preload 0 :: steps 0 4 ++ vote 1 [3] :: steps 1 2 ++ vote 2 [8] :: steps 2 2 ++
    steps 1 1 ++ steps 2 1

/-- The same calls one after the other. -/
def inTurn : List FinalizerTurn :=
  preload 0 :: steps 0 4 ++ vote 0 [3] :: steps 0 12 ++ vote 0 [8] :: steps 0 12

theorem returned_of_lt (hn : ∀ t ∈ turns, t.number < 3)
    (he : ∀ i < 3, ((run (finalizerTurn twoVoters sampleFinalizer) idle turns).calls
      i).isNone = true) (i : Nat) :
    (run (finalizerTurn twoVoters sampleFinalizer) idle turns).calls i = none := by
  by_cases hi : i < 3
  · exact isNone_iff_eq_none.mp (he i hi)
  · refine (run_calls_of_notMem fun hmem => ?_).trans rfl
    obtain ⟨t, ht, hnm⟩ := List.mem_map.mp hmem
    exact hi (hnm ▸ hn t ht)

/-- Both votes count two, and the preload has looked: nobody tries. -/
theorem votes_added_together_missed :
    VotedPreload twoVoters sampleFinalizer signedTransfer idle bothAdded ∧
      ¬ Attempted twoVoters sampleFinalizer signedTransfer.id idle bothAdded := by
  refine ⟨⟨fun _ => rfl, rfl, ?_, ?_, ?_⟩, not_attempted_iff.mpr (by decide +kernel)⟩
  · exact ⟨[], 0, _, _, rfl, ⟨rfl, by rfl⟩, trivial, by decide +kernel⟩
  · exact ⟨preload 0 :: steps 0 4, 1, _, _, _, rfl, ⟨rfl, by rfl⟩, rfl⟩
  · exact returned_of_lt (by decide +kernel) (by decide +kernel)

theorem countedFirst_of_one {tx : Transaction} {m : BusyFinalizer}
    (ho : ∀ j, j ≠ 0 → m.calls j = none) {turn : FinalizerTurn}
    (ht : turn.number = 0) : CountedFirst tx m turn := by
  cases turn with
  | start i d => trivial
  | advance i world =>
    obtain rfl : i = 0 := ht
    intro vote hadd _ _ j other hc
    by_cases hj : j = 0
    · rw [hj, hadd] at hc
      cases hc
    · rw [ho j hj] at hc
      cases hc

/-- One call after the other, the first vote tries. -/
theorem votes_in_turn_attempted :
    VotedPreload twoVoters sampleFinalizer signedTransfer idle inTurn ∧
      Attempted twoVoters sampleFinalizer signedTransfer.id idle inTurn := by
  have hrun : VotedPreload twoVoters sampleFinalizer signedTransfer idle inTurn := by
    refine ⟨fun _ => rfl, rfl, ?_, ?_, ?_⟩
    · exact ⟨[], 0, _, _, rfl, ⟨rfl, by rfl⟩, trivial, by decide +kernel⟩
    · exact ⟨preload 0 :: steps 0 4, 0, _, _, _, rfl, ⟨rfl, by rfl⟩, rfl⟩
    · exact returned_of_lt (by decide +kernel) (by decide +kernel)
  have hc : ∀ (m : BusyFinalizer) (turn : FinalizerTurn),
      (∀ j, j ≠ 0 → m.calls j = none) → turn.number = 0 →
      ∀ j, j ≠ 0 → (finalizerTurn twoVoters sampleFinalizer m turn).calls j = none := by
    intro m turn ho ht j hj
    exact (turn_calls_of_ne (by rw [ht]; exact hj)).trans (ho j hj)
  have hone : Run.Meets (finalizerTurn twoVoters sampleFinalizer)
      (fun _ turn => turn.number = 0) idle inTurn := by
    decide +kernel
  exact ⟨hrun, voted_preload_attempted hrun (Run.Meets.of_invariant hc
    (fun _ _ ho ht => countedFirst_of_one ho ht) (fun _ _ => rfl) hone)⟩

end Missed

end Pneumatic
