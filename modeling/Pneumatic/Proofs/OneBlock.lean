import Pneumatic.Finalizer.Calls
import Pneumatic.Proofs.FinalizerAuthority

/-!
# One block for a transaction

A Finalizer's calls for a transaction come to a block through an attempt: the entry is
loaded, the block is made and sent, and the entry is booked as committed. An attempt
that finds the entry booked gives up. Nothing else keeps two attempts apart, so the
Finalizer may send two blocks: when a second attempt loads the entry before the first
has booked it, when an attempt fails after its Commit went out, and when a preload that
saw no entry comes late and replaces the booked one.

Where none of these happens, every transaction has at most one block. The invariant
follows the attempt: until it sends, no block is out; from then on until it books, its
block is the only one; and when no attempt is under way, what is out is booked.
-/

namespace Pneumatic

open Handler HandlerM Interleaving FinalizerState State Finmap List Option FinalizerCall

variable {C : Codec} {cfg : FinalizerConfig} {world : FinalizerWorld}
  {s s' : FinalizerState} {m : BusyFinalizer}

/-! ## Blocks and attempts -/

def Outbound.blockFor (txId : String) : Outbound → Option Block
  | .commit message =>
    if message.transId = asBytes txId then some message.proposedBlock else none
  | _ => none

def FinalizerState.sentBlocks (s : FinalizerState) (txId : String) : List Block :=
  s.outbox.filterMap (Outbound.blockFor txId)

/-- At most one distinct block was sent for each transaction. -/
def OneBlock (s : FinalizerState) : Prop :=
  ∀ txId, ∀ block ∈ s.sentBlocks txId, ∀ block' ∈ s.sentBlocks txId, block = block'

def TransactionState.isCommitted : TransactionState → Bool
  | .committed _ _ => true
  | _ => false

def FinalizerState.isBooked (s : FinalizerState) (txId : String) : Bool :=
  (s.pending.lookup txId).any fun entry => entry.state.isCommitted

/-- The attempt a call is in, from the entry it has loaded to its booking, and the block
once it is sent. -/
def FinalizerCall.attempt : FinalizerCall → Option (String × Option Block)
  | .finalizerKey vote _ => some (vote.txId, none)
  | .finalizing vote _ _ => some (vote.txId, none)
  | .sendCommit txId _ _ => some (txId, none)
  | .sendFinalized txId _ block => some (txId, some block)
  | .sendClear txId _ block => some (txId, some block)
  | .committed txId _ block => some (txId, some block)
  | _ => none

def BusyFinalizer.attempt (m : BusyFinalizer) (i : Nat) : Option (String × Option Block) :=
  (m.calls i).bind FinalizerCall.attempt

/-! ## The condition -/

/-- An attempt loads the entry only while no other one is under way. -/
def LoadsAlone (m : BusyFinalizer) : FinalizerTurn → Prop
  | .start _ _ => True
  | .advance i _ => ∀ vote, m.calls i = some (.load vote) →
      ∀ j block, m.attempt j ≠ some (vote.txId, block)

/-- What follows a Commit that was sent is sent too, and a preload that saw no entry
comes before the entry is booked. -/
def Orderly (m : BusyFinalizer) : FinalizerTurn → Prop
  | .start _ _ => True
  | .advance i world =>
    match m.calls i with
    | some (.sendFinalized _ _ _) => world.gossipReached = true
    | some (.sendClear _ _ _) => world.sentinelsReached = true
    | some (.register tx) => m.shared.isBooked tx.id = false
    | some (.preload tx) => m.shared.isBooked tx.id = false
    | _ => True

instance (m : BusyFinalizer) : ∀ turn, Decidable (Orderly m turn)
  | .start _ _ => isTrue trivial
  | .advance i world => by
    unfold Orderly
    dsimp only
    split <;> infer_instance

/-! ## What a step does -/

/-- No entry is lost, and a booked one stays so, except the one of an attempt that has
sent nothing. -/
structure KeepsBooked (s s' : FinalizerState) (attempt : Option (String × Option Block)) :
    Prop where
  entries : ∀ id, (s.pending.lookup id).isSome → (s'.pending.lookup id).isSome
  booked : ∀ id, s.isBooked id = true → s'.isBooked id = true ∨ attempt = some (id, none)

/-- What a step can do, told by the call it is a step of and the attempt the call is in
afterwards. -/
inductive CallEffect (s : FinalizerState) (call : Option FinalizerCall) :
    FinalizerState → Option (String × Option Block) → Prop
  | steady {s' : FinalizerState} (sent : s'.sentBlocks = s.sentBlocks)
      (kept : KeepsBooked s s' (call.bind FinalizerCall.attempt)) :
      CallEffect s call s' (call.bind FinalizerCall.attempt)
  | abandoned {id : String} (before : call.bind FinalizerCall.attempt = some (id, none)) :
      CallEffect s call s none
  | loaded {vote : HeldVote} (before : call = some (.load vote))
      (entry : (s.pending.lookup vote.txId).isSome)
      (unbooked : s.isBooked vote.txId = false) :
      CallEffect s call s (some (vote.txId, none))
  | sent {s' : FinalizerState} {id : String} {block : Block}
      (before : call.bind FinalizerCall.attempt = some (id, none))
      (pending : s'.pending = s.pending)
      (same : s'.sentBlocks id = s.sentBlocks id ++ [block])
      (others : ∀ other, other ≠ id → s'.sentBlocks other = s.sentBlocks other) :
      CallEffect s call s' (some (id, some block))
  | booked {s' : FinalizerState} {id : String} {block : Block}
      (before : call.bind FinalizerCall.attempt = some (id, some block))
      (sent : s'.sentBlocks = s.sentBlocks) (kept : KeepsBooked s s' none)
      (books : (s.pending.lookup id).isSome → s'.isBooked id = true) :
      CallEffect s call s' none

/-! ### Changes of the registry -/

theorem sentBlocks_append (s : FinalizerState) (message : Outbound) (txId : String) :
    ({ s with outbox := s.outbox ++ [message] } : FinalizerState).sentBlocks txId =
      s.sentBlocks txId ++ (message.blockFor txId).toList := by
  unfold sentBlocks
  rw [filterMap_append]
  cases h : message.blockFor txId with
  | none => simp [h]
  | some block => simp [h]

variable {txId : String}

theorem isBooked_eq_true_iff : s.isBooked txId = true ↔
      ∃ entry, s.pending.lookup txId = some entry ∧ entry.state.isCommitted = true := by
  unfold isBooked
  cases s.pending.lookup txId <;> simp

variable {attempt : Option (String × Option Block)}

theorem KeepsBooked.of_pending (h : s'.pending = s.pending) : KeepsBooked s s' attempt := by
  refine ⟨fun id hid => by rwa [h], fun id hid => .inl ?_⟩
  unfold isBooked at hid ⊢
  rwa [h]

theorem KeepsBooked.insert
    (entry : PendingTransaction) (hp : s'.pending = s.pending.insert txId entry)
    (h : s.isBooked txId = true → entry.state.isCommitted = true ∨ attempt = some (txId, none)) :
    KeepsBooked s s' attempt := by
  refine ⟨fun id hid => ?_, fun id hb => ?_⟩
  · rw [hp]
    by_cases hs : id = txId
    · rw [hs, lookup_insert]
      rfl
    · rwa [lookup_insert_of_ne _ hs]
  · by_cases hs : id = txId
    · subst hs
      refine (h hb).imp_left fun hc => isBooked_eq_true_iff.mpr ⟨entry, ?_, hc⟩
      rw [hp, lookup_insert]
    · left
      obtain ⟨old, hold, hc⟩ := isBooked_eq_true_iff.mp hb
      refine isBooked_eq_true_iff.mpr ⟨old, ?_, hc⟩
      rwa [hp, lookup_insert_of_ne _ hs]

theorem KeepsBooked.setState
    (state : TransactionState) (hp : s'.pending = s.pending.setState txId state)
    (h : s.isBooked txId = true → state.isCommitted = true ∨ attempt = some (txId, none)) :
    KeepsBooked s s' attempt := by
  unfold PendingRegistry.setState at hp
  split at hp
  · exact .of_pending hp
  · exact .insert _ hp h

theorem KeepsBooked.refreshPreload
    {tx : Transaction} (hp : s'.pending = refreshPreload s.pending tx) :
    KeepsBooked s s' attempt := by
  unfold Pneumatic.refreshPreload registerPreload at hp
  cases he : s.pending.lookup tx.id with
  | none =>
    simp only [he] at hp
    exact .of_pending hp
  | some entry =>
    have hb : s.isBooked tx.id = entry.state.isCommitted := by
      unfold isBooked
      rw [he]
      rfl
    simp only [he] at hp
    cases hs : entry.state with
    | pending | preloaded _ | validated _ _ | executing _ =>
      simp only [hs] at hp
      exact .setState _ hp fun h => by rw [hb, hs] at h; cases h
    | finalizing _ _ | committed _ _ | failed _ _ =>
      simp only [hs] at hp
      exact .of_pending hp

/-! ### Calls -/

theorem CallEffect.of_same {call : Option FinalizerCall} (ho : s'.outbox = s.outbox)
    (hk : KeepsBooked s s' (call.bind FinalizerCall.attempt)) :
    CallEffect s call s' (call.bind FinalizerCall.attempt) := by
  refine .steady ?_ hk
  funext txId
  unfold sentBlocks
  rw [ho]

theorem startCall_effect (d : FinalizerDelivery) : CallEffect s none (startCall C cfg d s).1
      ((startCall C cfg d s).2.bind FinalizerCall.attempt) := by
  have hc : (startCall C cfg d s).2.bind attempt = none ∧
      (startCall C cfg d s).1.outbox = s.outbox ∧
      (startCall C cfg d s).1.pending = s.pending := by
    unfold startCall
    split
    · unfold startPreload
      split
      · exact ⟨rfl, rfl, rfl⟩
      · split <;> exact ⟨rfl, rfl, rfl⟩
    · refine ⟨?_, rfl, rfl⟩
      unfold startSignature
      split
      · rfl
      · split
        · rfl
        · split
          · rfl
          · split <;> rfl
  obtain ⟨ha, ho, hp⟩ := hc
  rw [ha]
  exact .of_same ho (.of_pending hp)

theorem sendOut_effect {call next : FinalizerCall} {message : Outbound}
    (hm : ∀ txId, message.blockFor txId = none) (hn : next.attempt = call.attempt) :
    CallEffect s (some call) (sendOut true message next s).1
      ((sendOut true message next s).2.bind FinalizerCall.attempt) := by
  show CallEffect s (some call) _ next.attempt
  rw [hn]
  refine .steady ?_ (.of_pending rfl)
  funext txId
  show ({ s with outbox := s.outbox ++ [message] } : FinalizerState).sentBlocks txId = _
  rw [sentBlocks_append, hm]
  exact append_nil _

theorem loadTransaction_effect (vote : HeldVote) : CallEffect s (some (.load vote)) s
      ((loadTransaction C cfg world vote s).bind FinalizerCall.attempt) := by
  unfold loadTransaction
  split
  · exact .of_same rfl (.of_pending rfl)
  · next entry he =>
    split
    · exact .of_same rfl (.of_pending rfl)
    · next held hl =>
      split
      · exact .of_same rfl (.of_pending rfl)
      · refine .loaded rfl (by rw [he]; rfl) ?_
        unfold isBooked
        rw [he]
        show entry.state.isCommitted = false
        cases hs : entry.state with
        | committed _ _ => rw [hs] at hl; cases hl
        | _ => rfl

theorem signAndMark_effect (vote : HeldVote) (tx : Transaction) (finalizerKey : Bytes) :
    CallEffect s (some (.finalizing vote tx finalizerKey))
      (signAndMark C cfg world vote tx finalizerKey s).1
      ((signAndMark C cfg world vote tx finalizerKey s).2.bind FinalizerCall.attempt) := by
  unfold signAndMark signFinalizerBlock
  simp only [exec_bind]
  cases world.signData (finalizerDigest C cfg.hashProvider
      (buildSignedTransactionOptimistic cfg vote.sig tx vote.voter)) with
  | none => exact .abandoned rfl
  | some sg => exact .of_same rfl (.setState _ rfl fun _ => .inr rfl)

theorem sendCommit_effect (txId : String) (tx : Transaction) (signed : SignedTransaction) :
    CallEffect s (some (.sendCommit txId tx signed))
      (advanceCall C cfg world (.sendCommit txId tx signed) s).1
      ((advanceCall C cfg world (.sendCommit txId tx signed) s).2.bind FinalizerCall.attempt) := by
  simp only [advanceCall, sendOut]
  split
  · refine .sent rfl rfl ?_ fun other ho => ?_
    · rw [sentBlocks_append]
      simp [Outbound.blockFor]
    · rw [sentBlocks_append]
      have hne : asBytes txId ≠ asBytes other := fun h => ho (asBytes_injective h).symm
      simp [Outbound.blockFor, hne]
  · exact .abandoned rfl

theorem advanceCall_effect {i : Nat} {call : FinalizerCall} (hc : m.calls i = some call)
    (h : Orderly m (.advance i world)) :
    CallEffect m.shared (some call) (advanceCall C cfg world call m.shared).1
      ((advanceCall C cfg world call m.shared).2.bind FinalizerCall.attempt) := by
  unfold Orderly at h
  simp only [hc] at h
  cases call with
  | contains tx =>
    have hn : (advanceCall C cfg world (.contains tx) m.shared).2.bind
        FinalizerCall.attempt = none := by
      simp only [advanceCall]
      split <;> rfl
    rw [hn]
    exact .of_same rfl (.of_pending rfl)
  | refresh tx => exact .of_same rfl (.refreshPreload rfl)
  | register tx =>
    have hn : (advanceCall C cfg world (.register tx) m.shared).2.bind
        FinalizerCall.attempt = none := by
      simp only [advanceCall]
      split <;> rfl
    rw [hn]
    refine .of_same rfl (.insert _ rfl fun hb => ?_)
    rw [h] at hb
    cases hb
  | preload tx =>
    refine .of_same rfl (.setState _ rfl fun hb => ?_)
    rw [h] at hb
    cases hb
  | firstSignature txId =>
    have hn : (advanceCall C cfg world (.firstSignature txId) m.shared).2.bind
        FinalizerCall.attempt = none := by
      simp only [advanceCall]
      cases firstSignature m.shared txId <;> rfl
    rw [hn]
    exact .of_same rfl (.of_pending rfl)
  | ensureRegistered vote => exact .of_same rfl (.of_pending rfl)
  | addSignature vote =>
    simp only [advanceCall]
    split
    · exact .of_same rfl (.of_pending rfl)
    · split <;> exact .of_same rfl (.of_pending rfl)
  | signatureCount vote =>
    have hn : (advanceCall C cfg world (.signatureCount vote) m.shared).2.bind
        FinalizerCall.attempt = none := by
      simp only [advanceCall]
      split <;> rfl
    rw [hn]
    exact .of_same rfl (.of_pending rfl)
  | load vote => exact loadTransaction_effect vote
  | finalizerKey vote tx => exact .of_same rfl (.of_pending rfl)
  | finalizing vote tx finalizerKey => exact signAndMark_effect vote tx finalizerKey
  | sendCommit txId tx sg => exact sendCommit_effect txId tx sg
  | sendFinalized txId tx block | sendClear txId tx block =>
    simp only [advanceCall, h]
    exact sendOut_effect (fun _ => rfl) rfl
  | committed txId tx block =>
    refine .booked rfl rfl (.setState _ rfl fun _ => .inl rfl) fun he => ?_
    obtain ⟨entry, he⟩ := isSome_iff_exists.mp he
    refine isBooked_eq_true_iff.mpr
      ⟨{ entry with state := .committed tx block.currentHash }, ?_, rfl⟩
    simp only [advanceCall, PendingRegistry.setState, he, lookup_insert]
  | removeTask txId | removeSignatures txId => exact .of_same rfl (.of_pending rfl)

/-! ## The invariant -/

/-- A transaction is in one attempt at most, and no block but the attempt's was sent. -/
structure OneBlockInv (m : BusyFinalizer) : Prop where
  alone : ∀ {i j txId sent sent'}, m.attempt i = some (txId, sent) →
    m.attempt j = some (txId, sent') → i = j
  held : ∀ {i txId sent}, m.attempt i = some (txId, sent) → (m.shared.pending.lookup txId).isSome
  unsent : ∀ {i txId}, m.attempt i = some (txId, none) → m.shared.sentBlocks txId = []
  sent : ∀ {i txId block}, m.attempt i = some (txId, some block) →
    ∀ other ∈ m.shared.sentBlocks txId, other = block
  booked : ∀ txId, (∀ i sent, m.attempt i ≠ some (txId, sent)) →
    m.shared.sentBlocks txId ≠ [] → m.shared.isBooked txId = true
  one : OneBlock m.shared

namespace OneBlockInv

variable {i : Nat} {r : FinalizerState × Option FinalizerCall}

theorem attempt_moved (m : BusyFinalizer) (i : Nat) (r : FinalizerState × Option FinalizerCall) :
    BusyFinalizer.attempt (m.moved i r) i = r.2.bind FinalizerCall.attempt := by
  unfold BusyFinalizer.attempt
  rw [moved_calls]

theorem attempt_moved_of_ne {j : Nat} (h : j ≠ i) :
    BusyFinalizer.attempt (m.moved i r) j = m.attempt j := by
  unfold BusyFinalizer.attempt
  rw [moved_calls_of_ne h]

theorem attempt_moved_eq_some {j : Nat} {a : String × Option Block}
    (h : BusyFinalizer.attempt (m.moved i r) j = some a) :
    (j = i ∧ r.2.bind FinalizerCall.attempt = some a) ∨ (j ≠ i ∧ m.attempt j = some a) := by
  by_cases hj : j = i
  · subst hj
    rw [attempt_moved] at h
    exact .inl ⟨rfl, h⟩
  · rw [attempt_moved_of_ne hj] at h
    exact .inr ⟨hj, h⟩

theorem not_attempt_of_moved
    (hn : ∀ j sent, BusyFinalizer.attempt (m.moved i r) j ≠ some (txId, sent))
    (hi : ∀ sent, m.attempt i ≠ some (txId, sent)) : ∀ j sent, m.attempt j ≠ some (txId, sent) := by
  intro j sent
  by_cases hj : j = i
  · rw [hj]
    exact hi sent
  · rw [← attempt_moved_of_ne hj]
    exact hn j sent

section Effects

variable (hinv : OneBlockInv m)

include hinv

/-- A step after which the call is in the same attempt, or in none as before. -/
theorem steady (hat : r.2.bind FinalizerCall.attempt = m.attempt i)
    (hs : r.1.sentBlocks = m.shared.sentBlocks)
    (hkp : KeepsBooked m.shared r.1 (m.attempt i)) : OneBlockInv (m.moved i r) := by
  have ha : ∀ j, BusyFinalizer.attempt (m.moved i r) j = m.attempt j := by
    intro j
    by_cases hj : j = i
    · rw [hj, attempt_moved, hat]
    · exact attempt_moved_of_ne hj
  constructor
  case alone =>
    intro j k txId sent sent' hj hk
    rw [ha] at hj hk
    exact hinv.alone hj hk
  case held =>
    intro j txId sent hj
    rw [ha] at hj
    exact hkp.entries _ (hinv.held hj)
  case unsent =>
    intro j txId hj
    rw [ha] at hj
    rw [moved_shared, hs]
    exact hinv.unsent hj
  case sent =>
    intro j txId block hj
    rw [ha] at hj
    rw [moved_shared, hs]
    exact hinv.sent hj
  case booked =>
    intro txId hn hne
    simp only [ha] at hn
    rw [moved_shared, hs] at hne
    rcases hkp.booked txId (hinv.booked txId hn hne) with hb | hat
    · exact hb
    · exact absurd hat (hn i _)
  case one =>
    unfold OneBlock
    rw [moved_shared, hs]
    exact hinv.one

/-- An attempt ends. What it leaves is booked, or nothing was sent. -/
theorem ended {sent : Option Block} (hb : m.attempt i = some (txId, sent))
    (ha : r.2.bind FinalizerCall.attempt = none)
    (hs : r.1.sentBlocks = m.shared.sentBlocks) (hkp : KeepsBooked m.shared r.1 none)
    (hbs : m.shared.sentBlocks txId ≠ [] → r.1.isBooked txId = true) :
    OneBlockInv (m.moved i r) := by
  have hb' : ∀ {j a}, BusyFinalizer.attempt (m.moved i r) j = some a → m.attempt j = some a := by
    intro j a hj
    rcases attempt_moved_eq_some hj with ⟨-, hi⟩ | ⟨-, hj⟩
    · rw [ha] at hi
      cases hi
    · exact hj
  constructor
  case alone =>
    intro j k txId sent sent' hj hk
    exact hinv.alone (hb' hj) (hb' hk)
  case held =>
    intro j txId sent hj
    exact hkp.entries _ (hinv.held (hb' hj))
  case unsent =>
    intro j txId hj
    rw [moved_shared, hs]
    exact hinv.unsent (hb' hj)
  case sent =>
    intro j txId block hj
    rw [moved_shared, hs]
    exact hinv.sent (hb' hj)
  case booked =>
    intro other hn hne
    rw [moved_shared, hs] at hne
    by_cases ho : other = txId
    · rw [ho] at hne ⊢
      exact hbs hne
    · have hi : ∀ sent, m.attempt i ≠ some (other, sent) := by
        intro sent hi
        rw [hb] at hi
        exact ho (congrArg Prod.fst (some.inj hi)).symm
      have hbk := hinv.booked other (not_attempt_of_moved hn hi) hne
      exact (hkp.booked other hbk).resolve_right (by simp)
  case one =>
    unfold OneBlock
    rw [moved_shared, hs]
    exact hinv.one

/-- The call is now the only attempt at a transaction, and the blocks of this one are
as the attempt says. -/
theorem placed {now : Option Block}
    (hbf : ∀ other, other ≠ txId → ∀ sent, m.attempt i ≠ some (other, sent))
    (ha : r.2.bind FinalizerCall.attempt = some (txId, now))
    (hal : ∀ j, j ≠ i → ∀ sent, m.attempt j ≠ some (txId, sent))
    (hp : r.1.pending = m.shared.pending) (he : (m.shared.pending.lookup txId).isSome)
    (hb : r.1.sentBlocks txId = now.toList)
    (hot : ∀ other, other ≠ txId → r.1.sentBlocks other = m.shared.sentBlocks other) :
    OneBlockInv (m.moved i r) := by
  have hm : ∀ {j other sent}, BusyFinalizer.attempt (m.moved i r) j = some (other, sent) →
      (j = i ∧ other = txId ∧ sent = now) ∨ (other ≠ txId ∧ m.attempt j = some (other, sent)) := by
    intro j other sent hj
    rcases attempt_moved_eq_some hj with ⟨rfl, hi⟩ | ⟨hne, hj⟩
    · rw [ha] at hi
      cases hi
      exact .inl ⟨rfl, rfl, rfl⟩
    · refine .inr ⟨?_, hj⟩
      rintro rfl
      exact hal j hne sent hj
  constructor
  case alone =>
    intro j k other sent sent' hj hk
    rcases hm hj with ⟨rfl, rfl, -⟩ | ⟨ho, hj⟩
    · rcases hm hk with ⟨rfl, -, -⟩ | ⟨ho, -⟩
      · rfl
      · exact absurd rfl ho
    · rcases hm hk with ⟨-, rfl, -⟩ | ⟨-, hk⟩
      · exact absurd rfl ho
      · exact hinv.alone hj hk
  case held =>
    intro j other sent hj
    rw [moved_shared, hp]
    rcases hm hj with ⟨-, rfl, -⟩ | ⟨-, hj⟩
    · exact he
    · exact hinv.held hj
  case unsent =>
    intro j other hj
    rw [moved_shared]
    rcases hm hj with ⟨-, rfl, hs⟩ | ⟨ho, hj⟩
    · rw [hb, ← hs]
      rfl
    · rw [hot other ho]
      exact hinv.unsent hj
  case sent =>
    intro j other block hj
    rw [moved_shared]
    rcases hm hj with ⟨-, rfl, hs⟩ | ⟨ho, hj⟩
    · rw [hb, ← hs]
      exact fun other hmem => mem_singleton.mp hmem
    · rw [hot other ho]
      exact hinv.sent hj
  case booked =>
    intro other hn hne
    have ho : other ≠ txId := by
      rintro rfl
      exact hn i _ ((attempt_moved m i r).trans ha)
    rw [moved_shared, hot other ho] at hne
    have hbk :=
      hinv.booked other (not_attempt_of_moved hn (hbf other ho)) hne
    unfold isBooked at hbk ⊢
    rwa [moved_shared, hp]
  case one =>
    intro other
    rw [moved_shared]
    by_cases ho : other = txId
    · rw [ho, hb]
      intro block hbl block' hbl'
      exact some.inj ((mem_toList.mp hbl).symm.trans (mem_toList.mp hbl'))
    · rw [hot other ho]
      exact hinv.one other

/-- An attempt begins on an entry that is not booked: nothing was sent yet. -/
theorem loaded (hbf : m.attempt i = none)
    (haf : r.2.bind FinalizerCall.attempt = some (txId, none)) (hs : r.1 = m.shared)
    (he : (m.shared.pending.lookup txId).isSome) (hu : m.shared.isBooked txId = false)
    (ha : ∀ j sent, m.attempt j ≠ some (txId, sent)) : OneBlockInv (m.moved i r) := by
  have hun : m.shared.sentBlocks txId = [] := by
    by_contra hne
    have hb := hinv.booked txId ha hne
    rw [hu] at hb
    cases hb
  refine hinv.placed ?_ haf (fun j _ => ha j) (by rw [hs]) he ?_ ?_
  · intro other _ sent hi
    rw [hbf] at hi
    cases hi
  · rw [hs, hun]
    rfl
  · intro other _
    rw [hs]

/-- The attempt sends its block, the first one. -/
theorem sends {block : Block} (hb : m.attempt i = some (txId, none))
    (ha : r.2.bind FinalizerCall.attempt = some (txId, some block))
    (hp : r.1.pending = m.shared.pending)
    (hs : r.1.sentBlocks txId = m.shared.sentBlocks txId ++ [block])
    (ho : ∀ other, other ≠ txId → r.1.sentBlocks other = m.shared.sentBlocks other) :
    OneBlockInv (m.moved i r) := by
  refine hinv.placed ?_ ha ?_ hp (hinv.held hb) ?_ ho
  · intro other hot sent hi
    rw [hb] at hi
    exact hot (congrArg Prod.fst (some.inj hi)).symm
  · intro j hne sent hj
    exact hne (hinv.alone hj hb)
  · rw [hs, hinv.unsent hb]
    rfl

/-- One step of a call, by what it does. -/
theorem moved (he : CallEffect m.shared (m.calls i) r.1 (r.2.bind FinalizerCall.attempt))
    (hal : ∀ vote, m.calls i = some (.load vote) →
      ∀ j sent, m.attempt j ≠ some (vote.txId, sent)) : OneBlockInv (m.moved i r) := by
  generalize hs : r.1 = shared at he
  generalize ha : r.2.bind attempt = after at he
  cases he with
  | steady sent kept =>
    subst hs
    exact hinv.steady ha sent kept
  | abandoned b =>
    have hk : KeepsBooked m.shared r.1 none := .of_pending (by rw [hs])
    refine hinv.ended b ha (by rw [hs]) hk fun hne => ?_
    exact absurd (hinv.unsent b) hne
  | loaded b entry u =>
    have hb : m.attempt i = none := by
      unfold BusyFinalizer.attempt
      rw [b]
      rfl
    exact hinv.loaded hb ha hs entry u (hal _ b)
  | sent b p same o =>
    subst hs
    exact hinv.sends b ha p same o
  | booked b sent kept books =>
    subst hs
    exact hinv.ended b ha sent kept fun _ => books (hinv.held b)

end Effects

theorem turn (hinv : OneBlockInv m) {turn : FinalizerTurn} (hld : LoadsAlone m turn)
    (ho : Orderly m turn) : OneBlockInv (finalizerTurn C cfg m turn) := by
  refine turn_rule hinv (fun i d _ hi => ?_) fun i world call ht hc => ?_
  · refine hinv.moved ?_ fun vote hl => ?_
    · rw [hi]
      exact startCall_effect d
    · rw [hi] at hl
      cases hl
  · subst ht
    refine hinv.moved ?_ hld
    rw [hc]
    exact advanceCall_effect hc ho

end OneBlockInv

/-- A Finalizer with no call under way that has sent no Commit. -/
theorem oneBlockInv_of_idle (hid : ∀ i, m.calls i = none)
    (hu : ∀ txId, m.shared.sentBlocks txId = []) : OneBlockInv m := by
  have hn : ∀ i, m.attempt i = none := by
    intro i
    unfold BusyFinalizer.attempt
    rw [hid]
    rfl
  constructor
  case alone => intro i j txId sent sent' hi; rw [hn] at hi; cases hi
  case held => intro i txId sent hi; rw [hn] at hi; cases hi
  case unsent => intro i txId hi; rw [hn] at hi; cases hi
  case sent => intro i txId block hi; rw [hn] at hi; cases hi
  case booked => intro txId _ hne; exact absurd (hu txId) hne
  case one =>
    intro txId block hb
    rw [hu] at hb
    cases hb

/-- In every interleaving of preloads and votes in which attempts load their entry one
at a time, what follows a sent Commit is sent, and no preload replaces a booked entry,
at most one block is sent for each transaction. -/
theorem one_block_per_transaction {turns : List FinalizerTurn}
    (hidle : ∀ i, m.calls i = none) (hunsent : ∀ txId, m.shared.sentBlocks txId = [])
    (hturns : Run.Meets (finalizerTurn C cfg)
      (fun m turn => LoadsAlone m turn ∧ Orderly m turn) m turns) :
    OneBlock (Run.run (finalizerTurn C cfg) m turns).shared := by
  have hs : ∀ (m : BusyFinalizer) turn, OneBlockInv m →
      LoadsAlone m turn ∧ Orderly m turn → OneBlockInv (finalizerTurn C cfg m turn) :=
    fun m turn hinv hc => hinv.turn hc.1 hc.2
  exact (Run.run_invariant hs (oneBlockInv_of_idle hidle hunsent) hturns).one

/-! ## Two blocks -/

namespace TwoBlocks

def clock (now : Int) : FinalizerWorld := { sampleWorld with now := now }

/-- The surroundings when a block cannot be gossiped. -/
def unreached : FinalizerWorld := { sampleWorld with gossipReached := false }

def preload (i : Nat) : FinalizerTurn := .start i ⟨sampleWorld, .preload ⟨[], [], [5]⟩⟩

def vote (i : Nat) : FinalizerTurn := .start i ⟨sampleWorld, .sign ⟨[3], [30], [7]⟩⟩

def steps (i n : Nat) (world : FinalizerWorld) : List FinalizerTurn :=
  List.replicate n (.advance i world)

/-- A Finalizer that has seen nothing, after these turns. -/
def after (turns : List FinalizerTurn) : FinalizerState :=
  (Run.run (finalizerTurn fourSignatures sampleFinalizer) ⟨.new, fun _ => none⟩ turns).shared

/-- The block is sent and cannot be gossiped; a second preload tries again. -/
def retried : List FinalizerTurn :=
  preload 0 :: steps 0 4 (clock 0) ++ vote 0 :: steps 0 7 (clock 0) ++ steps 0 1 unreached ++
    preload 0 :: steps 0 7 (clock 1)

/-- A second preload finds the vote and loads the entry before the first attempt has
marked it. -/
def overlapping : List FinalizerTurn :=
  preload 0 :: steps 0 4 (clock 0) ++ vote 0 :: steps 0 4 (clock 0) ++
    preload 1 :: steps 1 4 (clock 0) ++ steps 0 3 (clock 0) ++ steps 1 3 (clock 1)

/-- A preload that saw no entry registers it when it has been booked; another preload
and the same vote follow. -/
def late : List FinalizerTurn :=
  preload 1 :: steps 1 1 (clock 0) ++ preload 0 :: steps 0 4 (clock 0) ++
    vote 0 :: steps 0 12 (clock 0) ++ steps 1 1 (clock 0) ++ preload 0 :: steps 0 3 (clock 1) ++
    vote 0 :: steps 0 7 (clock 1)

theorem not_oneBlock_of_times {s : FinalizerState}
    (h : (s.sentBlocks "t").map Block.timestamp = [0, 1]) : ¬ OneBlock s := by
  intro hone
  have hf : (0 : Int) ∈ (s.sentBlocks "t").map Block.timestamp := by simp [h]
  have hs : (1 : Int) ∈ (s.sentBlocks "t").map Block.timestamp := by simp [h]
  obtain ⟨first, hmem, hz⟩ := mem_map.mp hf
  obtain ⟨sc, hmem', hone'⟩ := mem_map.mp hs
  rw [hone "t" first hmem sc hmem', hone'] at hz
  cases hz

/-- In each of the three ways the Finalizer sends two blocks for one transaction. -/
theorem two_blocks_sent : ¬ OneBlock (after retried) ∧ ¬ OneBlock (after overlapping) ∧
      ¬ OneBlock (after late) :=
  ⟨not_oneBlock_of_times rfl, not_oneBlock_of_times rfl, not_oneBlock_of_times rfl⟩

/-- A preload, a vote and one more preload, one after the other. -/
def inTurn : List FinalizerTurn :=
  preload 0 :: steps 0 4 (clock 0) ++ vote 0 :: steps 0 12 (clock 0) ++
    preload 0 :: steps 0 3 (clock 1)

/-- With one call at a time, attempts load alone. -/
theorem loadsAlone_of_one {m : BusyFinalizer} (ho : ∀ j, j ≠ 0 → m.calls j = none)
    {turn : FinalizerTurn} (ht : turn.number = 0) : LoadsAlone m turn := by
  cases turn with
  | start i d => trivial
  | advance i world =>
    obtain rfl : i = 0 := ht
    intro vote hl j block ha
    unfold BusyFinalizer.attempt at ha
    by_cases hj : j = 0
    · rw [hj, hl] at ha
      cases ha
    · rw [ho j hj] at ha
      cases ha

/-- One block is sent, and it stays the only one. -/
theorem in_turn_one_block :
    ((after inTurn).sentBlocks "t").length = 1 ∧ OneBlock (after inTurn) := by
  have hc : ∀ (m : BusyFinalizer) (turn : FinalizerTurn),
      (∀ j, j ≠ 0 → m.calls j = none) → turn.number = 0 ∧ Orderly m turn →
      ∀ j, j ≠ 0 → (finalizerTurn fourSignatures sampleFinalizer m turn).calls j = none := by
    intro m turn ho ht j hj
    exact (turn_calls_of_ne (by rw [ht.1]; exact hj)).trans (ho j hj)
  have hm : Run.Meets (finalizerTurn fourSignatures sampleFinalizer)
      (fun m turn => turn.number = 0 ∧ Orderly m turn) ⟨.new, fun _ => none⟩ inTurn := by
    decide +kernel
  refine ⟨rfl, one_block_per_transaction (fun _ => rfl) (fun _ => rfl)
    (Run.Meets.of_invariant hc (fun m turn ho ht => ?_) (fun _ _ => rfl) hm)⟩
  exact ⟨loadsAlone_of_one ho ht.1, ht.2⟩

end TwoBlocks

end Pneumatic
