import Pneumatic.Proofs.RoleBuckets
import Pneumatic.Sentinel.Handlers

/-!
# What a message to the Sentinel changes

For each action of the Sentinel the exact condition, in the state before, under
which its handler leaves the shared registry, the buckets and the epoch as they
were. A handler that takes a lock on a transaction has changed the registry
unless it gives the lock back and nothing else has moved, so most of the
conditions say that the transaction is not there or takes no lock.
-/

namespace Pneumatic

open Handler HandlerM PendingTransactionRegistry PendingTransaction Finmap Option

/-- What the roles of a host share, and the epoch. -/
def SentinelState.shared (s : SentinelState) : PendingTransactionRegistry × NodeBuckets × Nat :=
  (s.registry, s.nodes, s.currentEpoch)

variable (C : Codec) (P : ShieldedPrimitives) (N : NodeCodec) (S : SentinelCodec)
  (cfg : SentinelConfig) (world : SentinelWorld)

/-! ## The conditions -/

section

variable (s : SentinelState) (message : Message)

/-- A transaction that fails has no entry or has failed so before; a valid one
is pending already, with the same gas. -/
def ProcessHarmless : Prop :=
  ∀ tx, C.decodeTransaction message.body = some tx → authenticateSubmitter C message tx = .ok () →
    (∀ e, validateTransaction cfg world tx = .error e →
      ∀ entry, s.registry.transactions.lookup tx.id = some entry →
        entry.state = .failed tx (failureReasons e)) ∧
    (validateTransaction cfg world tx = .ok () →
      s.registry.gasTracker.lookup tx.id = some (computeGasUsed cfg tx) ∧
      s.registry.transactions.lookup tx.id = some (.new .pending))

/-- The transaction is unknown or has ended. -/
def ConfirmHarmless : Prop :=
  ∀ txId, S.decodeTxId message.body = some txId →
    ∀ entry, s.registry.transactions.lookup txId = some entry → entry.state.isTerminal = true

/-- The transaction is not there or takes no lock, or its Finalizer rejects it
and nobody else can be found for it. -/
def RejectHarmless : Prop :=
  ∀ txId, S.decodeTxId message.body = some txId →
    ∀ entry, s.registry.transactions.lookup txId = some entry → entry.state.isTerminal = true ∨
      (s.registry.isRequestedFinalizer txId message.publicKey = true ∧
        (reassignedKey C cfg world s txId message.publicKey = none ∨
          (reassignedKey C cfg world s txId message.publicKey = some message.publicKey ∧
            ∃ tx, entry.state = .finalizing tx message.publicKey ∧
              ∃ salt, reassignmentSalt C world tx s.currentEpoch = .ok salt)))

/-- The request is refused, or the node is in all its buckets just so. -/
def RegisterHarmless : Prop :=
  ∀ request, S.decodeRegistryRequest message.body = some request →
    RegisterAdmitted C N cfg.node world.node s.nodes request →
    ∀ t ∈ request.requesterTypes, (s.nodes t).lookup request.requesterKey =
      some (.new world.node request.rhash)

/-- The transaction is unknown. -/
def ClearHarmless : Prop :=
  ∀ txId, S.decodeTxId message.body = some txId → txId ∉ s.registry.transactions

/-- The claimed sender is not in the Finalizers' bucket, or the epoch is not
ahead. -/
def BlockFinalizedHarmless : Prop :=
  ∀ block, C.decodeBlock message.body = some block →
    message.publicKey ∈ s.nodes .finalizer → block.epochNumber ≤ s.currentEpoch

/-- The transfer is not admitted, or it was before. -/
def ShieldedHarmless : Prop :=
  ∀ stx, S.decodeShielded message.body = some stx →
    ∀ token, admitShielded P cfg world stx = .ok token → stx.id ∈ s.registry.shieldedTransactions

/-- The message is harmless under its action. -/
def ActionHarmless : SentinelAction → Prop
  | .process => ProcessHarmless C cfg world s message
  | .confirm => ConfirmHarmless S s message
  | .reject => RejectHarmless C S cfg world s message
  | .register => RegisterHarmless C N S cfg world s message
  | .clear => ClearHarmless S s message
  | .blockFinalized => BlockFinalizedHarmless C s message
  | .shieldedTransfer => ShieldedHarmless P S cfg world s message

end

/-! ## Maps -/

section Maps

variable {α β : Type*} [DecidableEq α] {m : Finmap (fun _ : α => β)} {a : α} {b : β}

theorem erase_eq_self_iff : m.erase a = m ↔ a ∉ m := by
  constructor
  · intro h ha
    rw [← h] at ha
    exact notMem_erase_self ha
  · intro h
    refine ext_lookup fun a' => ?_
    by_cases ha : a' = a
    · rw [ha, lookup_erase, lookup_eq_none.mpr h]
    · rw [lookup_erase_ne ha]

end Maps

theorem PendingRegistry.setState_eq_self_iff {transactions : PendingRegistry}
    {txId : String} {state : TransactionState} : transactions.setState txId state = transactions ↔
      ∀ entry, transactions.lookup txId = some entry → entry.state = state := by
  unfold setState
  cases he : transactions.lookup txId with
  | none => simp
  | some entry =>
    simp only [insert_eq_self_iff, he, some.injEq, forall_eq']
    constructor
    · intro h
      rw [h]
    · intro h
      rw [← h]

/-! ## Locks -/

namespace PendingTransactionRegistry

variable {registry : PendingTransactionRegistry} {txId : String} {entry : PendingTransaction}

def put (registry : PendingTransactionRegistry) (txId : String)
    (entry : PendingTransaction) : PendingTransactionRegistry :=
  { registry with transactions := registry.transactions.insert txId entry }

@[simp]
theorem lookup_put : (registry.put txId entry).transactions.lookup txId = some entry :=
  lookup_insert _

theorem put_of_lookup (h : registry.transactions.lookup txId = some entry) :
    registry.put txId entry = registry := by
  unfold put
  rw [insert_eq_self_iff.mpr h]

end PendingTransactionRegistry

def PendingTransaction.locked (entry : PendingTransaction) : PendingTransaction :=
  { entry with lockCount := entry.lockCount + 1 }

theorem PendingTransaction.acquire_eq (entry : PendingTransaction) :
    entry.acquire = if entry.state.isTerminal then none else some entry.locked := by
  unfold acquire TransactionState.isTerminal locked
  cases entry.state <;> rfl

theorem PendingTransaction.locked_ne (entry : PendingTransaction) : entry.locked ≠ entry := by
  intro h
  have := congrArg lockCount h
  simp [locked] at this

section Locks

variable {registry : PendingTransactionRegistry} {txId : String} {entry : PendingTransaction}

theorem acquireTransaction_ok {Q : Unit → PendingTransactionRegistry → Prop}
    {E : RegistryFault → PendingTransactionRegistry → Prop}
    (he : registry.transactions.lookup txId = some entry)
    (hl : entry.state.isTerminal = false) :
    Ends (acquireTransaction txId) registry Q E ↔ Q () (registry.put txId entry.locked) := by
  simp [acquireTransaction, he, acquire_eq, hl, PendingTransactionRegistry.put]

theorem acquireTransaction_refused (hr : ∀ entry, registry.transactions.lookup txId = some entry →
      entry.state.isTerminal = true) : Ends (acquireTransaction txId) registry (fun _ _ => False)
      (fun _ after => after = registry) := by
  cases he : registry.transactions.lookup txId with
  | none => simp [acquireTransaction, he]
  | some entry =>
    simp [acquireTransaction, he, acquire_eq, hr entry he]

theorem ends_releaseQuietly_put {nodes : NodeBuckets} {epoch : Nat}
    {stakes executors : Finmap (fun _ : Nat => StakeSet)}
    {Q : Unit → SentinelState → Prop} {E : SentinelError → SentinelState → Prop} :
    Ends (releaseQuietly txId) ⟨registry.put txId entry, nodes, epoch, stakes, executors⟩ Q E ↔
      Q () ⟨registry.put txId entry.release.1, nodes, epoch, stakes, executors⟩ := by
  simp [releaseQuietly, onRegistry, releaseTransaction,
    PendingTransactionRegistry.put]

theorem setState_put {state : TransactionState} : (registry.put txId entry).setState txId state =
      registry.put txId { entry with state := state } := by
  unfold setState PendingRegistry.setState
  simp [PendingTransactionRegistry.put]

end Locks

/-! ## The handlers -/

section Actions

variable {C P N S cfg world} {s base : SentinelState} {message : Message}

/-- A handler that ends as it should exactly under a condition. -/
def EndsIff (Q : Unit → SentinelState → Prop) (E : SentinelError → SentinelState → Prop)
    (m : SentinelM Unit) (s : SentinelState) (cond : Prop) : Prop :=
  Ends m s (fun a after => (Q a after ↔ cond)) fun e after => (E e after ↔ cond)

/-- A handler that leaves the shared state as it is in `base` exactly under a
condition. -/
def LeavesIff (base : SentinelState) (m : SentinelM Unit) (s : SentinelState)
    (cond : Prop) : Prop :=
  Keeps m s fun after => (after.shared = base.shared ↔ cond)

variable {registry : PendingTransactionRegistry} {txId txId' : String}
  {entry : PendingTransaction} {state : TransactionState} {key : Bytes} {tx : Transaction}

theorem shared_registry_iff : ({ s with registry := registry } : SentinelState).shared = s.shared ↔
      registry = s.registry := by
  simp [SentinelState.shared]

section EndsIff

variable {Q : Unit → SentinelState → Prop} {E : SentinelError → SentinelState → Prop}
  (hs : ∀ e, E e s)

theorem EndsIff.congr {m : SentinelM Unit} {cond cond' : Prop}
    (h : EndsIff Q E m s cond) (hc : cond ↔ cond') : EndsIff Q E m s cond' :=
  propext hc ▸ h

include hs

/-- A handler that starts by taking a lock: it ends as what follows does where the lock is
not refused. -/
theorem endsIff_acquire {rename : RegistryFault → SentinelError}
    {f : Unit → SentinelM Unit} {cond : PendingTransaction → Prop}
    (h : ∀ entry, s.registry.transactions.lookup txId = some entry →
      entry.state.isTerminal = false →
      EndsIff Q E (f ()) { s with registry := s.registry.put txId entry.locked } (cond entry)) :
    EndsIff Q E (onRegistry rename (acquireTransaction txId) >>= f) s
      (∀ entry, s.registry.transactions.lookup txId = some entry →
        entry.state.isTerminal = true ∨ cond entry) := by
  by_cases hr : ∀ entry, s.registry.transactions.lookup txId = some entry →
      entry.state.isTerminal = true
  · refine ends_bind.mpr (ends_zoom.mpr ?_)
    refine Ends.mono (acquireTransaction_refused hr) (fun _ _ h => h.elim) ?_
    rintro e after rfl
    exact iff_of_true (hs _) fun entry he => .inl (hr entry he)
  · obtain ⟨entry, he, hl⟩ : ∃ entry, s.registry.transactions.lookup txId = some entry ∧
          entry.state.isTerminal = false := by
      simpa using hr
    refine ends_bind.mpr (ends_zoom.mpr ((acquireTransaction_ok he hl).mpr ?_))
    exact EndsIff.congr (h entry he hl) (by simp [he, hl])

end EndsIff

theorem LeavesIff.congr {m : SentinelM Unit} {cond cond' : Prop}
    (h : LeavesIff base m s cond) (hc : cond ↔ cond') : LeavesIff base m s cond' :=
  EndsIff.congr h hc

theorem leavesIff_of_changed {m : SentinelM Unit} {I : SentinelState → Prop} {cond : Prop}
    (hk : Keeps m s I) (hb : ¬ cond) (hI : ∀ after, I after → after.shared ≠ base.shared) :
    LeavesIff base m s cond :=
  hk.mono fun after h => iff_of_false (hI after h) hb

theorem leavesIff_clear :
    LeavesIff s (handleClearRequest S message) s (ClearHarmless S s message) := by
  refine keeps_decode_iff (by rfl) fun txId _ => ?_
  have he : ({ s with registry := { s.registry with
      transactions := s.registry.transactions.erase txId } } : SentinelState).shared =
        s.shared ↔ txId ∉ s.registry.transactions := by
    rw [shared_registry_iff, ← erase_eq_self_iff]
    exact ⟨congrArg transactions, fun h => by rw [h]⟩
  simp only [Keeps, onRegistry, removeTransaction, ends_bind, ends_attempt,
    ends_zoom, ends_getState, ends_update, ends_require, ends_pure]
  exact ⟨fun _ => he, fun _ => he⟩

theorem leavesIff_blockFinalized : LeavesIff s (handleBlockFinalizedForEpoch C message) s
      (BlockFinalizedHarmless C s message) := by
  refine keeps_decode_iff (by rfl) fun block _ => ?_
  simp only [Keeps, ends_bind, ends_getState, ends_require, ends_update]
  constructor
  · intro hf
    simp only [hf, true_imp_iff, advanceEpoch]
    split
    · next hle => exact iff_of_true rfl hle
    · next hgt =>
      refine iff_of_false (fun h => ?_) hgt
      have he : block.epochNumber = s.currentEpoch := congrArg (·.2.2) h
      exact hgt he.le
  · intro ho
    exact iff_of_true trivial fun hf => absurd hf ho

theorem leavesIff_register : LeavesIff s (handleRegisterMessage C N S cfg world message) s
      (RegisterHarmless C N S cfg world s message) := by
  refine keeps_decode_iff (by rfl) fun r _ => ?_
  refine ends_zoom.mpr ?_
  refine (keeps_iff (P := fun nodes : NodeBuckets =>
    (({ s with nodes := nodes } : SentinelState).shared = s.shared ↔ _))).mpr ?_
  have hs : ∀ nodes : NodeBuckets,
      ({ s with nodes := nodes } : SentinelState).shared = s.shared ↔ nodes = s.nodes := by
    simp [SentinelState.shared]
  rw [hs]
  by_cases ha : RegisterAdmitted C N cfg.node world.node s.nodes r
  · have hst := fun t => (handleRegisterRequest_state (t := t)).1 ha
    simp only [ha, true_imp_iff]
    rw [funext_iff]
    refine forall_congr' fun t => ?_
    rw [hst t]
    split
    · next ht => exact insert_eq_self_iff.trans ⟨fun h _ => h, fun h => h ht⟩
    · next ht => exact iff_of_true rfl fun h => absurd h ht
  · exact iff_of_true ((handleRegisterRequest_state (t := .archiver)).2 ha) fun h => absurd h ha

/-- The shared state with one entry written is as before exactly when the entry
was there. -/
theorem shared_put_iff {entry' : PendingTransaction}
    (he : s.registry.transactions.lookup txId = some entry) :
    ({ s with registry := s.registry.put txId entry' } : SentinelState).shared =
      s.shared ↔ entry' = entry := by
  constructor
  · intro h
    have hr : s.registry.put txId entry' = s.registry := congrArg Prod.fst h
    have hl : (s.registry.put txId entry').transactions.lookup txId = some entry' := lookup_put
    rw [hr, he] at hl
    exact (Option.some.inj hl).symm
  · rintro rfl
    rw [put_of_lookup he]

theorem PendingTransaction.release_locked :
    (({ entry.locked with state := state } : PendingTransaction).release).1 =
      { entry with state := state } := by
  simp [release, locked]

theorem PendingTransaction.withState_eq_self_iff :
    ({ entry with state := state } : PendingTransaction) = entry ↔ entry.state = state := by
  constructor
  · intro h
    rw [← h]
  · rintro rfl
    rfl

theorem leavesIff_confirm :
    LeavesIff s (handleConfirmation S message) s (ConfirmHarmless S s message) := by
  refine keeps_decode_iff (by rfl) fun txId _ => ?_
  have hc : (∀ entry, s.registry.transactions.lookup txId = some entry →
      entry.state.isTerminal = true) ↔
      ∀ entry, s.registry.transactions.lookup txId = some entry →
        entry.state.isTerminal = true ∨ False := by
    simp
  rw [hc]
  refine endsIff_acquire (Q := fun _ t => t.shared = s.shared)
    (E := fun _ t => t.shared = s.shared) (fun _ => rfl) fun entry he _ => ?_
  have hk : ({ s with registry := s.registry.put txId entry.locked } :
      SentinelState).shared = s.shared ↔ False :=
    (shared_put_iff he).trans (iff_false_intro entry.locked_ne)
  simp only [EndsIff, ends_bind, ends_getState, ends_require, commitEntry, lookup_put, map_some]
  refine ⟨fun _ => ?_, fun _ => hk⟩
  have hl : entry.locked.state = entry.state := rfl
  rw [hl]
  cases hs : entry.state with
  | finalizing tx key =>
    -- the lock is given back, but the entry is committed now
    rw [ends_update, setState_put, ends_releaseQuietly_put, release_locked]
    refine (shared_put_iff he).trans (iff_false_intro fun h => ?_)
    rw [withState_eq_self_iff, hs] at h
    cases h
  | _ => exact hk

/-! ### A rejection -/

theorem isRequestedFinalizer_put_locked (he : registry.transactions.lookup txId = some entry) :
    (registry.put txId entry.locked).isRequestedFinalizer txId key =
      registry.isRequestedFinalizer txId key := by
  simp only [isRequestedFinalizer, lookup_put, he, locked]

theorem key_of_isRequestedFinalizer {key' : Bytes}
    (he : registry.transactions.lookup txId = some entry)
    (hs : entry.state = .finalizing tx key')
    (hr : registry.isRequestedFinalizer txId key = true) : key' = key := by
  unfold isRequestedFinalizer at hr
  rw [he] at hr
  simp only [hs] at hr
  split at hr
  · cases hr
  · exact eq_of_beq hr

theorem reassignedKey_put_locked (he : s.registry.transactions.lookup txId = some entry) :
    reassignedKey C cfg world { s with registry := s.registry.put txId entry.locked }
      txId key = reassignedKey C cfg world s txId key := by
  simp only [reassignedKey, reassignFinalizerDeterministically, lookup_put, he, locked]
  rfl

theorem ends_rememberReassignment {Q : Unit → SentinelState → Prop}
    {E : SentinelError → SentinelState → Prop}
    (h : ∀ st, Q () { s with stakeSnapshots := st }) :
    Ends (rememberReassignment world txId) s Q E := by
  simp only [rememberReassignment, ends_bind, ends_getState]
  split
  · exact h s.stakeSnapshots
  · exact h _

theorem leavesIff_reassignTo {newKey : Bytes} {stakes : Finmap (fun _ : Nat => StakeSet)}
    (he : s.registry.transactions.lookup txId = some entry) :
    LeavesIff s (reassignTo C cfg world txId newKey)
      { s with registry := s.registry.put txId entry.locked, stakeSnapshots := stakes }
      (∃ tx, entry.state = .finalizing tx newKey ∧
        ∃ salt, reassignmentSalt C world tx s.currentEpoch = .ok salt) := by
  have hput : ∀ {entry' : PendingTransaction} {cond : Prop}, (entry' = entry ↔ cond) →
      (({ s with registry := s.registry.put txId entry', stakeSnapshots := stakes } :
        SentinelState).shared = s.shared ↔ cond) := fun h => (shared_put_iff he).trans h
  simp only [LeavesIff, Keeps, reassignTo, ends_bind, ends_getState, lookup_put, map_some]
  have hl : entry.locked.state = entry.state := rfl
  rw [hl]
  cases hst : entry.state with
  | finalizing tx key =>
    simp only [ends_bind, ends_update, ends_lift]
    rw [setState_put]
    constructor
    · -- the entry goes to the new key and the lock is given back
      intro salt hs
      have hb : ({ s with
          registry := s.registry.put txId { entry with state := .finalizing tx newKey },
          stakeSnapshots := stakes } : SentinelState).shared = s.shared ↔
          ∃ tx', TransactionState.finalizing tx key = .finalizing tx' newKey ∧
            ∃ salt, reassignmentSalt C world tx' s.currentEpoch = .ok salt := by
        refine hput (withState_eq_self_iff.trans ?_)
        rw [hst]
        constructor
        · rintro ⟨⟩
          exact ⟨tx, rfl, salt, hs⟩
        · rintro ⟨tx', h, -⟩
          cases h
          rfl
      split <;>
        simp only [ends_bind, ends_fail, ends_require, ends_releaseQuietly_put, release_locked]
      · exact hb
      · exact ⟨fun _ => hb, fun _ => hb⟩
    · intro e hs
      refine hput (iff_of_false (fun h => ?_) ?_)
      · have := congrArg lockCount h
        simp [locked] at this
      · rintro ⟨tx', h, salt, hs'⟩
        cases h
        rw [hs] at hs'
        cases hs'
  | _ => exact hput (iff_of_false entry.locked_ne (by simp))

theorem leavesIff_reject : LeavesIff s (handleRejection C S cfg world message) s
      (RejectHarmless C S cfg world s message) := by
  refine keeps_decode_iff (by rfl) fun txId _ => ?_
  refine endsIff_acquire (Q := fun _ t => t.shared = s.shared)
    (E := fun _ t => t.shared = s.shared) (fun _ => rfl) fun entry he hl => ?_
  simp only [EndsIff, ends_bind, ends_getState, ends_require,
    isRequestedFinalizer_put_locked he, reassignedKey_put_locked he]
  refine ⟨fun hr => ends_rememberReassignment fun st => ?_, fun ho => ?_⟩
  · cases hkey : reassignedKey C cfg world s txId message.publicKey with
    | none =>
      simp only [ends_bind, ends_releaseQuietly_put, ends_fail]
      exact (shared_put_iff he).trans (iff_of_true release_locked ⟨hr, .inl trivial⟩)
    | some newKey =>
      refine (leavesIff_reassignTo he).congr ?_
      constructor
      · rintro ⟨tx, hs, hsl⟩
        obtain rfl := key_of_isRequestedFinalizer he hs hr
        exact ⟨hr, .inr ⟨rfl, tx, hs, hsl⟩⟩
      · rintro ⟨-, h | ⟨h, hs⟩⟩
        · cases h
        · cases h
          exact hs
  · exact (shared_put_iff he).trans (iff_of_false entry.locked_ne fun h => ho h.1)

/-! ### Admission -/

theorem leavesIff_shielded : LeavesIff s (handleShieldedTransfer C P S cfg world message) s
      (ShieldedHarmless P S cfg world s message) := by
  refine keeps_decode_iff (by rfl) fun stx _ => keeps_lift_iff (by rfl) fun token _ => ?_
  by_cases hh : stx.id ∈ s.registry.shieldedTransactions
  · simp [Keeps, onRegistry, registerShielded, hh]
  · -- whatever becomes of the assignment, the transfer is registered
    refine leavesIff_of_changed
      (I := fun after => stx.id ∈ after.registry.shieldedTransactions) ?_ hh ?_
    · simp [Keeps, onRegistry, registerShielded, rememberStakes, hh]
    · intro after ha hs
      have hr : after.registry = s.registry := congrArg Prod.fst hs
      exact hh (hr ▸ ha)

/-- The transaction is known. -/
def Registered (txId : String) (registry : PendingTransactionRegistry) : Prop :=
  txId ∈ registry.transactions

theorem registered_insert (h : Registered txId registry) : Registered txId
      { registry with transactions := registry.transactions.insert txId' entry } :=
  mem_insert.mpr (.inr h)

theorem registered_setState (h : Registered txId registry) :
    Registered txId (registry.setState txId' state) := by
  unfold setState PendingRegistry.setState
  split
  · exact h
  · exact registered_insert h

theorem keeps_registerPending : Keeps (registerPending txId) registry (Registered txId) := by
  simp [Keeps, registerPending, addTransaction, Registered, mem_insert]

theorem preserves_onRegistry {α : Type} {rename : RegistryFault → SentinelError} {m : RegistryM α}
    (hm : Preserves (Registered txId) m) :
    Preserves (fun s : SentinelState => Registered txId s.registry) (onRegistry rename m) :=
  .zoom (fun _ h => h) (fun _ _ _ h => h) hm

theorem preserves_acquireTransaction : Preserves (Registered txId) (acquireTransaction txId') :=
  .bind .getState fun _ => .bind (.ofOption _ _) fun _ => .bind (.ofOption _ _) fun _ =>
    .update fun _ h => registered_insert h

theorem preserves_transitionToValidatedAndEnqueue {validation : TransactionValidationResult} :
    Preserves (Registered txId) (transitionToValidatedAndEnqueue txId' tx validation) := by
  refine .bind .getState fun _ => .bind (.require _ _) fun _ =>
    .bind (.update fun _ h => registered_setState h) fun _ => ?_
  exact .bind .getState fun _ => .bind (.update fun _ h => h) fun _ =>
    .bind (.require _ _) fun _ => .update fun _ h => h

theorem preserves_releaseQuietly : Preserves (fun s : SentinelState => Registered txId s.registry)
      (releaseQuietly txId') := by
  refine .bind (.attempt (preserves_onRegistry ?_)) fun _ => .pure _
  exact .bind .getState fun _ => .bind (.ofOption _ _) fun _ =>
    .bind (.update fun _ h => registered_insert h) fun _ => .pure _

theorem preserves_sendToExecutorForPreload {I : PendingTransactionRegistry → Prop} :
    Preserves (fun s : SentinelState => I s.registry)
      (sendToExecutorForPreload C cfg world tx) := by
  unfold sendToExecutorForPreload
  split
  · exact .pure _
  · exact .bind (.lift _) fun _ => .bind .getState fun _ =>
      .bind (.update fun _ h => h) fun _ => .bind (.lift _) fun _ => .require _ _

theorem preserves_routeTransaction {token : FlaggedToken} :
    Preserves (fun s : SentinelState => Registered txId s.registry)
      (routeTransaction C cfg world tx token) := by
  have hd : Preserves (fun s : SentinelState => Registered txId s.registry)
      (routingDecisionFor C cfg world tx token) := by
    unfold routingDecisionFor
    split
    · exact .pure _
    · exact .bind .getState fun _ => .bind (.update fun _ h => h) fun _ =>
        .bind (.lift _) fun _ => .bind (.lift _) fun _ => .pure _
  refine .bind (.attempt hd) fun d => ?_
  split
  · exact .bind preserves_releaseQuietly fun _ => .fail _
  · refine .bind (.attempt (preserves_onRegistry
      preserves_transitionToValidatedAndEnqueue)) fun e => ?_
    split
    · exact .bind preserves_releaseQuietly fun _ => .fail _
    · exact preserves_sendToExecutorForPreload

theorem preserves_handleSelfSigned {gas : Nat} :
    Preserves (fun s : SentinelState => Registered txId s.registry) (handleSelfSigned tx gas) :=
  .bind (preserves_onRegistry preserves_transitionToValidatedAndEnqueue) fun _ =>
    .bind (.update fun _ h => h) fun _ => preserves_releaseQuietly

theorem leavesIff_admit : LeavesIff s (admitTransaction C cfg world tx) s
      (s.registry.gasTracker.lookup tx.id = some (computeGasUsed cfg tx) ∧
        s.registry.transactions.lookup tx.id = some (.new .pending)) := by
  by_cases hmem : tx.id ∈ s.registry.transactions
  · simp only [LeavesIff, Keeps, admitTransaction, onRegistry, registerPending, addTransaction,
      ends_bind, ends_update, ends_zoom, ends_getState, ends_require]
    refine ⟨fun hnew => absurd hmem hnew, fun _ => ?_⟩
    rw [shared_registry_iff, ← insert_eq_self_iff, ← insert_eq_self_iff]
    constructor
    · intro h
      exact ⟨congrArg gasTracker h, congrArg transactions h⟩
    · rintro ⟨hgas, ht⟩
      simp only [recordGasUsed, hgas, ht]
  · -- from its registration on the transaction stays
    refine leavesIff_of_changed (I := fun after => Registered tx.id after.registry) ?_ ?_ ?_
    · refine ends_bind.mpr (ends_update.mpr (ends_bind.mpr (ends_zoom.mpr
        (Ends.mono keeps_registerPending (fun _ registry h => ?_) fun _ _ h => h))))
      refine Preserves.bind (preserves_onRegistry preserves_acquireTransaction)
        (fun _ => .bind (.ofOption _ _) fun token => ?_) _ h
      split
      · exact preserves_handleSelfSigned
      · exact preserves_routeTransaction
    · rintro ⟨-, h⟩
      exact hmem (mem_of_lookup_eq_some h)
    · intro after ha hs
      have hr : after.registry = s.registry := congrArg Prod.fst hs
      exact hmem (hr ▸ ha)

theorem leavesIff_process : LeavesIff s (handleProcessRequest C cfg world message) s
      (ProcessHarmless C cfg world s message) := by
  refine keeps_decode_iff (by rfl) fun tx _ => ?_
  refine keeps_check_iff (by rfl) fun _ => ?_
  cases hv : validateTransaction cfg world tx with
  | error e =>
    simp only [Keeps, ends_update]
    rw [shared_registry_iff]
    have hf : s.registry.setState tx.id (.failed tx (failureReasons e)) = s.registry ↔
        s.registry.transactions.setState tx.id (.failed tx (failureReasons e)) =
          s.registry.transactions :=
      ⟨congrArg transactions, fun h => by
        unfold setState
        rw [h]⟩
    rw [hf, PendingRegistry.setState_eq_self_iff]
    simp
  | ok _ => exact leavesIff_admit.congr (by simp)

/-! ## The dispatch -/

theorem leavesIff_handleSentinelAction {action : SentinelAction} :
    LeavesIff s (handleSentinelAction C P N S cfg world message action) s
      (ActionHarmless C P N S cfg world s message action) := by
  cases action with
  | process => exact leavesIff_process
  | confirm => exact leavesIff_confirm
  | reject => exact leavesIff_reject
  | register => exact leavesIff_register
  | clear => exact leavesIff_clear
  | blockFinalized => exact leavesIff_blockFinalized
  | shieldedTransfer => exact leavesIff_shielded

theorem leavesIff_onDataReceived {rawData : Bytes} :
    LeavesIff s (onDataReceived C P N S cfg world rawData) s
      (∀ message, S.decodeMessage rawData = some message →
        ∀ ac, SentinelAction.ofString message.action = some ac →
          ActionHarmless C P N S cfg world s message.toMessage ac) := by
  refine keeps_decode_iff (by rfl) fun message _ => ?_
  cases ha : SentinelAction.ofString message.action with
  | none => exact iff_of_true rfl fun _ h => by cases h
  | some ac => exact leavesIff_handleSentinelAction.congr (by simp)

end Actions

end Pneumatic
