import Pneumatic.Lib.Codebook
import Pneumatic.Proofs.SentinelEffects

/-!
# What one submitter does to another's transactions

The registry, the gas and the queue are all filed under an id that the client
chooses. A Process message records its gas and writes its entry before it is
known whether the id is free, and marks whatever stands under the id as failed
when its own transaction is not valid; a Clear message is not asked where it
comes from. So the transactions of two accounts are apart only as long as the
messages themselves keep them apart, and the conditions below say exactly when
they do.
-/

namespace Pneumatic

open Handler HandlerM Run PendingTransactionRegistry Finmap List Option ShieldedPool

/-! ## What is held under an id -/

/-- Where a transaction stands in the queue of a token. -/
def TransactionPool.position (pool : TransactionPool) (tokenId : Bytes) (txId : String) :
    Option Nat :=
  (pool.queue tokenId).idxOf? txId

/-- Where a new transaction goes in the queue of its token. -/
def TransactionPool.insertionPoint (pool : TransactionPool) (txId : String)
    (entry : PoolEntry) : Nat :=
  (pool.queue entry.tokenId).findIdx fun id =>
    precedes entry ((pool.index.insert txId entry).lookup id)

/-- All that a registry holds of a transaction. -/
@[ext]
structure Holding where
  entry : Option PendingTransaction
  gas : Option Nat
  record : Option PoolEntry
  position : Bytes → Option Nat

def PendingTransactionRegistry.holding (registry : PendingTransactionRegistry)
    (txId : String) : Holding where
  entry := registry.transactions.lookup txId
  gas := registry.gasTracker.lookup txId
  record := registry.pool.index.lookup txId
  position tokenId := registry.pool.position tokenId txId

/-- What the queue records of a transaction. -/
def Transaction.poolEntry (tx : Transaction) : PoolEntry where
  tokenId := tx.tokenId
  sequenceNumber := tx.sequenceNumber
  timestamp := tx.timestamp
  sender := tx.sender

section Pool

variable {pool : TransactionPool} {txId id : String} {entry : PoolEntry}

theorem idxOf?_insertIdx {ids : List String} {n : Nat} (hne : id ≠ txId) :
    (ids.insertIdx n txId).idxOf? id = (ids.idxOf? id).map fun i => if n ≤ i then i + 1 else i := by
  induction ids generalizing n with
  | nil =>
    cases n with
    | zero => simp [idxOf?_cons, hne.symm]
    | succ n => simp
  | cons head ids ih =>
    cases n with
    | zero => simp [idxOf?_cons, hne.symm]
    | succ n =>
      rw [insertIdx_succ_cons, idxOf?_cons, idxOf?_cons, ih]
      split
      · simp
      · cases ids.idxOf? id with
        | none => rfl
        | some i =>
          simp only [map_some, Nat.add_le_add_iff_right]
          split <;> rfl

/-- In the queue of its token a new transaction moves back what it goes before;
the other queues stay. -/
theorem position_enqueue (hne : id ≠ txId) (tokenId : Bytes) :
    (pool.enqueue txId entry).position tokenId id =
      if tokenId = entry.tokenId then
        (pool.position entry.tokenId id).map fun i =>
          if pool.insertionPoint txId entry ≤ i then i + 1 else i
      else pool.position tokenId id := by
  unfold TransactionPool.position
  rw [TransactionPool.queue_enqueue]
  split
  · next heq =>
    subst heq
    exact idxOf?_insertIdx hne
  · rfl

/-- The positions of a transaction stay exactly when the new one goes behind it. -/
theorem position_enqueue_eq_iff (pool : TransactionPool) (entry : PoolEntry) (hne : id ≠ txId) :
    (∀ ti, (pool.enqueue txId entry).position ti id = pool.position ti id) ↔
      ∀ n, pool.position entry.tokenId id = some n → n < pool.insertionPoint txId entry := by
  constructor
  · intro h n hn
    have hk := h entry.tokenId
    rw [position_enqueue hne, if_pos rfl, hn] at hk
    by_contra hle
    simp [Nat.not_lt.mp hle] at hk
  · intro h ti
    rw [position_enqueue hne]
    split
    · next heq =>
      rw [heq]
      cases hn : pool.position entry.tokenId id with
      | none => rfl
      | some n => simp [Nat.not_le.mpr (h n hn)]
    · rfl

end Pool

/-! ## The conditions -/

variable (C : Codec) (P : ShieldedPrimitives) (N : NodeCodec) (S : SentinelCodec)
  (cfg : SentinelConfig)

section Conditions

variable (world : SentinelWorld) (s : SentinelState) (tx : Transaction)

/-- A transaction that carries no routing decision can be given one. -/
def Routable (token : FlaggedToken) : Prop :=
  tx.selection = none → ∃ key record,
      assignFinalizerDeterministic cfg world s tx.id s.currentEpoch (chainTipOf C token) = .ok key ∧
      attestSelection C cfg world tx.id key s.currentEpoch (chainTipOf C token) = .ok record

/-- A valid transaction comes to the queue of its token. -/
structure Queues : Prop where
  free : tx.id ∉ s.registry.transactions
  routed : ∀ token, world.getToken tx.tokenId = some token →
    token.isSelfVerified = false → Routable C cfg world s tx token
  nonce : (tx.tokenId, tx.sender, tx.sequenceNumber) ∉ s.registry.usedNonces

/-- A transaction comes to the queue at or before the place of another one. -/
structure PushesBack (id : String) : Prop where
  valid : validateTransaction cfg world tx = .ok ()
  queues : Queues C cfg world s tx
  before : ∃ n, s.registry.pool.position tx.tokenId id = some n ∧
    s.registry.pool.insertionPoint tx.id tx.poolEntry ≤ n

end Conditions

/-! ## Admission -/

variable {queues : Prop}

section Admission

variable {C P N S cfg} {world : SentinelWorld} {s : SentinelState} {tx : Transaction}
  {message : Message} {id : String}

/-- A registry after an admission: under the id of the transaction there is an entry and
its gas, and beside them only the queue and the nonces may have changed. -/
def AdmittedTo (registry : PendingTransactionRegistry) (tx : Transaction) (gas : Nat)
    (pool : TransactionPool) (after : PendingTransactionRegistry) : Prop :=
  ∃ entry nonces, after = PendingTransactionRegistry.put
    { registry.recordGasUsed tx.id gas with usedNonces := nonces, pool := pool } tx.id entry

variable {registry after : PendingTransactionRegistry} {gas : Nat}

theorem ends_transitionToValidatedAndEnqueue (tx : Transaction)
    {entry : PendingTransaction} {validation : TransactionValidationResult}
    {Q : Unit → PendingTransactionRegistry → Prop}
    {E : RegistryFault → PendingTransactionRegistry → Prop} {nonce : Bytes × Bytes × Nat}
    (hn : nonce = (tx.tokenId, tx.sender, tx.sequenceNumber)) :
    Ends (transitionToValidatedAndEnqueue tx.id tx validation) (registry.put tx.id entry) Q E ↔
      (nonce ∉ registry.usedNonces →
        Q () (PendingTransactionRegistry.put
          { registry with
            usedNonces := insert nonce registry.usedNonces
            pool := registry.pool.enqueue tx.id tx.poolEntry }
          tx.id { entry with state := .validated tx validation })) ∧
      (nonce ∈ registry.usedNonces → E (.duplicateNonce tx.tokenId tx.sender tx.sequenceNumber)
          (PendingTransactionRegistry.put
            { registry with usedNonces := insert nonce registry.usedNonces }
            tx.id { entry with state := .validated tx validation })) := by
  subst hn
  have hmem : tx.id ∈ (registry.put tx.id entry).transactions :=
    mem_insert.mpr (.inl rfl)
  simp only [transitionToValidatedAndEnqueue, enqueueToPool, ends_bind, ends_getState,
    ends_require, ends_update, hmem, true_imp_iff, not_true_eq_false, false_imp_iff, and_true,
    setState_put]
  simp only [PendingTransactionRegistry.put, Transaction.poolEntry, not_not]

section AdmittedTo

variable {registry after : PendingTransactionRegistry} {gas : Nat} {pool : TransactionPool}

theorem AdmittedTo.put (h : AdmittedTo registry tx gas pool after)
    (entry : PendingTransaction) : AdmittedTo registry tx gas pool (after.put tx.id entry) := by
  obtain ⟨held, n, rfl⟩ := h
  exact ⟨entry, n, by simp [PendingTransactionRegistry.put]⟩

theorem AdmittedTo.recordGasUsed (h : AdmittedTo registry tx gas pool after) :
    AdmittedTo registry tx gas pool (after.recordGasUsed tx.id gas) := by
  obtain ⟨held, n, rfl⟩ := h
  exact ⟨held, n, by
    simp [PendingTransactionRegistry.put, PendingTransactionRegistry.recordGasUsed]⟩

theorem preserves_releaseQuietly_admitted :
    Preserves (fun s : SentinelState => AdmittedTo registry tx gas pool s.registry)
      (releaseQuietly tx.id) := by
  refine .bind (.attempt (.zoom (J := AdmittedTo registry tx gas pool) (fun _ h => h)
    (fun _ _ _ h => h) ?_)) fun _ => .pure _
  exact .bind .getState fun _ => .bind (.ofOption _ _) fun _ =>
    .bind (.update fun _ h => h.put _) fun _ => .pure _

end AdmittedTo

/-- A registry after an admission that comes to the queue under a condition. -/
def AdmittedWhen (registry : PendingTransactionRegistry) (tx : Transaction) (gas : Nat)
    (queues : Prop) (after : PendingTransactionRegistry) : Prop :=
  (queues → AdmittedTo registry tx gas (registry.pool.enqueue tx.id tx.poolEntry) after) ∧
    (¬ queues → AdmittedTo registry tx gas registry.pool after)

theorem AdmittedWhen.congr {queues' : Prop} (h : AdmittedWhen registry tx gas queues after)
    (hq : queues ↔ queues') : AdmittedWhen registry tx gas queues' after :=
  ⟨fun hyes => h.1 (hq.mpr hyes), fun hnot => h.2 (mt hq.mp hnot)⟩

theorem AdmittedTo.when (hq : queues)
    (h : AdmittedTo registry tx gas (registry.pool.enqueue tx.id tx.poolEntry) after) :
    AdmittedWhen registry tx gas queues after :=
  ⟨fun _ => h, fun hnot => absurd hq hnot⟩

theorem AdmittedTo.whenNot (hq : ¬ queues) (h : AdmittedTo registry tx gas registry.pool after) :
    AdmittedWhen registry tx gas queues after :=
  ⟨fun hyes => absurd hyes hq, fun _ => h⟩

variable {token : FlaggedToken}

section Steps

variable {registry : PendingTransactionRegistry} {entry : PendingTransaction} {gas : Nat}

theorem keeps_handleSelfSigned
    (hr : s.registry = (registry.recordGasUsed tx.id gas).put tx.id entry) :
    Keeps (handleSelfSigned tx gas) s fun after => AdmittedWhen registry tx gas
      ((tx.tokenId, tx.sender, tx.sequenceNumber) ∉ registry.usedNonces) after.registry := by
  simp only [Keeps, handleSelfSigned, ends_bind, onRegistry, ends_zoom, hr,
    ends_transitionToValidatedAndEnqueue _ rfl, ends_update]
  constructor
  · intro hn
    -- the gas is recorded a second time
    refine Keeps.mono (preserves_releaseQuietly_admitted _
      (AdmittedTo.recordGasUsed ⟨_, _, rfl⟩)) fun _ h => h.when hn
  · intro hn
    exact AdmittedTo.whenNot (not_not.mpr hn) ⟨_, _, rfl⟩

/-- A routing decision touches no more than the stake cache, and there is one exactly for
a transaction that can be routed. -/
theorem ends_routingDecisionFor {Q : Bytes × SelectionRecord → SentinelState → Prop}
    {E : SentinelError → SentinelState → Prop}
    (hok : Routable C cfg world s tx token → ∀ d st,
      Q d { s with stakeSnapshots := st })
    (her : ¬ Routable C cfg world s tx token → ∀ e st,
      E e { s with stakeSnapshots := st }) :
    Ends (routingDecisionFor C cfg world tx token) s Q E := by
  unfold routingDecisionFor
  cases hs : tx.selection with
  | some c =>
    refine hok (fun h => ?_) _ s.stakeSnapshots
    rw [hs] at h
    cases h
  | none =>
    simp only [ends_bind, ends_getState, rememberStakes, ends_update, ends_lift, ends_pure]
    refine ⟨fun key hkey => ⟨fun r hr => ?_, fun e he => ?_⟩, fun e he => ?_⟩
    · exact hok (fun _ => ⟨key, r, hkey, hr⟩) _ _
    · refine her (fun h => ?_) _ _
      obtain ⟨key', r, hkey', hr⟩ := h hs
      obtain rfl := Except.ok.inj (hkey.symm.trans hkey')
      cases he.symm.trans hr
    · refine her (fun h => ?_) _ _
      obtain ⟨key, r, hkey, -⟩ := h hs
      cases he.symm.trans hkey

theorem keeps_releaseQuietly_fail {e : SentinelError}
    (hq : ¬ queues) (h : AdmittedTo registry tx gas registry.pool s.registry) :
    Keeps (releaseQuietly tx.id >>= fun _ => (fail e : SentinelM Unit)) s
      fun after => AdmittedWhen registry tx gas queues after.registry := by
  refine ends_bind.mpr (Ends.mono (preserves_releaseQuietly_admitted s h) ?_ ?_)
  · intro _ _ ha
    exact ha.whenNot hq
  · intro _ _ ha
    exact ha.whenNot hq

theorem keeps_routeTransaction
    (hr : s.registry = (registry.recordGasUsed tx.id gas).put tx.id entry) :
    Keeps (routeTransaction C cfg world tx token) s fun after => AdmittedWhen registry tx gas
        (Routable C cfg world s tx token ∧
          (tx.tokenId, tx.sender, tx.sequenceNumber) ∉ registry.usedNonces) after.registry := by
  refine ends_bind.mpr (ends_attempt.mpr (ends_routingDecisionFor ?_ ?_))
  · rintro hrt ⟨key, sl⟩ st
    refine ends_bind.mpr (ends_attempt.mpr (ends_zoom.mpr ?_))
    -- the decision is written into the transaction, which the queue does not see
    rw [hr]
    refine (ends_transitionToValidatedAndEnqueue { tx with selection := some sl }
      rfl).mpr ⟨fun hn => ?_, fun hn => ?_⟩
    · exact Keeps.mono (preserves_sendToExecutorForPreload
        (I := AdmittedTo registry tx gas (registry.pool.enqueue tx.id tx.poolEntry)) _
        ⟨_, _, rfl⟩) fun _ h => h.when ⟨hrt, hn⟩
    · exact keeps_releaseQuietly_fail (fun h => h.2 hn) ⟨_, _, rfl⟩
  · intro hnot e st
    exact keeps_releaseQuietly_fail (fun h => hnot h.1) ⟨_, _, hr⟩

end Steps

/-- A transaction whose id is taken: its entry is written anew, and nothing follows. -/
theorem keeps_admitTransaction_taken (ht : tx.id ∈ s.registry.transactions) :
    Keeps (admitTransaction C cfg world tx) s fun after =>
      after.registry = (s.registry.recordGasUsed tx.id (computeGasUsed cfg tx)).put tx.id
        (.new .pending) := by
  simp only [Keeps, admitTransaction, onRegistry, registerPending, addTransaction, ends_bind,
    ends_update, ends_zoom, ends_getState, ends_require]
  exact ⟨fun hf => absurd ht hf, fun _ => rfl⟩

theorem keeps_admitTransaction_free (hf : tx.id ∉ s.registry.transactions)
    (ht : world.getToken tx.tokenId = some token) :
    Keeps (admitTransaction C cfg world tx) s fun after =>
      AdmittedWhen s.registry tx (computeGasUsed cfg tx) (Queues C cfg world s tx)
        after.registry := by
  have hfr : ∀ entry : PendingTransaction,
      ((s.registry.recordGasUsed tx.id (computeGasUsed cfg tx)).put tx.id entry).put tx.id
        entry.locked =
      (s.registry.recordGasUsed tx.id (computeGasUsed cfg tx)).put tx.id entry.locked := by
    intro entry
    simp [PendingTransactionRegistry.put]
  refine ends_bind.mpr (ends_update.mpr (ends_bind.mpr (ends_zoom.mpr ?_)))
  simp only [registerPending, addTransaction, ends_bind, ends_getState, ends_update, ends_require]
  refine ⟨fun _ => ends_zoom.mpr ?_, fun htk => absurd hf htk⟩
  refine (acquireTransaction_ok (lookup_insert _) rfl).mpr ?_
  refine ends_ofOption.mpr ⟨fun token' ht' => ?_, fun hnn => ?_⟩
  · obtain rfl := mem_unique ht ht'
    split
    · next hs =>
      refine Keeps.mono (keeps_handleSelfSigned (hfr _)) fun after h => h.congr ?_
      refine ⟨fun hn => ⟨hf, fun other hot ho => ?_, hn⟩, Queues.nonce⟩
      obtain rfl := mem_unique ht hot
      rw [hs] at ho
      cases ho
    · next hs =>
      refine Keeps.mono (keeps_routeTransaction (hfr _)) fun after h => h.congr ?_
      constructor
      · rintro ⟨hr, hn⟩
        refine ⟨hf, fun other hot _ => ?_, hn⟩
        obtain rfl := mem_unique ht hot
        exact hr
      · intro h
        exact ⟨h.routed token ht (by simpa using hs), h.nonce⟩
  · cases ht.symm.trans hnn

end Admission

/-! ## One Process message -/

variable {txId : String}

section Process

variable {C cfg} {world : SentinelWorld} {s : SentinelState} {tx : Transaction}
  {message : Message} {id : String}

theorem PendingRegistry.lookup_setState_of_ne {transactions : PendingRegistry}
    {state : TransactionState} (hne : id ≠ txId) :
    (transactions.setState txId state).lookup id = transactions.lookup id := by
  unfold setState
  split
  · rfl
  · exact lookup_insert_of_ne _ hne

theorem AdmittedWhen.exists_entry {registry after : PendingTransactionRegistry} {gas : Nat}
    (h : AdmittedWhen registry tx gas queues after) :
    ∃ entry, after.transactions.lookup tx.id = some entry := by
  by_cases hq : queues
  · obtain ⟨entry, n, rfl⟩ := h.1 hq
    exact ⟨entry, lookup_put⟩
  · obtain ⟨entry, n, rfl⟩ := h.2 hq
    exact ⟨entry, lookup_put⟩

theorem exists_token_of_valid (hv : validateTransaction cfg world tx = .ok ()) :
    ∃ token, world.getToken tx.tokenId = some token := by
  unfold validateTransaction at hv
  cases ht : world.getToken tx.tokenId with
  | none =>
    rw [ht] at hv
    cases hv
  | some token => exact ⟨token, rfl⟩

/-- Under another id an admission can only move a transaction back. -/
theorem AdmittedWhen.holding_eq_iff {registry after : PendingTransactionRegistry}
    {gas : Nat} (h : AdmittedWhen registry tx gas queues after) (hne : id ≠ tx.id) :
    after.holding id = registry.holding id ↔
      ¬ (queues ∧ ∃ n, registry.pool.position tx.tokenId id = some n ∧
        registry.pool.insertionPoint tx.id tx.poolEntry ≤ n) := by
  by_cases hq : queues
  · obtain ⟨entry, nn, rfl⟩ := h.1 hq
    have hp := position_enqueue_eq_iff registry.pool tx.poolEntry hne
    simp only [Holding.ext_iff, funext_iff, holding, PendingTransactionRegistry.put, recordGasUsed,
      lookup_insert_of_ne _ hne, true_and, hp]
    constructor
    · rintro ⟨-, hb⟩ ⟨-, n, hn, hle⟩
      exact Nat.not_lt.mpr hle (hb n hn)
    · intro hnot
      refine ⟨lookup_insert_of_ne _ hne, fun n hn => ?_⟩
      by_contra hle
      exact hnot ⟨hq, n, hn, Nat.not_lt.mp hle⟩
  · obtain ⟨entry, nn, rfl⟩ := h.2 hq
    refine iff_of_true ?_ fun h => hq h.1
    simp only [holding, PendingTransactionRegistry.put, recordGasUsed, lookup_insert_of_ne _ hne]

section

variable (hdecode : C.decodeTransaction message.body = some tx)

include hdecode

theorem keeps_process {I : SentinelState → Prop} (ha : authenticateSubmitter C message tx = .ok ())
    (hf : ∀ e, validateTransaction cfg world tx = .error e →
      I { s with registry := s.registry.setState tx.id (.failed tx (failureReasons e)) })
    (had : validateTransaction cfg world tx = .ok () →
      Keeps (admitTransaction C cfg world tx) s I) :
    Keeps (handleProcessRequest C cfg world message) s I := by
  refine ends_bind.mpr (ends_ofOption.mpr ⟨fun tx' htx' => ?_, fun hn => ?_⟩)
  · obtain rfl := mem_unique hdecode htx'
    refine ends_bind.mpr (ends_lift.mpr ⟨fun _ _ => ?_, fun e he => ?_⟩)
    · cases hv : validateTransaction cfg world tx with
      | error e => exact hf e hv
      | ok _ => exact had hv
    · cases ha.symm.trans he
  · cases hdecode.symm.trans hn

/-- Under its own id a Process message leaves all as it was exactly when it is harmless. -/
theorem holding_process_own_iff (ha : authenticateSubmitter C message tx = .ok ()) :
    Keeps (handleProcessRequest C cfg world message) s fun after =>
      (after.registry.holding tx.id = s.registry.holding tx.id ↔
        ProcessHarmless C cfg world s message) := by
  have hh : ProcessHarmless C cfg world s message ↔
      (∀ e, validateTransaction cfg world tx = .error e →
        ∀ entry, s.registry.transactions.lookup tx.id = some entry →
          entry.state = .failed tx (failureReasons e)) ∧
      (validateTransaction cfg world tx = .ok () →
        s.registry.gasTracker.lookup tx.id = some (computeGasUsed cfg tx) ∧
        s.registry.transactions.lookup tx.id = some (.new .pending)) := by
    simp [ProcessHarmless, hdecode, ha]
  rw [hh]
  refine keeps_process hdecode ha (fun e hv => ?_) fun hv => ?_
  · have he : (s.registry.setState tx.id (.failed tx (failureReasons e))).holding tx.id =
        s.registry.holding tx.id ↔
        s.registry.transactions.setState tx.id (.failed tx (failureReasons e)) =
          s.registry.transactions := by
      constructor
      · intro h
        refine ext_lookup fun id => ?_
        by_cases hid : id = tx.id
        · rw [hid]
          exact congrArg Holding.entry h
        · exact PendingRegistry.lookup_setState_of_ne hid
      · intro h
        unfold setState
        rw [h]
    rw [he, PendingRegistry.setState_eq_self_iff]
    simp [hv]
  · obtain ⟨token, htk⟩ := exists_token_of_valid hv
    simp only [hv, reduceCtorEq, false_imp_iff, implies_true, true_and, true_imp_iff]
    by_cases ht : tx.id ∈ s.registry.transactions
    · refine Keeps.mono (keeps_admitTransaction_taken ht) fun after haf => ?_
      rw [haf]
      simp only [Holding.ext_iff, holding, PendingTransactionRegistry.put, recordGasUsed,
        lookup_insert, and_true]
      exact ⟨fun h => ⟨h.2.symm, h.1.symm⟩, fun h => ⟨h.2.symm, h.1.symm⟩⟩
    · refine Keeps.mono (keeps_admitTransaction_free ht htk) fun after haf => ?_
      have hn := lookup_eq_none.mpr ht
      refine iff_of_false (fun h => ?_) fun h => ?_
      · obtain ⟨entry, he⟩ := haf.exists_entry
        have hs : after.registry.transactions.lookup tx.id =
            s.registry.transactions.lookup tx.id := congrArg Holding.entry h
        rw [he, hn] at hs
        cases hs
      · cases hn.symm.trans h.2

/-- Under another id it leaves all as it was unless it pushes a transaction back. -/
theorem holding_process_other_iff
    (hat : authenticateSubmitter C message tx = .ok ()) (hne : id ≠ tx.id) :
    Keeps (handleProcessRequest C cfg world message) s fun after =>
      (after.registry.holding id = s.registry.holding id ↔ ¬ PushesBack C cfg world s tx id) := by
  refine keeps_process hdecode hat (fun e hv => ?_) fun hv => ?_
  · refine iff_of_true ?_ fun h => ?_
    · simp only [holding, setState, PendingRegistry.lookup_setState_of_ne hne]
    · cases hv.symm.trans h.valid
  · obtain ⟨token, htk⟩ := exists_token_of_valid hv
    by_cases ht : tx.id ∈ s.registry.transactions
    · refine Keeps.mono (keeps_admitTransaction_taken ht) fun after ha => ?_
      refine iff_of_true ?_ fun h => h.queues.free ht
      rw [ha]
      simp only [holding, PendingTransactionRegistry.put, recordGasUsed, lookup_insert_of_ne _ hne]
    · refine Keeps.mono (keeps_admitTransaction_free ht htk) fun after ha => ?_
      refine (ha.holding_eq_iff hne).trans (not_congr ?_)
      exact ⟨fun h => ⟨hv, h.1, h.2⟩, fun h => ⟨h.queues, h.before⟩⟩

end

end Process

/-! ## Removal -/

section Removal

variable {C P N S cfg} {world : SentinelWorld} {s : SentinelState} {message : Message} {id : String}

/-- The state of a Sentinel in which an id has an entry. -/
def HasEntry (id : String) (s : SentinelState) : Prop := Registered id s.registry

theorem preserves_registerPending : Preserves (Registered id) (registerPending txId) :=
  .bind .getState fun _ => .bind (.update fun _ h => registered_insert h) fun _ =>
    .require _ _

theorem preserves_handleProcessRequest :
    Preserves (HasEntry id) (handleProcessRequest C cfg world message) := by
  refine .bind (.ofOption _ _) fun tx => .bind (.lift _) fun _ => ?_
  split
  · exact .update fun _ h => registered_setState h
  · refine .bind (.update fun _ h => h) fun _ =>
      .bind (preserves_onRegistry preserves_registerPending) fun _ =>
      .bind (preserves_onRegistry preserves_acquireTransaction) fun _ =>
      .bind (.ofOption _ _) fun token => ?_
    split
    · exact preserves_handleSelfSigned
    · exact preserves_routeTransaction

theorem preserves_handleConfirmation : Preserves (HasEntry id) (handleConfirmation S message) := by
  refine .bind (.ofOption _ _) fun txId =>
    .bind (preserves_onRegistry preserves_acquireTransaction) fun _ =>
    .bind .getState fun _ => .bind (.require _ _) fun _ =>
    .bind (.bind .getState fun s => ?_) fun _ => preserves_releaseQuietly
  split
  · exact .pure _
  · exact .update fun _ h => registered_setState h
  · exact .fail _

theorem preserves_reassignTo {newKey : Bytes} :
    Preserves (HasEntry id) (reassignTo C cfg world txId newKey) := by
  refine .bind .getState fun s => ?_
  split
  · exact .bind preserves_releaseQuietly fun _ => .fail _
  · refine .bind (.update fun _ h => registered_setState h) fun _ =>
      .bind (.lift _) fun salt => ?_
    dsimp only
    split
    · exact .bind preserves_releaseQuietly fun _ => .fail _
    · exact .bind preserves_releaseQuietly fun _ => .require _ _
  · exact .fail _

theorem preserves_handleRejection :
    Preserves (HasEntry id) (handleRejection C S cfg world message) := by
  have hr : ∀ txId, Preserves (HasEntry id) (rememberReassignment world txId) := by
    intro txId
    refine .bind .getState fun s => ?_
    split
    · exact .pure _
    · exact .update fun _ h => h
  refine .bind (.ofOption _ _) fun txId =>
    .bind (preserves_onRegistry preserves_acquireTransaction) fun _ =>
    .bind .getState fun s => .bind (.require _ _) fun _ => .bind (hr _) fun _ => ?_
  split
  · exact .bind preserves_releaseQuietly fun _ => .fail _
  · exact preserves_reassignTo

theorem preserves_handleShieldedTransfer :
    Preserves (HasEntry id) (handleShieldedTransfer C P S cfg world message) := by
  refine .bind (.ofOption _ _) fun stx => .bind (.lift _) fun token =>
    .bind (preserves_onRegistry ?_) fun _ => .bind .getState fun s =>
    .bind (.update fun _ h => h) fun _ => .bind (.lift _) fun _ => .require _ _
  exact .bind .getState fun _ => .bind (.require _ _) fun _ => .update fun _ h => h

theorem preserves_handleSentinelAction {action : SentinelAction} (ha : action ≠ .clear) :
    Preserves (HasEntry id) (handleSentinelAction C P N S cfg world message action) := by
  cases action with
  | process => exact preserves_handleProcessRequest
  | confirm => exact preserves_handleConfirmation
  | reject => exact preserves_handleRejection
  | register =>
    refine .bind (.ofOption _ _) fun r => ?_
    exact .zoom (J := fun _ => True) (fun _ _ => trivial) (fun _ _ h _ => h) fun _ _ => ends_trivial
  | clear => exact absurd rfl ha
  | blockFinalized =>
    refine .bind (.ofOption _ _) fun block => .bind .getState fun _ =>
      .bind (.require _ _) fun _ => .update fun s h => ?_
    unfold advanceEpoch
    split <;> exact h
  | shieldedTransfer => exact preserves_handleShieldedTransfer

theorem removes_clear_iff (hen : id ∈ s.registry.transactions) :
    Keeps (handleClearRequest S message) s fun after =>
      (id ∉ after.registry.transactions ↔ S.decodeTxId message.body = some id) := by
  refine ends_bind.mpr (ends_ofOption.mpr ⟨fun txId hdecode => ?_, fun hn => ?_⟩)
  · have he : id ∉ s.registry.transactions.erase txId ↔ S.decodeTxId message.body = some id := by
      rw [hdecode, some.injEq, mem_erase, not_and_or, not_not, eq_comm]
      exact or_iff_left (not_not.mpr hen)
    simp only [ends_bind, ends_attempt, onRegistry, ends_zoom, removeTransaction,
      ends_getState, ends_update, ends_require, ends_pure]
    exact ⟨fun _ => he, fun _ => he⟩
  · refine iff_of_false (not_not.mpr hen) fun h => ?_
    cases hn.symm.trans h

/-- A message takes an entry away exactly when it is a Clear message that names it. -/
theorem removes_iff {rawData : Bytes} (he : id ∈ s.registry.transactions) :
    Keeps (onDataReceived C P N S cfg world rawData) s fun after =>
      (id ∉ after.registry.transactions ↔ ∃ message, S.decodeMessage rawData = some message ∧
          SentinelAction.ofString message.action = some .clear ∧
          S.decodeTxId message.body = some id) := by
  refine ends_bind.mpr (ends_ofOption.mpr ⟨fun message hdecode => ?_, fun hn => ?_⟩)
  · cases ha : SentinelAction.ofString message.action with
    | none =>
      refine iff_of_false (not_not.mpr he) ?_
      rintro ⟨other, ho, hc, -⟩
      obtain rfl := mem_unique hdecode ho
      cases ha.symm.trans hc
    | some a =>
      by_cases hc : a = .clear
      · subst hc
        refine Keeps.mono (removes_clear_iff he) fun after h => h.trans ?_
        simp [hdecode, ha]
      · refine Keeps.mono (preserves_handleSentinelAction hc s he) fun after h => ?_
        refine iff_of_false (not_not.mpr h) ?_
        rintro ⟨other, ho, hc', -⟩
        obtain rfl := mem_unique hdecode ho
        exact hc (mem_unique ha hc')
  · refine iff_of_false (not_not.mpr he) ?_
    rintro ⟨other, ho, -⟩
    cases hn.symm.trans ho

end Removal

/-! ## Runs -/

variable {message : WireMessage}

section Runs

section

variable (h : SubmissionHistory) (input : SentinelInput)

/-- A message for the Sentinel, and what its surroundings answer meanwhile. -/
structure SentinelInput where
  world : SentinelWorld
  rawData : Bytes

/-- The account and the id of a valid transaction in an authenticated Process message. -/
def submission : Option (Bytes × String) :=
  match S.decodeMessage input.rawData with
  | none => none
  | some message =>
    if SentinelAction.ofString message.action = some .process then
      match C.decodeTransaction message.body with
      | none => none
      | some tx =>
        if authenticateSubmitter C message.toMessage tx = .ok () ∧
            validateTransaction cfg input.world tx = .ok () then
          some (tx.sender, tx.id)
        else none
    else none

/-- A Sentinel, and beside it which accounts have submitted which ids. -/
structure SubmissionHistory where
  sentinel : SentinelState
  submitted : List (Bytes × String)

def submissionStep : SubmissionHistory where
  sentinel := ((onDataReceived C P N S cfg input.world input.rawData).exec h.sentinel).2
  submitted := (submission C S cfg input).toList ++ h.submitted

/-- Who may take an account's transaction away: the account, the Finalizer that the
transaction is assigned to, and the registered Sentinels. -/
def MayRemove (s : SentinelState) (account : Bytes) (id : String) (key : Bytes) : Prop :=
  key = account ∨ s.registry.isRequestedFinalizer id key = true ∨ key ∈ s.nodes .sentinel

/-- A message is a Process message with a transaction inside. -/
structure Processes (message : WireMessage) (tx : Transaction) :
    Prop where
  decoded : S.decodeMessage input.rawData = some message
  action : SentinelAction.ofString message.action = some .process
  transaction : C.decodeTransaction message.body = some tx

/-- A message leaves the submitted transactions of the other accounts alone. -/
structure KeepsApart : Prop where
  process : ∀ message tx, Processes C S input message tx → tx.verifySenderSignature C = some true →
    ∀ account id, (account, id) ∈ h.submitted → account ≠ tx.sender →
      (submissionStep C P N S cfg h input).sentinel.registry.holding id =
        h.sentinel.registry.holding id
  removal : ∀ account id, (account, id) ∈ h.submitted → id ∈ h.sentinel.registry.transactions →
    id ∉ (submissionStep C P N S cfg h input).sentinel.registry.transactions →
    ∃ message, S.decodeMessage input.rawData = some message ∧
      MayRemove h.sentinel account id message.publicKey

/-- An authenticated Process message uses no id of another account, unless there is
nothing for it to change, and is not queued at or before the place of another account's
transaction; a Clear message comes from somebody who may remove what it names. -/
structure Considerate : Prop where
  process : ∀ message tx, Processes C S input message tx →
    authenticateSubmitter C message.toMessage tx = .ok () →
    ∀ account id, (account, id) ∈ h.submitted → account ≠ tx.sender →
      (id = tx.id → ProcessHarmless C cfg input.world h.sentinel message.toMessage) ∧
      (id ≠ tx.id → ¬ PushesBack C cfg input.world h.sentinel tx id)
  clear : ∀ message id, S.decodeMessage input.rawData = some message →
    SentinelAction.ofString message.action = some .clear →
    S.decodeTxId message.body = some id → id ∈ h.sentinel.registry.transactions →
    ∀ account, (account, id) ∈ h.submitted → MayRemove h.sentinel account id message.publicKey

end

variable {C P N S cfg} {h : SubmissionHistory} {input : SentinelInput}

variable {tx : Transaction}

theorem Processes.onDataReceived (hp : Processes C S input message tx) {s : SentinelState} :
    (onDataReceived C P N S cfg input.world input.rawData).exec s =
      (handleProcessRequest C cfg input.world message.toMessage).exec s := by
  unfold Pneumatic.onDataReceived
  rw [hp.decoded, exec_bind_ok (exec_ofOption_some _ _ _), hp.action]
  rfl

theorem handleProcessRequest_refused {world : SentinelWorld} {s : SentinelState}
    {message : Message} (hdecode : C.decodeTransaction message.body = some tx)
    (hr : authenticateSubmitter C message tx ≠ .ok ()) :
    ((handleProcessRequest C cfg world message).exec s).2 = s := by
  refine (keeps_iff (P := fun after => after = s)).mp (ends_bind.mpr (ends_ofOption.mpr
    ⟨fun tx' htx' => ?_, fun _ => rfl⟩))
  obtain rfl := mem_unique hdecode htx'
  exact ends_bind.mpr (ends_lift.mpr ⟨fun _ hok => absurd hok hr, fun _ _ => rfl⟩)

theorem signed_of_authenticated {message : Message}
    (ha : authenticateSubmitter C message tx = .ok ()) :
    tx.verifySenderSignature C = some true := by
  unfold authenticateSubmitter at ha
  split at ha
  · cases ha
  · split at ha
    · cases ha
    · cases ha
    · assumption

theorem Processes.holding_iff (hp : Processes C S input message tx)
    (ha : authenticateSubmitter C message.toMessage tx = .ok ()) (id : String) :
    (submissionStep C P N S cfg h input).sentinel.registry.holding id =
        h.sentinel.registry.holding id ↔
      (id = tx.id → ProcessHarmless C cfg input.world h.sentinel message.toMessage) ∧
      (id ≠ tx.id → ¬ PushesBack C cfg input.world h.sentinel tx id) := by
  unfold submissionStep
  rw [hp.onDataReceived]
  by_cases hid : id = tx.id
  · subst hid
    rw [keeps_iff.mp (holding_process_own_iff hp.transaction ha)]
    simp
  · rw [keeps_iff.mp (holding_process_other_iff hp.transaction ha hid)]
    simp [hid]

theorem submissionStep_removes_iff {id : String} (he : id ∈ h.sentinel.registry.transactions) :
    id ∉ (submissionStep C P N S cfg h input).sentinel.registry.transactions ↔
      ∃ message, S.decodeMessage input.rawData = some message ∧
        SentinelAction.ofString message.action = some .clear ∧
        S.decodeTxId message.body = some id :=
  (keeps_iff (P := fun after : SentinelState => (id ∉ after.registry.transactions ↔ _))).mp
    (removes_iff he)

theorem keepsApart_iff : KeepsApart C P N S cfg h input ↔ Considerate C S cfg h input := by
  constructor
  · intro hap
    refine ⟨fun message tx hp ha a id hid ho => ?_,
      fun message id hdecode hac hti he a hid => ?_⟩
    · exact (hp.holding_iff ha id).mp
        (hap.process message tx hp (signed_of_authenticated ha) a id hid ho)
    · obtain ⟨other, ho, hmay⟩ := hap.removal a id hid he
        ((submissionStep_removes_iff he).mpr ⟨message, hdecode, hac, hti⟩)
      obtain rfl := mem_unique hdecode ho
      exact hmay
  · intro hc
    refine ⟨fun message tx hp _ a id hid ho => ?_, fun a id hid he hg => ?_⟩
    · by_cases ha : authenticateSubmitter C message.toMessage tx = .ok ()
      · exact (hp.holding_iff ha id).mpr (hc.process message tx hp ha a id hid ho)
      · unfold submissionStep
        rw [hp.onDataReceived, handleProcessRequest_refused hp.transaction ha]
    · obtain ⟨message, hdecode, hac, hti⟩ :=
        (submissionStep_removes_iff he).mp hg
      exact ⟨message, hdecode, hc.clear message id hdecode hac hti he a hid⟩

/-- Along a run the accounts' transactions are kept apart exactly when every message is
considerate in the state it comes to. -/
theorem submitters_apart_iff (start : SubmissionHistory) (inputs : List SentinelInput) :
    Meets (submissionStep C P N S cfg) (KeepsApart C P N S cfg) start inputs ↔
      Meets (submissionStep C P N S cfg) (Considerate C S cfg) start inputs :=
  ⟨Meets.imp fun _ _ => keepsApart_iff.mp, Meets.imp fun _ _ => keepsApart_iff.mpr⟩

end Runs

/-! ## Two accounts with one id -/

namespace OneId

def transferOf (account : Bytes) (txId : String) (amount : Option Nat)
    (sequenceNumber : Nat) : Transaction :=
  { (default : Transaction) with
    id := txId
    sender := account
    amount := amount
    tokenId := [7]
    sequenceNumber := sequenceNumber
    senderSignature := account }

/-- The transaction of `[2]`, one of `[3]` with the same id, one of these that is not
valid, and one of `[3]` with an id of its own. -/
def bodies : Codec :=
  { keySigning with
    decodeTransaction := Codebook.decode
      [(transferOf [2] "a" (some 5) 1, [0]), (transferOf [3] "a" (some 7) 2, [1]),
        (transferOf [3] "a" none 2, [2]), (transferOf [3] "b" (some 1) 0, [3])] }

def messageFrom (key : Bytes) (action : String) (body : Bytes) : WireMessage where
  publicKey := key
  signature := []
  body := body
  chainId := "chain"
  action := action
  stakeSet := none

def frames : SentinelCodec where
  decodeMessage := Codebook.decode
    [(messageFrom [2] "Process" [0], [0]), (messageFrom [3] "Process" [1], [1]),
      (messageFrom [3] "Process" [2], [2]), (messageFrom [3] "Process" [3], [3]),
      (messageFrom [9] "Clear" [], [4])]
  decodeTxId _ := some "a"
  decodeRegistryRequest _ := none
  decodeShielded _ := none

/-- A Sentinel whose token takes every transaction with an amount, for its amount of
gas. -/
def amounts : SentinelConfig where
  node := tenOfEach
  env := ShieldedPool.sampleEnv
  specs _ := some fun tx _ =>
    if tx.amount.isSome then .ok (.valid [] (calculateRisk tx))
    else .error (.validation [])
  baseCost := 0
  amountMultiplier _ := none
  shardCount := 1
  select _ _ _ _ := none
  selectShard _ _ _ _ _ := none

def ownedToken : FlaggedToken where
  id := [7]
  metadata := ∅
  chain := []
  securityLevel := 0
  blockValidationSpecName := "SelfSigned"
  sequenceNumber := 0
  isSelfVerified := true

def input (byte : UInt8) : SentinelInput where
  world :=
    { node := oneStaked
      getToken := fun _ => some ownedToken
      getStakeSnapshot := fun _ => none
      getExecutorSet := fun _ => none
      signData := fun _ => none
      poolView := ⟨∅, []⟩
      finalizerReached := fun _ => false
      executorReached := fun _ => false }
  rawData := [byte]

def boot : SubmissionHistory where
  sentinel :=
    { registry := .new
      nodes := NodeBuckets.fresh
      currentEpoch := 0
      stakeSnapshots := ∅
      executorSets := ∅ }
  submitted := []

abbrev handle : SubmissionHistory → SentinelInput → SubmissionHistory :=
  submissionStep bodies ShieldedPool.samplePrimitives unboundNodes frames amounts

def submittedOnce : SubmissionHistory := handle boot (input 0)

/-- What the Sentinel holds of the transaction of `[2]` after one more message. -/
def heldAfter (byte : UInt8) : Holding :=
  (handle submittedOnce (input byte)).sentinel.registry.holding "a"

theorem submittedOnce_submitted : submittedOnce.submitted = [([2], "a")] := by
  decide +kernel

theorem not_keepsApart {byte : UInt8} (tx : Transaction)
    (hp : Processes bodies frames (input byte) message tx) (hs : tx.sender = [3])
    (hsg : tx.verifySenderSignature bodies = some true)
    (hc : heldAfter byte ≠ submittedOnce.sentinel.registry.holding "a") :
    ¬ KeepsApart bodies samplePrimitives unboundNodes frames amounts
      submittedOnce (input byte) := by
  intro ha
  refine hc (ha.process message tx hp hsg [2] "a" ?_ ?_)
  · exact mem_singleton.mpr rfl
  · rw [hs]
    decide

theorem stranger_may_not : ¬ MayRemove submittedOnce.sentinel [2] "a" [9] := by
  rintro (h | h | h)
  · cases h
  · revert h
    decide +kernel
  · revert h
    decide +kernel

/-- The transaction of `[2]` is validated. A transaction of `[3]` with the same id makes
it pending again with other gas, one that is not valid makes it failed, one with another
id moves it back in the queue, and a stranger's Clear message removes it. -/
theorem one_id_not_apart : (submittedOnce.submitted = [([2], "a")] ∧
      (submittedOnce.sentinel.registry.holding "a").entry = some (.new (.validated
        (transferOf [2] "a" (some 5) 1)
        (.valid [] (calculateRisk (transferOf [2] "a" (some 5) 1))))) ∧
      (submittedOnce.sentinel.registry.holding "a").gas = some 5 ∧
      (submittedOnce.sentinel.registry.holding "a").position [7] = some 0) ∧
    ((heldAfter 1).entry = some (.new .pending) ∧ (heldAfter 1).gas = some 7) ∧
    (heldAfter 2).entry = some (.new (.failed (transferOf [3] "a" none 2) [])) ∧
    (heldAfter 3).position [7] = some 1 ∧ ((heldAfter 4).entry = none ∧
      ¬ MayRemove submittedOnce.sentinel [2] "a" [9]) ∧ ∀ byte ∈ [(1 : UInt8), 2, 3, 4],
      ¬ Meets handle (KeepsApart bodies ShieldedPool.samplePrimitives unboundNodes frames
        amounts) boot [input 0, input byte] := by
  refine ⟨⟨submittedOnce_submitted, rfl, rfl, rfl⟩, by decide +kernel, by decide +kernel, rfl,
    ⟨rfl, stranger_may_not⟩, ?_⟩
  simp only [forall_mem_cons]
  refine ⟨fun h => ?_, fun h => ?_, fun h => ?_, fun h => ?_, forall_mem_nil _⟩
  · refine not_keepsApart (transferOf [3] "a" (some 7) 2) ⟨rfl, rfl, rfl⟩ rfl rfl
      (fun h => ?_) h.2.1
    exact absurd (congrArg Holding.gas h) (by decide +kernel)
  · refine not_keepsApart (transferOf [3] "a" none 2) ⟨rfl, rfl, rfl⟩ rfl rfl (fun h => ?_) h.2.1
    exact absurd (congrArg Holding.entry h) (by decide +kernel)
  · refine not_keepsApart (transferOf [3] "b" (some 1) 0) ⟨rfl, rfl, rfl⟩ rfl rfl
      (fun h => ?_) h.2.1
    exact absurd (congrArg (Holding.position · [7]) h) (by decide +kernel)
  · obtain ⟨message, hdecode, hmay⟩ := h.2.1.removal [2] "a"
      (by decide +kernel) (by decide +kernel) (by decide +kernel)
    obtain rfl : messageFrom [9] "Clear" [] = message := some.inj hdecode
    exact stranger_may_not hmay

end OneId

end Pneumatic
