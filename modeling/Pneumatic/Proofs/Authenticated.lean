import Pneumatic.Lib.Codebook
import Pneumatic.NodeServer.Dispatch
import Pneumatic.Proofs.FinalizerAuthority
import Pneumatic.Proofs.SentinelEffects
import Pneumatic.Proofs.Votes

/-!
# What an unauthenticated frame changes on a composite host

The adapters of the Committer and of the Finalizer's votes check the signature
of a message before they do anything. Those of the Sentinel and the Executor
check none, and the Finalizer's preload none but the routing decision inside the
transaction. So a frame that nobody signed leaves the roles' state alone only
where its handler happens to have nothing to do, and the conditions below say
exactly where that is.
-/

namespace Pneumatic

open Handler HandlerM Run PendingTransactionRegistry Finmap Option HostState

/-- What the statement is about: the registry, the buckets and the epoch, and the
Executor's task tables. -/
def HostState.watched (s : HostState) :
    (PendingTransactionRegistry × NodeBuckets × Nat) × Finset String × Finset String :=
  (s.sentinel.shared, s.preloadTasks, s.activeTasks)

variable (C : Codec) (P : ShieldedPrimitives) (N : NodeCodec) (S : SentinelCodec) (cfg : HostConfig)

/-! ## Authenticated frames -/

/-- The key of the envelope has signed its body. -/
def Signed (message : WireMessage) : Prop :=
  C.checkSignature message.signature message.publicKey message.body = some true

/-- A frame that is signed, and the message inside as well when it goes to the
Sentinel. -/
def Authenticated (data : Bytes) : Prop :=
  ∃ message, S.decodeMessage data = some message ∧ Signed C message ∧ (message.action = "Verify" →
      ∃ inner, S.decodeMessage message.body = some inner ∧ Signed C inner)

/-! ## The conditions -/

/-- The entry is one a preload of the transaction leaves as it is. -/
def PreloadHeld (entry : PendingTransaction) (tx : Transaction) : Prop :=
  match entry.state with
  | .pending => False
  | .preloaded held => held = tx
  | .validated held _ => held = tx
  | .executing _ => False
  | _ => True

/-- What a Finalizer sends reaches everybody. -/
def FinalizerWorld.Reached (answers : FinalizerWorld) : Prop :=
  answers.committersReached = true ∧ answers.gossipReached = true ∧ answers.sentinelsReached = true

/-- A vote on an entry leads to a signed block. -/
structure LeadsToBlock (answers : FinalizerWorld) (entry : PendingTransaction)
    (voter : Bytes) (sig : TransactionSignature) (held : Transaction) : Prop where
  live : entry.state.live = some held
  authority : finalizeAuthority C cfg.finalizer answers held = .ok ()
  signs : answers.signData (finalizerDigest C cfg.finalizer.hashProvider
    (buildSignedTransactionOptimistic cfg.finalizer sig
      { held with resultHash := sig.transactionHash } voter)) ≠ none

/-- A vote that was collected for the transaction leads to no block, or to one
that does not reach everybody and leaves the entry as it was. -/
def ReplayHarmless (answers : FinalizerWorld) (s : FinalizerState) (txId : String)
    (entry : PendingTransaction) : Prop :=
  ∀ voter sig, firstSignature s txId = some (voter, sig) →
    ∀ held, LeadsToBlock C cfg answers entry voter sig held → ¬ answers.Reached ∧
        entry.state = .finalizing { held with resultHash := sig.transactionHash }
          (assignedKey entry.state)

/-- The Finalizer refuses the routing decision of a preload, or holds the
transaction already and a replay of its votes moves nothing. -/
def PreloadHarmless (answers : FinalizerWorld) (s : FinalizerState) (message : Message) : Prop :=
  ∀ tx, C.decodeTransaction message.body = some tx →
    finalizeAuthority C cfg.finalizer answers tx = .ok () →
    ∃ entry, s.pending.lookup tx.id = some entry ∧ PreloadHeld entry tx ∧
      ReplayHarmless C cfg answers s tx.id entry

/-- The condition on a message by the role it goes to. The Committer and the
Finalizer's other handlers refuse what is not signed. -/
def RoleHarmless (world : HostWorld) (s : HostState) (message : WireMessage) :
    NodeRegistryType → Prop
  | .sentinel =>
    ∀ inner, S.decodeMessage message.body = some inner →
      ∀ action, SentinelAction.ofString inner.action = some action →
        ActionHarmless C P N S cfg.sentinel world.sentinel s.sentinel inner.toMessage action
  | .executor =>
    ∀ tx, C.decodeTransaction message.body = some tx →
      ∃ entry, s.registry.transactions.lookup tx.id = some entry ∧ entry.state.isTerminal = true
  | .finalizer =>
    message.action = "PreloadForFinalizer" →
      PreloadHarmless C cfg (s.finalizerWorld cfg world) s.finalizerView message.toMessage
  | _ => True

/-- The host is stalled, or the frame is harmless for the one role that owns it. -/
def FrameHarmless (s : HostState) (frame : Frame) : Prop :=
  s.stalled = true ∨
  ∀ message, S.decodeMessage frame.data = some message →
    ∀ role, cfg.owners message.action = [role] → RoleHarmless C P N S cfg frame.world s message role

/-! ## The adapters -/

section Adapters

variable {C P N S cfg} {world : HostWorld} {s : HostState} {message : WireMessage}

/-- A handler that leaves what is watched as it was exactly under a condition. -/
def WatchedIff (m : HostM Unit) (s : HostState) (cond : Prop) : Prop :=
  Keeps m s fun after => (after.watched = s.watched ↔ cond)

theorem watched_setSentinel_iff {sentinel : SentinelState} :
    (s.setSentinel sentinel).watched = s.watched ↔ sentinel.shared = s.sentinel.shared := by
  simp [HostState.watched, HostState.setSentinel, HostState.sentinel, SentinelState.shared]

theorem watchedIff_handleSentinel : WatchedIff (handleSentinel C P N S cfg world message) s
      (RoleHarmless C P N S cfg world s message .sentinel) := by
  have hz : WatchedIff (zoom sentinel setSentinel RoleError.sentinel
      (onDataReceived C P N S cfg.sentinel world.sentinel message.body)) s
      (RoleHarmless C P N S cfg world s message .sentinel) := by
    refine ends_zoom.mpr (Keeps.mono leavesIff_onDataReceived fun after h => ?_)
    exact watched_setSentinel_iff.trans h
  have he := keeps_iff.mp hz
  refine keeps_iff.mpr ?_
  unfold handleSentinel exec
  unfold exec at he
  dsimp only
  split
  · next heq =>
    rw [heq] at he
    exact he
  · exact he

/-- A preload at the Executor leaves a terminal entry alone and makes sure that
there is a live one otherwise; with a lock more it is none that was there. -/
theorem preloadEntry_cases (registry : PendingTransactionRegistry) (tx : Transaction) :
    (∃ entry, registry.transactions.lookup tx.id = some entry ∧
      entry.state.isTerminal = true ∧ preloadEntry tx registry = registry) ∨
    ∃ entry, (preloadEntry tx registry).transactions.lookup tx.id = some entry ∧
      entry.state.isTerminal = false ∧ ∀ held, registry.transactions.lookup tx.id = some held →
        held.state.isTerminal = false ∧ held ≠ entry.locked := by
  unfold preloadEntry
  cases he : registry.transactions.lookup tx.id with
  | none => exact .inr ⟨_, lookup_insert _, rfl, fun _ h => by cases h⟩
  | some entry =>
    by_cases hp : entry.state = .pending
    · refine .inr ⟨{ entry with state := .preloaded tx }, ?_, rfl, ?_⟩
      · simp only [hp, if_true, setState, PendingRegistry.setState, he]
        exact lookup_insert _
      · rintro held ⟨⟩
        refine ⟨by rw [hp]; rfl, fun h => ?_⟩
        have := congrArg PendingTransaction.lockCount h
        simp [PendingTransaction.locked] at this
    · simp only [hp, if_false]
      cases ht : entry.state.isTerminal with
      | true => exact .inl ⟨entry, rfl, ht, trivial⟩
      | false =>
        refine .inr ⟨entry, he, ht, ?_⟩
        rintro held ⟨⟩
        exact ⟨ht, entry.locked_ne.symm⟩

theorem watchedIff_handleExecutor : WatchedIff (handleExecutor C cfg message) s
      (RoleHarmless C P N S cfg world s message .executor) := by
  refine ends_zoom.mpr (keeps_decode_iff (R := fun t => (s.setExecutor t).watched = s.watched)
    rfl fun tx _ => ?_)
  refine ends_bind.mpr (ends_update.mpr (ends_bind.mpr (ends_zoom.mpr ?_)))
  obtain ⟨entry, he, ht, hs⟩ | ⟨entry, he, hlv, hhl⟩ :=
    preloadEntry_cases s.registry tx
  · have hrf : ∀ other, s.registry.transactions.lookup tx.id = some other →
        other.state.isTerminal = true := by
      intro other ho
      cases he.symm.trans ho
      exact ht
    refine Ends.mono (acquireTransaction_refused ?_) (fun _ _ h => h.elim) ?_
    · exact hs ▸ hrf
    · rintro e after rfl
      refine iff_of_true ?_ ⟨entry, he, ht⟩
      change (s.setExecutor { s.executor with
        registry := preloadEntry tx s.registry }).watched = s.watched
      rw [hs]
      rfl
  · -- the lock is there to be seen, whether or not the task is taken on
    have hc : ∀ preloadTasks ac, ¬ ((s.setExecutor
        { registry := (preloadEntry tx s.registry).put tx.id entry.locked
          preloadTasks := preloadTasks
          activeTasks := ac }).watched = s.watched) := by
      intro preloadTasks ac hs
      have hr : (preloadEntry tx s.registry).put tx.id entry.locked =
        s.registry := congrArg (·.1.1) hs
      have hl : ((preloadEntry tx s.registry).put tx.id entry.locked).transactions.lookup
          tx.id = some entry.locked := lookup_put
      rw [hr] at hl
      exact (hhl _ hl).2 rfl
    have hls : ¬ ∃ entry, s.registry.transactions.lookup tx.id = some entry ∧
        entry.state.isTerminal = true := by
      rintro ⟨held, hl, ht⟩
      rw [(hhl held hl).1] at ht
      cases ht
    refine (acquireTransaction_ok he hlv).mpr ?_
    simp only [ends_bind, ends_getState, ends_require, ends_update]
    exact ⟨fun _ => iff_of_false (hc _ _) hls, fun _ => iff_of_false (hc _ _) hls⟩

/-! ### A preload at the Finalizer -/

/-- A state that only a finalization leads to. -/
def TransactionState.Sealed : TransactionState → Prop
  | .finalizing _ _ => True
  | .committed _ _ => True
  | _ => False

/-- A preload that changes an entry changes one that is not sealed. -/
theorem registerPreload_cases (pending : PendingRegistry) (tx : Transaction) :
    (∃ entry, pending.lookup tx.id = some entry ∧ PreloadHeld entry tx ∧
      registerPreload pending tx = pending) ∨
    ((¬ ∃ entry, pending.lookup tx.id = some entry ∧ PreloadHeld entry tx) ∧
      (registerPreload pending tx).lookup tx.id ≠ pending.lookup tx.id ∧
      ∀ entry, pending.lookup tx.id = some entry → ¬ entry.state.Sealed) := by
  unfold registerPreload
  cases he : pending.lookup tx.id with
  | none =>
    refine .inr ⟨by simp, ?_, fun _ h => by cases h⟩
    rw [lookup_insert]
    exact some_ne_none _
  | some entry =>
    obtain ⟨state, lc⟩ := entry
    have hm : ∀ t, state ≠ t →
        (pending.setState tx.id t).lookup tx.id ≠ some ⟨state, lc⟩ := by
      intro t hne h
      unfold PendingRegistry.setState at h
      rw [he, lookup_insert] at h
      cases h
      exact hne rfl
    have hk : ∀ t, state = t → pending.setState tx.id t = pending := by
      rintro t rfl
      rw [PendingRegistry.setState_eq_self_iff, he]
      rintro entry ⟨⟩
      rfl
    cases state with
    | pending | executing held =>
      refine .inr ⟨by simp [PreloadHeld], hm _ (by simp), ?_⟩
      simp [TransactionState.Sealed]
    | preloaded held | validated held v =>
      by_cases hs : held = tx
      · exact .inl ⟨_, rfl, hs, hk _ (by rw [hs])⟩
      · refine .inr ⟨by simp [PreloadHeld, hs], hm _ (by simp [hs]), ?_⟩
        simp [TransactionState.Sealed]
    | _ => exact .inl ⟨_, rfl, trivial, rfl⟩

section Replay

variable {answers : FinalizerWorld} {f : FinalizerState} {txId : String}
  {sig : TransactionSignature} {voter : Bytes}

theorem tryFinalizeOptimistic_pending_cases :
    Keeps (tryFinalizeOptimistic C cfg.finalizer answers txId sig voter) f fun after =>
      (after.pending = f.pending ∧ ∀ entry, f.pending.lookup txId = some entry →
        ∀ held, ¬ LeadsToBlock C cfg answers entry voter sig held) ∨
      ∃ entry held, f.pending.lookup txId = some entry ∧
        LeadsToBlock C cfg answers entry voter sig held ∧
        ∃ state, after.pending = f.pending.insert txId { entry with state := state } ∧
          (answers.Reached → ∃ hash, state =
            .committed { held with resultHash := sig.transactionHash } hash) ∧
          (¬ answers.Reached → state = .finalizing { held with resultHash := sig.transactionHash }
              (assignedKey entry.state)) := by
  simp only [Keeps, tryFinalizeOptimistic, signFinalizerBlock, ends_bind, ends_getState,
    ends_ofOption, ends_lift, ends_update, ends_require, ends_pure]
  cases he : f.pending.lookup txId with
  | none => simp
  | some entry =>
    simp only [some.injEq, forall_eq', reduceCtorEq, false_imp_iff, and_true]
    have hset : ∀ state, f.pending.setState txId state =
        f.pending.insert txId { entry with state := state } := by
      intro state
      unfold PendingRegistry.setState
      rw [he]
    have hset' : ∀ entry' state,
        PendingRegistry.setState (f.pending.insert txId entry') txId state =
        f.pending.insert txId { entry' with state := state } := by
      intro entry' state
      unfold PendingRegistry.setState
      rw [lookup_insert]
      exact insert_insert _
    simp only [hset, hset']
    refine ⟨fun held hlv => ⟨fun _ ha => ⟨fun sg hsg => ?_, ?_⟩, ?_⟩, ?_⟩
    · have hl : LeadsToBlock C cfg answers entry voter sig held :=
        ⟨hlv, ha, by rw [hsg]; exact some_ne_none _⟩
      -- from here on only the transport can fail
      refine ⟨fun hc => ⟨fun hg => ⟨fun hs => ?_, fun h => ?_⟩, fun h => ?_⟩, fun h => ?_⟩
      · exact .inr ⟨entry, held, rfl, hl, _, rfl, fun _ => ⟨_, rfl⟩, fun h => absurd ⟨hc, hg, hs⟩ h⟩
      · exact .inr ⟨entry, held, rfl, hl, _, rfl, fun hall => absurd hall.2.2 h, fun _ => rfl⟩
      · exact .inr ⟨entry, held, rfl, hl, _, rfl, fun hall => absurd hall.2.1 h, fun _ => rfl⟩
      · exact .inr ⟨entry, held, rfl, hl, _, rfl, fun hall => absurd hall.1 h, fun _ => rfl⟩
    · intro hn
      refine .inl ⟨trivial, fun held' h => h.signs ?_⟩
      cases hlv.symm.trans h.live
      exact hn
    · intro e her
      refine .inl ⟨trivial, fun held' h => ?_⟩
      cases hlv.symm.trans h.live
      cases her.symm.trans h.authority
    · intro hd
      refine .inl ⟨trivial, fun held' h => ?_⟩
      cases hd.symm.trans h.live

/-- A replay leaves an entry that is there alone exactly under the condition. -/
theorem keeps_retryFinalizeFromCollected_iff {entry : PendingTransaction}
    (he : f.pending.lookup txId = some entry) :
    Keeps (retryFinalizeFromCollected C cfg.finalizer answers txId) f fun after =>
      (after.pending = f.pending ↔ ReplayHarmless C cfg answers f txId entry) := by
  unfold Keeps retryFinalizeFromCollected
  rw [ends_bind, ends_getState]
  split
  · next hn =>
    refine iff_of_true rfl fun voter sig h => ?_
    rw [hn] at h
    cases h
  · next voter sig hf =>
    simp only [ends_bind, ends_attempt, ends_pure]
    refine Keeps.mono tryFinalizeOptimistic_pending_cases ?_
    rintro after (⟨hsm, hn⟩ | ⟨entry', held, he', hl, state, ha, hr, hst⟩)
    · refine iff_of_true hsm fun voter' sig' hf' held hl => ?_
      cases hf.symm.trans hf'
      exact absurd hl (hn entry he held)
    · cases he.symm.trans he'
      rw [ha, insert_eq_self_iff, he, some.injEq, eq_comm, PendingTransaction.withState_eq_self_iff]
      constructor
      · intro hs voter' sig' hf' held' hl'
        cases hf.symm.trans hf'
        cases hl.live.symm.trans hl'.live
        have hnot : ¬ answers.Reached := by
          intro hall
          obtain ⟨hash, hc⟩ := hr hall
          have hlv := hl.live
          rw [hs, hc] at hlv
          cases hlv
        exact ⟨hnot, hs.trans (hst hnot)⟩
      · intro hh
        obtain ⟨hnot, hs⟩ := hh voter sig hf held hl
        rw [hst hnot]
        exact hs

/-- A replay leaves the entry alone or seals it. -/
theorem keeps_retryFinalizeFromCollected_sealed :
    Keeps (retryFinalizeFromCollected C cfg.finalizer answers txId) f fun after =>
      after.pending.lookup txId = f.pending.lookup txId ∨
      ∃ entry, after.pending.lookup txId = some entry ∧ entry.state.Sealed := by
  unfold Keeps retryFinalizeFromCollected
  rw [ends_bind, ends_getState]
  split
  · exact .inl rfl
  · simp only [ends_bind, ends_attempt, ends_pure]
    refine Keeps.mono tryFinalizeOptimistic_pending_cases ?_
    rintro after (⟨hsm, -⟩ | ⟨entry, held, -, -, state, ha, hr, hs⟩)
    · exact .inl (by rw [hsm])
    · refine .inr ⟨{ entry with state := state }, by rw [ha, lookup_insert], ?_⟩
      by_cases hall : answers.Reached
      · obtain ⟨hash, hst⟩ := hr hall
        simp [hst, TransactionState.Sealed]
      · simp [hs hall, TransactionState.Sealed]

theorem keeps_handlePreload_iff {message : Message} :
    Keeps (handlePreload C cfg.finalizer answers message) f fun after =>
      (after.pending = f.pending ↔ PreloadHarmless C cfg answers f message) := by
  refine keeps_decode_iff (by rfl) fun tx _ => ?_
  refine keeps_check_iff (by rfl) fun _ => ?_
  refine ends_bind.mpr (ends_update.mpr (ends_bind.mpr ?_))
  obtain ⟨entry, he, hh, hsm⟩ | ⟨hn, hm, hu⟩ := registerPreload_cases f.pending tx
  · rw [hsm]
    refine Keeps.mono (keeps_retryFinalizeFromCollected_iff he) fun after haf => haf.trans ?_
    constructor
    · exact fun hr => ⟨entry, he, hh, hr⟩
    · rintro ⟨entry', he', -, hr⟩
      cases he.symm.trans he'
      exact hr
  · refine Keeps.mono keeps_retryFinalizeFromCollected_sealed
      fun after haf => iff_of_false (fun hb => ?_) ?_
    · rw [hb] at haf
      rcases haf with hl | ⟨entry, he, hs⟩
      · exact hm hl.symm
      · exact hu entry he hs
    · rintro ⟨entry, he, hh, -⟩
      exact hn ⟨entry, he, hh⟩

end Replay

theorem watched_setFinalizer_iff {finalizer : FinalizerState} :
    (s.setFinalizer finalizer).watched = s.watched ↔
      finalizer.pending = s.finalizerView.pending := by
  have hr : ({ s.registry with transactions := finalizer.pending } :
      PendingTransactionRegistry) = s.registry ↔
      finalizer.pending = s.registry.transactions :=
    ⟨congrArg transactions, fun h => by rw [h]⟩
  simp [watched, setFinalizer, finalizerView, sentinel, SentinelState.shared, hr]

theorem watchedIff_handlePreload : WatchedIff (onFinalizer cfg world fun answers =>
        handlePreload C cfg.finalizer answers message.toMessage) s
      (PreloadHarmless C cfg (s.finalizerWorld cfg world) s.finalizerView message.toMessage) := by
  refine ends_bind.mpr (ends_getState.mpr (ends_bind.mpr (ends_zoom.mpr ?_)))
  exact Keeps.mono keeps_handlePreload_iff fun after h => watched_setFinalizer_iff.trans h

/-! ### What is refused unsigned -/

theorem authenticateEnvelope_unsigned (roles : Bytes → List NodeRegistryType)
    (hu : ¬ Signed C message) :
    ∃ e, authenticateEnvelope C roles message.toMessage = .error e := by
  unfold authenticateEnvelope
  split
  · exact ⟨_, rfl⟩
  · exact ⟨_, rfl⟩
  · next h => exact absurd h hu

theorem watchedIff_handleCommitter (hu : ¬ Signed C message) :
    WatchedIff (handleCommitter C cfg world message) s True := by
  obtain ⟨e, he⟩ := authenticateEnvelope_unsigned (s.roles cfg world) hu
  refine ends_bind.mpr (ends_getState.mpr ?_)
  simp [authenticateMessage, he]

theorem watchedIff_handleShielded (hu : ¬ Signed C message) :
    WatchedIff (handleShielded C cfg world message) s True := by
  obtain ⟨e, he⟩ := authenticateEnvelope_unsigned (s.roles cfg world) hu
  refine ends_bind.mpr (ends_getState.mpr ?_)
  cases e <;> simp [authenticateShieldedMessage, he]

theorem watchedIff_handleSignature (hu : ¬ Signed C message) :
    WatchedIff (onFinalizer cfg world fun answers =>
      handleSignature C cfg.finalizer answers message.toMessage) s True := by
  obtain ⟨e, he⟩ := authenticateEnvelope_unsigned (s.roles cfg world) hu
  have hr : ∃ e, authenticateSignatureMessage C (s.finalizerWorld cfg world)
      message.toMessage = .error e := by
    unfold authenticateSignatureMessage finalizerWorld
    cases e <;> simp [he]
  obtain ⟨e', he'⟩ := hr
  refine ends_bind.mpr (ends_getState.mpr (ends_bind.mpr (ends_zoom.mpr ?_)))
  have hk : Keeps (handleSignature C cfg.finalizer (s.finalizerWorld cfg world)
      message.toMessage) s.finalizerView fun after => after = s.finalizerView := by
    simp [Keeps, handleSignature, he']
  refine hk.mono ?_
  rintro after rfl
  exact iff_of_true (watched_setFinalizer_iff.mpr rfl) trivial

theorem watchedIff_handleFinalizer (hu : ¬ Signed C message) :
    WatchedIff (handleFinalizer C cfg world message) s
      (RoleHarmless C P N S cfg world s message .finalizer) := by
  unfold handleFinalizer RoleHarmless
  split
  · next ha => exact Keeps.mono watchedIff_handlePreload fun _ h => h.trans (by simp [ha])
  · next ha =>
    have hc : (message.action = "PreloadForFinalizer" → PreloadHarmless C cfg
        (s.finalizerWorld cfg world) s.finalizerView message.toMessage) ↔ True :=
      iff_true_intro fun h => absurd h ha
    rw [hc]
    split
    · exact watchedIff_handleSignature hu
    · split
      · exact watchedIff_handleShielded hu
      · exact iff_of_true rfl trivial

variable {role : NodeRegistryType}

theorem watchedIff_handleRole (hu : role ≠ .sentinel → ¬ Signed C message) :
    WatchedIff (handleRole C P N S cfg world message role) s
      (RoleHarmless C P N S cfg world s message role) := by
  cases role with
  | committer => exact watchedIff_handleCommitter (hu (by simp))
  | executor => exact watchedIff_handleExecutor
  | sentinel => exact watchedIff_handleSentinel
  | finalizer => exact watchedIff_handleFinalizer (hu (by simp))
  | archiver => exact iff_of_true rfl trivial

theorem action_of_owners {action : String}
    (h : cfg.owners action = [role]) : action ∈ allowedActions role := by
  have hmem : role ∈ cfg.owners action := by rw [h]; exact List.mem_singleton_self _
  simpa [HostConfig.owners] using (List.mem_filter.mp hmem).2

theorem unsigned_of_owners {data : Bytes}
    (hf : ¬ Authenticated C S data) (hd : S.decodeMessage data = some message)
    (ho : cfg.owners message.action = [role]) : role ≠ .sentinel → ¬ Signed C message := by
  intro hr hs
  refine hf ⟨message, hd, hs, fun hv => ?_⟩
  have ha := action_of_owners ho
  rw [hv] at ha
  cases role <;>
    simp [allowedActions, committerActions, executorActions, finalizerActions] at ha hr

theorem hostStep_watched_iff {frame : Frame} (hf : ¬ Authenticated C S frame.data) :
    (hostStep C P N S cfg s frame).watched = s.watched ↔ FrameHarmless C P N S cfg s frame := by
  refine (keeps_iff (P := fun after : HostState =>
    (after.watched = s.watched ↔ FrameHarmless C P N S cfg s frame))).mp ?_
  refine ends_bind.mpr (ends_ofOption.mpr ⟨fun message hd => ?_, fun hd => ?_⟩)
  · refine ends_bind.mpr (ends_getState.mpr (ends_bind.mpr (ends_require.mpr
      ⟨fun hr => ?_, fun hs => ?_⟩)))
    · have hc : FrameHarmless C P N S cfg s frame ↔ ∀ role, cfg.owners message.action = [role] →
            RoleHarmless C P N S cfg frame.world s message role := by
        simp [FrameHarmless, hd, hr]
      rw [hc]
      unfold dispatch
      split
      · next ho => exact iff_of_true rfl fun role h => by rw [ho] at h; cases h
      · next role ho =>
        refine Keeps.mono (watchedIff_handleRole
          (unsigned_of_owners hf hd ho)) fun after h => h.trans ?_
        simp [ho]
      · next roles hnil hone =>
        exact iff_of_true rfl fun role h => absurd h (hone role)
    · exact iff_of_true rfl (.inl (by simpa using hs))
  · refine iff_of_true rfl (.inr fun message h => ?_)
    rw [hd] at h
    cases h

end Adapters

/-! ## Runs -/

/-- Along a run only authenticated frames change what is watched. -/
def OnlyAuthenticatedChange (s : HostState) (frames : List Frame) : Prop :=
  ∀ pre frame post, frames = pre ++ frame :: post → ¬ Authenticated C S frame.data →
    (hostStep C P N S cfg (run (hostStep C P N S cfg) s pre) frame).watched =
      (run (hostStep C P N S cfg) s pre).watched

variable {C P N S cfg}

/-- Only authenticated frames change what is watched exactly when every other
frame meets its condition in the state it comes to. -/
theorem onlyAuthenticatedChange_iff (s : HostState) (frames : List Frame) :
    OnlyAuthenticatedChange C P N S cfg s frames ↔ Meets (hostStep C P N S cfg)
        (fun s frame => ¬ Authenticated C S frame.data →
          FrameHarmless C P N S cfg s frame) s frames := by
  rw [meets_iff_forall]
  refine forall₄_congr fun pre frame post _ => ?_
  exact imp_congr_right fun hf => hostStep_watched_iff hf

/-! ## Four forged frames -/

/-- A codec in which the signature of a key is the key, and bodies decode to a
block of the fifth epoch or a transaction. -/
def forgedBodies : Codec :=
  { keySigning with
    decodeBlock := fun _ => some { votedBlock with epochNumber := 5 }
    decodeTransaction := fun _ => some signedTransfer }

/-- A message under the key of a Finalizer, with nobody's signature. -/
def unsignedMessage (action : String) (body : Bytes) : WireMessage where
  publicKey := [2]
  signature := []
  body := body
  chainId := "chain"
  action := action
  stakeSet := none

/-- Three frames for the Sentinel with the messages in them, and one for the
Executor. -/
def forgedMessages : List (WireMessage × Bytes) :=
  [(unsignedMessage "Verify" [10], [0]), (unsignedMessage "BlockFinalized" [], [10]),
    (unsignedMessage "Verify" [11], [1]), (unsignedMessage "Clear" [], [11]),
    (unsignedMessage "Verify" [12], [2]), (unsignedMessage "Register" [], [12]),
    (unsignedMessage "Preload" [], [3])]

theorem length_forgedRhash : (List.replicate 16 (9 : UInt8)).length = 16 := rfl

def forgedFrames : SentinelCodec where
  decodeMessage := Codebook.decode forgedMessages
  decodeTxId _ := some "a"
  decodeRegistryRequest _ := some
    { requesterKey := [1]
      rhash := ⟨List.replicate 16 9, length_forgedRhash⟩
      requesterTypes := [.archiver]
      requestedType := .archiver
      bindingSignature := [1] }
  decodeShielded _ := none

def forgedSentinel : SentinelConfig where
  node := tenOfEach
  env := ShieldedPool.sampleEnv
  specs _ := none
  baseCost := 0
  amountMultiplier _ := none
  shardCount := 1
  select _ _ _ _ := none
  selectShard _ _ _ _ _ := none

def forgedHost : HostConfig where
  hosts := [.sentinel, .executor]
  sentinel := forgedSentinel
  finalizer := sampleFinalizer
  committer := votingSetup
  maxInFlight := 1

def forgedFrame (byte : UInt8) : Frame where
  world :=
    { sentinel :=
        { node := oneStaked
          getToken := fun _ => none
          getStakeSnapshot := fun _ => none
          getExecutorSet := fun _ => none
          signData := fun _ => none
          poolView := ⟨∅, []⟩
          finalizerReached := fun _ => false
          executorReached := fun _ => false }
      finalizer := sampleWorld
      authenticated := fun _ => pure () }
  data := [byte]

/-- A host with one pending transaction that knows `[2]` for a Finalizer. -/
def trustingHost : HostState where
  registry := { new with
    transactions := (∅ : PendingRegistry).insert "a" (.new .pending) }
  nodes := NodeBuckets.fresh.modify .finalizer
    fun nodes => nodes.insert [2] (.new oneStaked default)
  currentEpoch := 0
  stakeSnapshots := ∅
  executorSets := ∅
  preloadTasks := ∅
  activeTasks := ∅
  finalizer := .new
  stalled := false

def afterForged (byte : UInt8) : HostState :=
  hostStep forgedBodies ShieldedPool.samplePrimitives unboundNodes forgedFrames forgedHost
    trustingHost (forgedFrame byte)

theorem not_authenticated_forged (data : Bytes) :
    ¬ Authenticated forgedBodies forgedFrames data := by
  rintro ⟨message, hd, hs, -⟩
  have hf : ∀ entry ∈ forgedMessages, entry.1.signature = [] ∧ entry.1.publicKey = [2] := by decide
  have hk : message.signature = [] ∧ message.publicKey = [2] :=
    hf _ (Codebook.mem_of_decode hd)
  simp [Signed, forgedBodies, keySigning, hk] at hs

/-- Frames that nobody signed advance the epoch, remove a transaction, register a
node and start a task. -/
theorem forged_frames_accepted :
    (∀ byte, ¬ Authenticated forgedBodies forgedFrames (forgedFrame byte).data) ∧
    (trustingHost.currentEpoch = 0 ∧ (afterForged 0).currentEpoch = 5) ∧
    ("a" ∈ trustingHost.registry.transactions ∧ "a" ∉ (afterForged 1).registry.transactions) ∧
    ([1] ∉ trustingHost.nodes .archiver ∧ [1] ∈ (afterForged 2).nodes .archiver) ∧
    (trustingHost.activeTasks = ∅ ∧ (afterForged 3).activeTasks = {signedTransfer.id}) ∧
    ¬ OnlyAuthenticatedChange forgedBodies ShieldedPool.samplePrimitives unboundNodes
      forgedFrames forgedHost trustingHost [forgedFrame 0] := by
  refine ⟨fun _ => not_authenticated_forged _, ?_, ?_, ?_, ?_, fun h => ?_⟩
  · decide +kernel
  · decide +kernel
  · decide +kernel
  · decide +kernel
  · have hs := h [] (forgedFrame 0) [] rfl (not_authenticated_forged _)
    have he : (afterForged 0).currentEpoch = 0 := congrArg (·.1.2.2) hs
    revert he
    decide +kernel

end Pneumatic
