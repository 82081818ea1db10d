import Pneumatic.Finalizer.Finalizer
import Pneumatic.Lib.Interleaving

/-!
# The Finalizer's calls, step by step

`handle_preload` and `handle_signature` run as tasks side by side. None of them keeps a
lock from one look at a registry to the next, so between any two accesses of one call
others can come in: after the look whether an entry is there and before it is made,
between adding a vote and counting the votes, and everywhere from loading the entry to
booking it.

A step here is one access to what the calls share, with what the call works out for
itself before the next one. What a call answers is left out. A call that is not
interrupted does what the handler in `Finalizer` does (`handleDelivery_alone`).
-/

namespace Pneumatic

open Handler HandlerM Interleaving Finmap Option

structure HeldVote where
  txId : String
  voter : Bytes
  sig : TransactionSignature

/-- Where a call is: each constructor is named for the access it comes to next. -/
inductive FinalizerCall where
  -- `handle_preload`
  | contains (tx : Transaction)
  | refresh (tx : Transaction)
  | register (tx : Transaction)
  | preload (tx : Transaction)
  | firstSignature (txId : String)
  -- `handle_signature`
  | ensureRegistered (vote : HeldVote)
  | addSignature (vote : HeldVote)
  | signatureCount (vote : HeldVote)
  -- `try_finalize_optimistic`
  | load (vote : HeldVote)
  | finalizerKey (vote : HeldVote) (tx : Transaction)
  | finalizing (vote : HeldVote) (tx : Transaction) (finalizerKey : Bytes)
  | sendCommit (txId : String) (tx : Transaction) (signed : SignedTransaction)
  | sendFinalized (txId : String) (tx : Transaction) (block : Block)
  | sendClear (txId : String) (tx : Transaction) (block : Block)
  | committed (txId : String) (tx : Transaction) (block : Block)
  | removeTask (txId : String)
  | removeSignatures (txId : String)

section Calls

variable (C : Codec) (cfg : FinalizerConfig)

/-- `PendingTransactionRegistry::register_pending`. The insert has taken place when the
old entry is found: an entry that was there is replaced, and it is an error. -/
def insertPending (pending : PendingRegistry) (txId : String) : PendingRegistry × Bool :=
  (pending.insert txId (.new .pending), (pending.lookup txId).isNone)

/-- The branch of `handle_preload` for an entry that was there. -/
def refreshPreload (pending : PendingRegistry) (tx : Transaction) : PendingRegistry :=
  match pending.lookup tx.id with
  | none => pending
  | some _ => registerPreload pending tx

/-- `try_finalize_optimistic`, steps 3 and 4, and step 5. -/
def signAndMark (world : FinalizerWorld) (vote : HeldVote) (tx : Transaction)
    (finalizerKey : Bytes) (s : FinalizerState) : FinalizerState × Option FinalizerCall :=
  match (signFinalizerBlock C cfg world
      (buildSignedTransactionOptimistic cfg vote.sig tx vote.voter)).exec s with
  | (.error _, s) => (s, none)
  | (.ok signed, s) =>
    ({ s with pending := s.pending.setState vote.txId (.finalizing tx finalizerKey) },
      some (.sendCommit vote.txId tx signed))

/-- Step 1: the entry, and whether this node may finalize it. -/
def loadTransaction (world : FinalizerWorld) (vote : HeldVote) (s : FinalizerState) :
    Option FinalizerCall :=
  match s.pending.lookup vote.txId with
  | none => none
  | some entry =>
    match entry.state.live with
    | none => none
    | some held =>
      match finalizeAuthority C cfg world held with
      | .error _ => none
      | .ok () =>
        some (.finalizerKey vote { held with resultHash := vote.sig.transactionHash })

/-- A dispatch: what is sent if it goes out, and an early return if it fails. -/
def sendOut (reached : Bool) (message : Outbound) (next : FinalizerCall)
    (s : FinalizerState) : FinalizerState × Option FinalizerCall :=
  if reached then ({ s with outbox := s.outbox ++ [message] }, some next) else (s, none)

def advanceCall (world : FinalizerWorld) (call : FinalizerCall) (s : FinalizerState) :
    FinalizerState × Option FinalizerCall :=
  match call with
  | .contains tx =>
    (s, some (if (s.pending.lookup tx.id).isSome then .refresh tx else .register tx))
  | .refresh tx =>
    ({ s with pending := refreshPreload s.pending tx }, some (.firstSignature tx.id))
  | .register tx =>
    ({ s with pending := (insertPending s.pending tx.id).1 },
      if (insertPending s.pending tx.id).2 then some (.preload tx) else none)
  | .preload tx =>
    ({ s with pending := s.pending.setState tx.id (.preloaded tx) }, some (.firstSignature tx.id))
  | .firstSignature txId =>
    (s, (Pneumatic.firstSignature s txId).map fun vote => .load ⟨txId, vote.1, vote.2⟩)
  | .ensureRegistered vote =>
    ({ s with signatures := s.signatures.insert vote.txId (s.votes vote.txId) },
      some (.addSignature vote))
  | .addSignature vote =>
    match s.signatures.lookup vote.txId with
    | none => (s, none)
    | some votes =>
      if vote.voter ∈ votes then (s, none)
      else ({ s with
        signatures := s.signatures.insert vote.txId (votes.insert vote.voter vote.sig) },
        some (.signatureCount vote))
  | .signatureCount vote =>
    (s, if (s.votes vote.txId).keys.card = 1 then some (.load vote) else none)
  | .load vote => (s, loadTransaction C cfg world vote s)
  | .finalizerKey vote tx =>
    (s, some (.finalizing vote tx
      (((s.pending.lookup vote.txId).map fun entry => assignedKey entry.state).getD [])))
  | .finalizing vote tx finalizerKey => signAndMark C cfg world vote tx finalizerKey s
  | .sendCommit txId tx signed =>
    let block := createBlockOptimistic C cfg world signed (resolvePreviousHash world tx.tokenId)
    sendOut world.committersReached (.commit
        { transId := asBytes txId
          tokenId := tx.tokenId
          envId := cfg.envId
          proposedBlock := block })
      (.sendFinalized txId tx block) s
  | .sendFinalized txId tx block =>
    sendOut world.gossipReached (.blockFinalized block world.stakeSet) (.sendClear txId tx block) s
  | .sendClear txId tx block =>
    sendOut world.sentinelsReached (.clear txId) (.committed txId tx block) s
  | .committed txId tx block =>
    ({ s with pending := s.pending.setState txId (.committed tx block.currentHash) },
      some (.removeTask txId))
  | .removeTask txId =>
    ({ s with preloadTasks := s.preloadTasks.erase txId }, some (.removeSignatures txId))
  | .removeSignatures txId => ({ s with signatures := s.signatures.erase txId }, none)

/-- The start of a `handle_preload`, up to the task it stores. -/
def startPreload (world : FinalizerWorld) (message : Message) (s : FinalizerState) :
    FinalizerState × Option FinalizerCall :=
  match C.decodeTransaction message.body with
  | none => (s, none)
  | some tx =>
    match finalizeAuthority C cfg world tx with
    | .error _ => (s, none)
    | .ok () =>
      ({ s with preloadTasks := s.preloadTasks.insert tx.id (C.rmpTransaction tx) },
        some (.contains tx))

/-- The start of a `handle_signature`, up to its look at the routing decision. -/
def startSignature (world : FinalizerWorld) (message : Message) (s : FinalizerState) :
    Option FinalizerCall :=
  match C.decodeTransactionSignature message.body with
  | none => none
  | some vote =>
    match authenticateSignatureMessage C world message with
    | .error _ => none
    | .ok voter =>
      match checkExecutorSignature C voter vote with
      | .error _ => none
      | .ok () =>
        match finalizeAuthorityForId C cfg world s.pending vote.txId with
        | .error _ => none
        | .ok () => some (.ensureRegistered
            { txId := vote.txId
              voter := voter
              sig := { vote with currentStake := currentStakeForVoter world voter } })

def startCall (d : FinalizerDelivery) (s : FinalizerState) :
    FinalizerState × Option FinalizerCall :=
  match d.message with
  | .preload message => startPreload C cfg d.world message s
  | .sign message => (s, startSignature C cfg d.world message s)

abbrev BusyFinalizer := Interleaving.State FinalizerState FinalizerCall

/-- The start or one step of a call, with what the surroundings answer. -/
abbrev FinalizerTurn := Interleaving.Turn FinalizerDelivery FinalizerWorld

def finalizerTurn : BusyFinalizer → FinalizerTurn → BusyFinalizer :=
  Interleaving.turn (startCall C cfg) (advanceCall C cfg)

end Calls

variable {C : Codec} {cfg : FinalizerConfig} {world : FinalizerWorld}

theorem tryFinalizeOptimistic_alone (vote : HeldVote) (n : Nat) (s : FinalizerState) :
    alone (advanceCall C cfg) world (n + 9) (s, some (.load vote)) =
      (((tryFinalizeOptimistic C cfg world vote.txId vote.sig vote.voter).exec s).2, none) := by
  unfold tryFinalizeOptimistic
  rw [alone_succ]
  simp only [advanceCall, loadTransaction]
  cases he : s.pending.lookup vote.txId with
  | none => simp only [he, exec_bind, exec_getState, exec_ofOption_none, alone_ended]
  | some entry =>
    cases hl : entry.state.live with
    | none =>
      simp only [he, hl, exec_bind, exec_getState, exec_ofOption_none,
        exec_ofOption_some, alone_ended]
    | some held =>
      cases ha : finalizeAuthority C cfg world held with
      | error e =>
        simp only [he, hl, ha, exec_bind, exec_getState, exec_ofOption_some, exec_lift, alone_ended]
      | ok _ =>
        simp only [he, hl, ha, exec_bind, exec_getState,
          exec_ofOption_some, exec_lift, alone_succ, advanceCall, signAndMark,
          signFinalizerBlock, map_some, getD_some]
        cases world.signData (finalizerDigest C cfg.hashProvider
            (buildSignedTransactionOptimistic cfg vote.sig
              { held with resultHash := vote.sig.transactionHash } vote.voter)) with
        | none => simp only [exec_ofOption_none, alone_ended]
        | some sg =>
          simp only [exec_ofOption_some, exec_update, exec_pure, exec_require,
            alone_succ, advanceCall, sendOut]
          -- the three dispatches
          cases world.committersReached with
          | false => simp
          | true =>
            simp only [if_true, alone_succ, advanceCall, sendOut]
            cases world.gossipReached with
            | false => simp
            | true =>
              simp only [if_true, alone_succ, advanceCall, sendOut]
              cases world.sentinelsReached with
              | false => simp
              | true => simp [alone_succ, advanceCall]

theorem retryFinalizeFromCollected_alone (txId : String) (n : Nat) (s : FinalizerState) :
    alone (advanceCall C cfg) world (n + 10) (s, some (.firstSignature txId)) =
      (((retryFinalizeFromCollected C cfg world txId).exec s).2, none) := by
  unfold retryFinalizeFromCollected
  rw [alone_succ]
  simp only [advanceCall, exec_bind, exec_getState]
  cases hf : firstSignature s txId with
  | none => simp only [map_none, alone_ended, exec_pure]
  | some vote =>
    simp only [map_some, tryFinalizeOptimistic_alone]
    rfl

/-- The two ways to the registry come to what `registerPreload` does. -/
theorem registerPreload_alone (tx : Transaction) (n : Nat) (s : FinalizerState) :
    alone (advanceCall C cfg) world (n + 13) (s, some (.contains tx)) =
      (((retryFinalizeFromCollected C cfg world tx.id).exec
        { s with pending := registerPreload s.pending tx }).2, none) := by
  rw [alone_succ]
  simp only [advanceCall]
  cases he : s.pending.lookup tx.id with
  | none =>
    have hm : (insertPending s.pending tx.id).1.setState tx.id (.preloaded tx) =
        registerPreload s.pending tx := by
      simp only [insertPending, PendingRegistry.setState, registerPreload, he,
        lookup_insert, insert_insert]
      rfl
    have hf : (insertPending s.pending tx.id).2 = true := by
      simp only [insertPending, he, isNone_none]
    simp only [isSome_none, Bool.false_eq_true, if_false]
    rw [alone_succ]
    simp only [advanceCall, hf, if_true]
    rw [alone_succ]
    simp only [advanceCall, hm]
    rw [retryFinalizeFromCollected_alone]
  | some entry =>
    have hr : refreshPreload s.pending tx = registerPreload s.pending tx := by
      simp only [refreshPreload, he]
    simp only [isSome_some, if_true]
    rw [alone_succ]
    simp only [advanceCall, hr]
    exact retryFinalizeFromCollected_alone tx.id (n + 1) _

theorem handlePreload_alone (message : Message) (n : Nat) (s : FinalizerState) :
    alone (advanceCall C cfg) world (n + 13) (startPreload C cfg world message s) =
      (((handlePreload C cfg world message).exec s).2, none) := by
  unfold handlePreload startPreload
  simp only [exec_bind]
  cases C.decodeTransaction message.body with
  | none => simp only [exec_ofOption_none, alone_ended]
  | some tx =>
    simp only [exec_ofOption_some, exec_lift]
    cases finalizeAuthority C cfg world tx with
    | error e => simp only [alone_ended]
    | ok _ =>
      simp only [exec_update, registerPreload_alone]
      -- what the replay ends with is not looked at
      generalize (retryFinalizeFromCollected C cfg world tx.id).exec _ = r
      obtain ⟨reply | e, ended⟩ := r <;> rfl

theorem handleSignature_alone (message : Message) (n : Nat) (s : FinalizerState) :
    alone (advanceCall C cfg) world (n + 13) (s, startSignature C cfg world message s) =
      (((handleSignature C cfg world message).exec s).2, none) := by
  unfold handleSignature startSignature addSignature
  simp only [exec_bind]
  cases C.decodeTransactionSignature message.body with
  | none => simp only [exec_ofOption_none, alone_ended]
  | some vote =>
    simp only [exec_ofOption_some, exec_lift]
    cases authenticateSignatureMessage C world message with
    | error e => simp only [alone_ended]
    | ok voter =>
      dsimp only
      cases checkExecutorSignature C voter vote with
      | error e => simp only [alone_ended]
      | ok _ =>
        simp only [exec_getState]
        cases finalizeAuthorityForId C cfg world s.pending vote.txId with
        | error e => simp only [alone_ended]
        | ok _ =>
          simp only [exec_update, exec_require]
          rw [alone_succ]
          simp only [advanceCall]
          rw [alone_succ]
          simp only [advanceCall, lookup_insert, FinalizerState.votes, getD_some]
          by_cases hdup : voter ∈ (s.signatures.lookup vote.txId).getD ∅
          · simp only [hdup, if_true, not_true, if_false, alone_ended]
          · simp only [hdup, if_false, not_false_eq_true, if_true]
            rw [alone_succ]
            simp only [advanceCall, FinalizerState.votes, lookup_insert, getD_some]
            split
            · exact tryFinalizeOptimistic_alone _ (n + 1) _
            · rfl

/-- A delivery handled on its own is one step of `Finalizer`. -/
theorem handleDelivery_alone (d : FinalizerDelivery) (s : FinalizerState) :
    alone (advanceCall C cfg) d.world 13 (startCall C cfg d s) =
      (finalizerStep C cfg s d, none) := by
  unfold finalizerStep handleDelivery startCall
  cases d.message with
  | preload m => exact handlePreload_alone m 0 s
  | sign m => exact handleSignature_alone m 0 s

end Pneumatic
