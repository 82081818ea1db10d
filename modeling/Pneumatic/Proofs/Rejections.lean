import Pneumatic.Proofs.Authenticated
import Pneumatic.Sentinel.RejectionCalls

/-!
# A rejection that waits for itself

The guard that `handle_rejection` takes for the transition outlives the step only where
the entry is not in Finalizing, and from there on the call waits for its own guard: it
never returns, and with it every other access of that entry. A Finalizer may speak for a
transaction from its assignment on, so a Validated entry is enough; and between two
accesses of the call other handlers may do anything to the entry.

As long as no call waits for itself no guard is held between two steps, so nobody waits
for anyone else, and every turn takes a call one access closer to its end.
-/

namespace Pneumatic

open Handler HandlerM PendingTransactionRegistry Interleaving Run

variable {C : Codec} {S : SentinelCodec} {cfg : SentinelConfig} {m : EntryMachine}
  {t : EntryTurn} {txId : String} {sender : Bytes} {s : SentinelState}
  {world : SentinelWorld} {access next : EntryAccess}

/-- An entry that the transition can take: it is gone or in Finalizing. -/
def Reassignable (txId : String) (s : SentinelState) : Prop :=
  ∀ entry, s.registry.transactions.lookup txId = some entry →
    ∃ tx key, entry.state = .finalizing tx key

/-- A rejection that comes to its transition finds an entry that it can take. -/
def FindsFinalizing (m : EntryMachine) : EntryTurn → Prop
  | .start _ _ => True
  | .advance i _ => ∀ call ∈ m.calls i, ∀ newKey, call.next = .transition newKey →
      Reassignable call.txId m.shared.sentinel

/-- The accesses a call has at most to make. -/
def EntryAccess.left : EntryAccess → Nat
  | .acquire => 5
  | .check => 4
  | .reassign => 3
  | .transition _ => 2
  | .release | .other _ => 1

/-- The call whose turn it is ends or has fewer accesses left, and it is not in front of
one of an entry whose guard it holds. -/
def MovesOn (C : Codec) (S : SentinelCodec) (cfg : SentinelConfig) (m : EntryMachine) :
    EntryTurn → Prop
  | .start _ _ => True
  | .advance i world => ∀ call ∈ m.calls i,
      ∀ next ∈ (entryTurn C S cfg m (.advance i world)).calls i,
        next.next.left < call.next.left ∧ next.guard = false

/-! ## One access -/

/-- The guard is kept at a transition that cannot take its entry, and only there. -/
theorem keepsGuard_iff :
    (∃ next, (accessEntry C cfg world txId sender s access).2 = some (next, true)) ↔
      ∃ newKey, access = .transition newKey ∧ ¬ Reassignable txId s := by
  cases access with
  | transition newKey =>
    simp only [accessEntry, EntryAccess.transition.injEq, Reassignable, exists_eq_left']
    cases s.registry.transactions.lookup txId with
    | none => simp
    | some entry =>
      cases hs : entry.state with
      | finalizing tx key =>
        simp only [hs, Option.map_some]
        split <;> simp [hs]
      | _ => simp [hs]
  | _ =>
    simp only [accessEntry]
    grind

theorem left_of_accessEntry {guard : Bool}
    (h : (accessEntry C cfg world txId sender s access).2 = some (next, guard)) :
    next.left < access.left := by
  cases access <;> simp only [accessEntry] at h <;> grind [EntryAccess.left]

theorem ends_releaseQuietly {Q : Unit → SentinelState → Prop}
    {E : SentinelError → SentinelState → Prop} (h : ∀ t, Q () t) :
    Ends (releaseQuietly txId) s Q E := by
  simp only [releaseQuietly, onRegistry, ends_bind, ends_attempt, ends_zoom, ends_pure]
  exact Ends.mono ends_trivial (fun _ _ _ => h _) fun _ _ _ => h _

/-- The handler, which knows no guards, is stuck exactly where one is kept. -/
theorem reassignTo_returns_iff {newKey : Bytes} :
    Ends (reassignTo C cfg world txId newKey) s (fun _ _ => True)
        (fun e _ => ∀ id, e ≠ .deadlocked id) ↔
      ¬ ∃ next, (accessEntry C cfg world txId sender s (.transition newKey)).2 =
        some (next, true) := by
  simp only [keepsGuard_iff, EntryAccess.transition.injEq, exists_eq_left', not_not, Reassignable,
    reassignTo, ends_bind, ends_getState]
  cases s.registry.transactions.lookup txId with
  | none => exact iff_of_true (ends_bind.mpr (ends_releaseQuietly fun _ => by simp)) (by simp)
  | some entry =>
    cases hs : entry.state with
    | finalizing tx key =>
      refine iff_of_true ?_ (by simp [hs])
      simp only [ends_bind, ends_update, ends_lift, hs, Option.map_some]
      refine ⟨fun salt _ => ?_, fun e he => ?_⟩
      · split
        · next e he =>
          refine ends_bind.mpr (ends_releaseQuietly fun _ => ?_)
          unfold attestSelection at he
          dsimp only at he
          split at he <;> cases he
          simp
        · exact ends_bind.mpr (ends_releaseQuietly fun _ => by simp)
      · unfold reassignmentSalt selectionTip at he
        split at he
        · cases he
        · split at he <;> cases he
          simp
    | _ => simp [hs]

/-- What a turn of a call does: it waits for a guard, goes on without one, or keeps that
of its entry. -/
inductive AdvanceEffect (call : EntryCall) (g : GuardedSentinel) :
    GuardedSentinel × Option EntryCall → Prop
  | waits (hg : call.txId ∈ g.guarded) : AdvanceEffect call g (g, some call)
  | goesOn (s : SentinelState) (rest : Option EntryCall)
      (ht : ∀ newKey, call.next = .transition newKey → Reassignable call.txId g.sentinel)
      (hr : ∀ call', rest = some call' →
        call'.next.left < call.next.left ∧ call'.guard = false) :
      AdvanceEffect call g (⟨s, g.guarded⟩, rest)
  | stalls (s : SentinelState) (next : EntryAccess) (newKey : Bytes)
      (ht : call.next = .transition newKey) (hn : ¬ Reassignable call.txId g.sentinel) :
      AdvanceEffect call g
        (⟨s, insert call.txId g.guarded⟩, some { call with next, guard := true })

theorem advanceEffect (world : SentinelWorld) (call : EntryCall) (g : GuardedSentinel) :
    AdvanceEffect call g (entryAdvance C cfg world call g) := by
  have hkeep := @keepsGuard_iff C cfg call.txId call.sender g.sentinel world call.next
  have hleft := @left_of_accessEntry C cfg call.txId call.sender g.sentinel world call.next
  unfold entryAdvance
  generalize accessEntry C cfg world call.txId call.sender g.sentinel call.next = r at hkeep hleft
  obtain ⟨s, rest⟩ := r
  split
  · next hg => exact .waits hg
  cases rest with
  | none => exact .goesOn s none (by simpa using hkeep) nofun
  | some rest =>
    obtain ⟨next, guard⟩ := rest
    cases guard with
    | false =>
      refine .goesOn s _ (by simpa using hkeep) fun call' h => ?_
      cases h
      exact ⟨hleft rfl, rfl⟩
    | true =>
      obtain ⟨newKey, ht, hn⟩ := hkeep.mp ⟨next, rfl⟩
      exact .stalls s next newKey ht hn

/-! ## One turn -/

/-- Where no guard is held, a turn moves its call on exactly if a transition finds an entry
that it can take, and then no guard is held after it. -/
theorem movesOn_iff (hm : m.shared.guarded = ∅) :
    (MovesOn C S cfg m t ↔ FindsFinalizing m t) ∧
      (FindsFinalizing m t → (entryTurn C S cfg m t).shared.guarded = ∅) := by
  cases t with
  | start i input =>
    refine ⟨.rfl, fun _ => ?_⟩
    simp only [entryTurn, turn]
    split
    · exact hm
    · cases input <;> exact hm
  | advance i world =>
    cases hi : m.calls i with
    | none => simp [MovesOn, FindsFinalizing, entryTurn, turn, hi, hm]
    | some call =>
      have he := @advanceEffect C cfg world call m.shared
      simp only [MovesOn, FindsFinalizing, entryTurn, turn, hi, State.moved_shared,
        State.moved_calls, Option.mem_def, Option.some.injEq, forall_eq']
      generalize entryAdvance C cfg world call m.shared = r at he
      cases he with
      | waits hg => simp [hm] at hg
      | goesOn s rest ht hr => exact ⟨iff_of_true hr ht, fun _ => hm⟩
      | stalls s next newKey ht hn =>
        refine ⟨iff_of_false (fun h => ?_) fun h => hn (h newKey ht),
          fun h => absurd (h newKey ht) hn⟩
        cases (h _ rfl).2

/-- Guards are not given back, and a call whose entry is guarded waits. -/
theorem waits_turn {i : Nat} {call : EntryCall} (hc : m.calls i = some call)
    (hg : call.txId ∈ m.shared.guarded) :
    (entryTurn C S cfg m t).calls i = some call ∧
      call.txId ∈ (entryTurn C S cfg m t).shared.guarded := by
  refine turn_rule (p := fun m' => m'.calls i = some call ∧ call.txId ∈ m'.shared.guarded)
    ⟨hc, hg⟩ (fun j input _ hj => ?_) fun j world other _ hj => ?_
  · have hne : i ≠ j := fun he => by simp [he, hj] at hc
    refine ⟨(State.moved_calls_of_ne hne _).trans hc, ?_⟩
    cases input <;> exact hg
  · have he := @advanceEffect C cfg world other m.shared
    by_cases hij : i = j
    · subst hij
      cases hc.symm.trans hj
      rw [entryAdvance, if_pos hg]
      exact ⟨State.moved_calls .., hg⟩
    · refine ⟨(State.moved_calls_of_ne hij _).trans hc, ?_⟩
      rw [State.moved_shared]
      generalize entryAdvance C cfg world other m.shared = r at he
      cases he with
      | waits _ | goesOn _ _ _ _ => exact hg
      | stalls _ _ _ _ _ => exact Finset.mem_insert_of_mem hg

/-! ## Runs -/

theorem waits_run {i : Nat} {call : EntryCall} (hc : m.calls i = some call)
    (hg : call.txId ∈ m.shared.guarded) (more : List EntryTurn) :
    (run (entryTurn C S cfg) m more).calls i = some call :=
  (@run_invariant_of_step EntryMachine _ _
    (fun m' => m'.calls i = some call ∧ call.txId ∈ m'.shared.guarded) _
    (fun _ _ h => waits_turn h.1 h.2) more ⟨hc, hg⟩).1

/-- In any run of rejections and other accesses every turn brings its call closer to the
end, with no wait for a guard of its own, exactly if each transition finds the entry gone
or in Finalizing. A call whose entry stays guarded never comes there. -/
theorem rejection_returns_iff (C : Codec) (S : SentinelCodec) (cfg : SentinelConfig)
    (s : SentinelState) (turns : List EntryTurn) :
    (Meets (entryTurn C S cfg) (MovesOn C S cfg) (entryBoot s) turns ↔
      Meets (entryTurn C S cfg) FindsFinalizing (entryBoot s) turns) ∧
    ∀ i call, (run (entryTurn C S cfg) (entryBoot s) turns).calls i = some call →
      call.txId ∈ (run (entryTurn C S cfg) (entryBoot s) turns).shared.guarded →
      ∀ more, (run (entryTurn C S cfg) (entryBoot s) (turns ++ more)).calls i = some call := by
  refine ⟨⟨?_, ?_⟩, fun i call hc hg more => ?_⟩
  · exact @Meets.of_invariant _ _ _ _ (fun m => m.shared.guarded = ∅) _ _ _
      (fun m t hm h => (movesOn_iff hm).2 ((movesOn_iff hm).1.mp h))
      (fun m t hm => (movesOn_iff hm).1.mp) rfl
  · exact @Meets.of_invariant _ _ _ _ (fun m => m.shared.guarded = ∅) _ _ _
      (fun m t hm => (movesOn_iff hm).2) (fun m t hm => (movesOn_iff hm).1.mpr) rfl
  · rw [run_append]
    exact waits_run hc hg more

/-- A transaction assigned to the Finalizer `[2]`, with another one to go to. -/
def assignedHost : SentinelState :=
  { trustingHost.sentinel with
    registry := { new with
      transactions := (∅ : PendingRegistry).insert "a" (.new (.validated signedTransfer
        (.valid [2] (calculateRisk signedTransfer)))) }
    nodes := trustingHost.nodes.modify .finalizer
      fun nodes => nodes.insert [3] (.new oneStaked default) }

def rejectingWorld : SentinelWorld :=
  { (forgedFrame 0).world.sentinel with node := { oneStaked with order := fun _ => [[2], [3]] } }

/-- The call of the Finalizer's rejection, and its first four turns. -/
def rejectionTurns : List EntryTurn :=
  .start 0 (.reject ⟨[2], [], []⟩) :: List.replicate 4 (.advance 0 rejectingWorld)

/-- Its Finalizer rejects it before it is in Finalizing: with the fourth turn the call holds
the guard that it asks for, which is no move towards its end, and it never returns. -/
theorem validated_rejection_waits :
    ¬ Meets (entryTurn forgedBodies forgedFrames forgedSentinel)
        (MovesOn forgedBodies forgedFrames forgedSentinel) (entryBoot assignedHost)
        rejectionTurns ∧
      ∀ more, (run (entryTurn forgedBodies forgedFrames forgedSentinel) (entryBoot assignedHost)
        (rejectionTurns ++ more)).calls 0 = some ⟨"a", [2], .release, true⟩ := by
  refine ⟨fun h => ?_, fun more => ?_⟩
  · have hlast := h.2.2.2.2.1 _ rfl _ rfl
    exact absurd hlast.2 (by decide)
  · rw [run_append]
    exact waits_run rfl (by decide) more

end Pneumatic
