import Pneumatic.Proofs.PoolRepresentation

/-!
# Durability: snapshot and restart

A Committer persists its pool as a list of deltas with a few redundant fields,
and a restart derives the tree, the root history, the spent set and the index
again. For the pool a run reaches the derivation ends where it began, except
that the view captured at boot is now the live history: `fromState_snapshot`.
The view is read by the roles and never by the pool, so the restarted pool
gives the verdicts the running one would have given.

The other direction needs no run. Whatever `from_state` accepts, the next
snapshot writes back, with the nullifiers in the order of their deltas.

Both directions stand or fall with the tip of the rebuilt history, and a window
of `usize::MAX` retains none once a delta is applied.
-/

namespace Pneumatic

open MerkleRootState

namespace ShieldedPool

open PoolState

variable {C : Codec} {P : ShieldedPrimitives}

/-- The verdicts of `apply_update` on a sequence of blocks. -/
def verdicts (C : Codec) (P : ShieldedPrimitives) :
    ShieldedPool → List (EnvironmentMetadata × Block) →
      List (Except CommitterError PoolApplyOutcome)
  | _, [] => []
  | pool, (env, block) :: rest =>
    (applyUpdate C P env pool block).2 :: verdicts C P (applyUpdate C P env pool block).1 rest

def withView (pool : ShieldedPool) (view : MerkleRootState) : ShieldedPool :=
  { pool with viewRoots := view }

/-- `apply_update` neither reads nor writes the boot-time view. -/
theorem applyUpdate_withView (env : EnvironmentMetadata) (pool : ShieldedPool)
    (view : MerkleRootState) (block : Block) : applyUpdate C P env (pool.withView view) block =
      ((applyUpdate C P env pool block).1.withView view, (applyUpdate C P env pool block).2) := by
  have hd : (pool.withView view).ownDeps = pool.ownDeps := rfl
  have hst : (pool.withView view).state = pool.state := rfl
  have hs : (pool.withView view).nullifiers = pool.nullifiers := rfl
  simp only [applyUpdate, hd, hst, hs]
  cases block.signedTrans.shielded with
  | none => rfl
  | some stx =>
    simp only
    split
    · rfl
    · cases validateShielded P env pool.ownDeps stx with
      | error e => rfl
      | ok r =>
        simp only
        split
        · rfl
        · split <;> rfl

theorem verdicts_withView (pool : ShieldedPool) (view : MerkleRootState)
    (blocks : List (EnvironmentMetadata × Block)) :
    verdicts C P (pool.withView view) blocks = verdicts C P pool blocks := by
  induction blocks generalizing pool with
  | nil => rfl
  | cons b blocks ih =>
    obtain ⟨env, block⟩ := b
    simp only [verdicts, applyUpdate_withView, ih]

variable {pool : ShieldedPool}

/-- The snapshot of a well-formed pool with a tip restores the pool. -/
theorem fromState_snapshot (h : PoolInv P pool)
    (htip : pool.recencyWindow ≠ Usize.max ∨ pool.state.applied = []) :
    fromState P pool.stateSnapshot pool.recencyWindow = .ok (pool.withView pool.state.roots) := by
  have hc := h.replayed.currentRoot_eq (htip.imp_left (mt (keep_eq_zero_iff _).mp))
  have hm := @markDeltas_eq pool.state.applied ∅ h.nodup (fun n _ => Finset.notMem_empty n)
  have hp : (spentBy pool.state.applied).isPerm
      (spentBy pool.state.applied) = true := List.isPerm_iff.mpr (.refl _)
  simp only [fromState, stateSnapshot, List.length_map, ne_eq,
    not_true_eq_false, if_false, rebuildState_replayed h.replayed, hc,
    hp, Bool.not_true, Bool.false_eq_true, hm, Finset.empty_union, ← h.spent_eq]
  rfl

theorem tip_of_fromState {stored : ShieldedPoolState} {k : Usize}
    (h : fromState P stored k = .ok pool) : k ≠ Usize.max ∨ stored.applied = [] := by
  have hres := fromState_ok h
  by_cases hk : k = Usize.max
  · refine .inr (by_contra fun ha => ?_)
    have htip := hres.tip_eq
    rw [currentRoot, hres.replayed.roots_eq_nil
      ((keep_eq_zero_iff k).mpr hk) (by rwa [hres.applied_eq])] at htip
    cases htip
  · exact .inl hk

/-- A restart reproduces the pool: its snapshot, its spent set, its root
history and its verdicts on whatever blocks come next. -/
def Durable (C : Codec) (P : ShieldedPrimitives) (pool : ShieldedPool) : Prop :=
  ∃ restored, fromState P pool.stateSnapshot pool.recencyWindow = .ok restored ∧
    restored.stateSnapshot = pool.stateSnapshot ∧
    restored.nullifiers = pool.nullifiers ∧
    restored.state.roots = pool.state.roots ∧
    ∀ blocks, verdicts C P restored blocks = verdicts C P pool blocks

/-- Two durable states that differ in the order of their nullifiers at most. -/
structure SameUpToOrder (s t : ShieldedPoolState) : Prop where
  root_eq : s.root = t.root
  leafCount_eq : s.leafCount = t.leafCount
  leaves_eq : s.leaves = t.leaves
  nullifiers_perm : s.nullifiers.Perm t.nullifiers
  applied_eq : s.applied = t.applied

/-- What `from_state` accepts, the next snapshot writes back. -/
theorem stateSnapshot_of_fromState {stored : ShieldedPoolState} {k : Usize}
    (h : fromState P stored k = .ok pool) : SameUpToOrder pool.stateSnapshot stored := by
  have hres := fromState_ok h
  have htip := tip_of_fromState h
  have hroom : keep k ≠ 0 ∨ pool.state.applied = [] := by
    rw [hres.applied_eq]
    exact htip.imp_left (mt (keep_eq_zero_iff k).mp)
  refine ⟨?_, ?_, hres.leaves_eq, ?_, hres.applied_eq⟩
  · have hc := hres.replayed.currentRoot_eq hroom
    rw [hres.tip_eq] at hc
    exact (Option.some.inj hc).symm
  · have hlen := congrArg List.length hres.leaves_eq
    rw [List.length_map] at hlen
    exact hlen.trans hres.leafCount_eq.symm
  · show (spentBy pool.state.applied).Perm stored.nullifiers
    rw [hres.applied_eq]
    exact hres.spent_perm

/-- In every state a run reaches, snapshot and restart are inverse to each other
exactly when the window leaves room for its successor or no delta is applied. -/
theorem durable_iff (k : Usize) (ops : List PoolOp) : (Durable C P (reached C P k ops) ∧
      ∀ stored restored, fromState P stored (reached C P k ops).recencyWindow = .ok restored →
        SameUpToOrder restored.stateSnapshot stored) ↔
    ((reached C P k ops).recencyWindow ≠ Usize.max ∨ (reached C P k ops).state.applied = []) := by
  have hinv := reached_inv (C := C) (P := P) k ops
  constructor
  · rintro ⟨⟨restored, hr, -⟩, -⟩
    exact tip_of_fromState hr
  · intro htip
    have hr := fromState_snapshot hinv htip
    refine ⟨⟨_, hr, rfl, rfl, rfl, verdicts_withView _ _⟩, ?_⟩
    exact fun stored restored h => stateSnapshot_of_fromState h

def overflowOps : List PoolOp :=
  [.call (.apply sampleEnv (sampleBlock [1]
    (sampleTransfer [65] (.ofNat 5) (.ofNat 6) (.ofNat 7) (toRepr 0))))]

/-- With a window of `usize::MAX` the transfer is applied, and the snapshot of
the pool makes the restart panic. -/
theorem not_durable_at_usizeMax : (reached sampleCodec samplePrimitives Usize.max
        overflowOps).state.applied.length = 1 ∧ fromState samplePrimitives
        (reached sampleCodec samplePrimitives Usize.max
          overflowOps).stateSnapshot Usize.max = .error .panicked ∧
      ¬ Durable sampleCodec samplePrimitives
        (reached sampleCodec samplePrimitives Usize.max overflowOps) := by
  have hp : fromState samplePrimitives (reached sampleCodec samplePrimitives Usize.max
        overflowOps).stateSnapshot Usize.max = .error .panicked := by
    decide +kernel
  have hw : (reached sampleCodec samplePrimitives Usize.max
      overflowOps).recencyWindow = Usize.max := by decide +kernel
  refine ⟨by decide +kernel, hp, ?_⟩
  rintro ⟨r, hr, -⟩
  rw [hw, hp] at hr
  cases hr

end ShieldedPool

end Pneumatic
