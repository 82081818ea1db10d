import Pneumatic.Lib.Run
import Pneumatic.Proofs.PoolReplay

/-!
# The pool over whole runs

One inversion lemma per mutator says everything a call can do. `apply_update`
either leaves the pool as it was or performs exactly one round: the early
returns after the spent set is marked are dead, because the structural check
allows one nullifier that the re-check has just seen to be absent and one
output that has just been decoded. `revert_update` either refuses an unknown
hash or removes the delta the index points at and rebuilds the rest.

`PoolInv` is what survives every call, failing ones included: the guarded state
is a replay, and the spent set is the nullifiers of the deltas, each once. A
window of `usize::MAX` retains no root at all, so a pool with that window takes
one delta at most; that clause is what keeps the rebuild after a revert from
hitting an empty history.
-/

namespace Pneumatic

open Finmap List ShieldedPool MerkleRootState

namespace ShieldedPool

open PoolState NullifierRegistry

variable {C : Codec} {P : ShieldedPrimitives}

abbrev spentBy (ds : List AppliedPoolDelta) : List Bytes32 :=
  ds.flatMap AppliedPoolDelta.nullifiers

/-- The pool is a replay of its deltas, and what they spend is spent once. -/
structure PoolInv (P : ShieldedPrimitives) (pool : ShieldedPool) : Prop where
  replayed : Replayed P pool.recencyWindow pool.state
  spent_eq : pool.nullifiers = (spentBy pool.state.applied).toFinset
  nodup : (spentBy pool.state.applied).Nodup
  small : MerkleRootState.keep pool.recencyWindow = 0 → pool.state.applied.length ≤ 1

/-! ## `apply_update` -/

/-- The pool after a round for a shielded transaction. -/
def afterRound (P : ShieldedPrimitives) (pool : ShieldedPool) (key : Bytes)
    (stx : ShieldedTransaction) (fs : List Fp) : ShieldedPool :=
  { pool with
    nullifiers := pool.nullifiers ∪ stx.nullifiers.toFinset
    state := (appendLeaves P pool.state fs).recordDelta key (fs.map toRepr)
      stx.nullifiers }

/-- The circumstances of a round: the block's hash is new, the re-check
accepted, and the leaves are those of the outputs. -/
structure Round (C : Codec) (P : ShieldedPrimitives) (env : EnvironmentMetadata)
    (pool : ShieldedPool) (block : Block) (stx : ShieldedTransaction)
    (fs : List Fp) : Prop where
  shielded : block.signedTrans.shielded = some stx
  fresh : blockKey C block ∉ pool.state.appliedIndex
  accepted : ∃ r, validateShielded P env pool.ownDeps stx = .ok r
  leaves : List.Forall₂ (fun c f => commitmentLeaf P c = .ok f) stx.commitments fs

variable {block : Block} {env : EnvironmentMetadata} {fs : List Fp} {pool : ShieldedPool}
  {stx : ShieldedTransaction} {ds es : List AppliedPoolDelta} {d : AppliedPoolDelta}
  {i : Nat} {k : Usize}

theorem Round.shape (h : Round C P env pool block stx fs) :
    ∃ n spent out pb, SpendShape P stx n spent out pb ∧ n ∉ pool.nullifiers ∧
      isRootFresh pb.merkleRoot pool.ownDeps = true ∧
      P.verify stx.proof pb = true := by
  obtain ⟨r, hr⟩ := h.accepted
  obtain ⟨hs, pi, hp, hsp, hf, -, hv, -⟩ :=
    validateShielded_ok_iff.mp hr
  obtain ⟨n, spent, out, hsh⟩ := spendShape_of_ok hs hp
  refine ⟨n, spent, out, pi, hsh, ?_, hf, hv⟩
  exact hsp n (by rw [hsh.nullifiers_eq]; exact mem_singleton_self n)

theorem exists_round {r : TransactionValidationResult}
    (hstx : block.signedTrans.shielded = some stx)
    (hkey : blockKey C block ∉ pool.state.appliedIndex)
    (hr : validateShielded P env pool.ownDeps stx = .ok r) : ∃ fs, Round C P env pool block stx fs ∧
      applyUpdate C P env pool block =
        (afterRound P pool (blockKey C block) stx fs, .ok .applied) := by
  obtain ⟨hs, pi, hp, hsp, -⟩ := validateShielded_ok_iff.mp hr
  obtain ⟨n, spent, out, hsh⟩ := spendShape_of_ok hs hp
  have hl : List.Forall₂ (fun c f => commitmentLeaf P c = .ok f) stx.commitments
      [P.poseidonHash [pi.outputCommitX, pi.outputCommitY]] := by
    rw [hsh.commitments_eq]
    refine .cons ?_ .nil
    rw [commitmentLeaf, pointCoords_ok_iff.mpr hsh.output_eq]
  refine ⟨_, ⟨hstx, hkey, ⟨r, hr⟩, hl⟩, ?_⟩
  have hm : markManyAtomic pool.nullifiers
      stx.nullifiers = (pool.nullifiers ∪ stx.nullifiers.toFinset, .ok ()) := by
    refine markManyAtomic_ok_iff.mpr ⟨?_, hsp, rfl⟩
    rw [hsh.nullifiers_eq]
    exact nodup_singleton n
  simp only [applyUpdate, hstx, if_neg hkey, hr, hm, appendCommitments_of_decoded hl, nil_append]
  rfl

/-- A call of `apply_update` is a round or no change at all. -/
theorem applyUpdate_cases (env : EnvironmentMetadata) (pool : ShieldedPool) (block : Block) :
    (∃ stx fs, Round C P env pool block stx fs ∧ applyUpdate C P env pool block =
        (afterRound P pool (blockKey C block) stx fs, .ok .applied)) ∨
    ((applyUpdate C P env pool block).1 = pool ∧
      (applyUpdate C P env pool block).2 ≠ .ok .applied) := by
  cases hstx : block.signedTrans.shielded with
  | none => exact .inr (by simp [applyUpdate, hstx])
  | some stx =>
    by_cases hkey : blockKey C block ∈ pool.state.appliedIndex
    · exact .inr (by simp [applyUpdate, hstx, hkey])
    · cases hr : validateShielded P env pool.ownDeps stx with
      | error e => exact .inr (by simp [applyUpdate, hstx, hkey, hr])
      | ok r =>
        obtain ⟨fs, hrn, heq⟩ := exists_round hstx hkey hr
        exact .inl ⟨stx, fs, hrn, heq⟩

theorem spentBy_round (pool : ShieldedPool) (key : Bytes)
    (stx : ShieldedTransaction) (fs : List Fp) :
    spentBy (afterRound P pool key stx fs).state.applied =
      spentBy pool.state.applied ++ stx.nullifiers := by
  simp [afterRound, recordDelta]

theorem Round.roots_ne_nil (h : Round C P env pool block stx fs) : pool.state.roots.roots ≠ [] := by
  obtain ⟨n, spent, out, pi, -, -, hf, -⟩ := h.shape
  obtain ⟨s, hs, -⟩ := exists_snapshot_of_isRootFresh hf
  exact ne_nil_of_mem hs

theorem PoolInv.round (h : PoolInv P pool) (hr : Round C P env pool block stx fs) :
    PoolInv P (afterRound P pool (blockKey C block) stx fs) := by
  obtain ⟨n, spent, out, pi, hs, hnew, -, -⟩ := hr.shape
  refine ⟨.record fs _ _ h.replayed, ?_, ?_, ?_⟩
  · rw [spentBy_round, toFinset_append, ← h.spent_eq]
    rfl
  · rw [spentBy_round, hs.nullifiers_eq]
    refine h.nodup.append (nodup_singleton n) ?_
    rw [disjoint_singleton, ← mem_toFinset, ← h.spent_eq]
    exact hnew
  · intro hk
    by_cases ha : pool.state.applied = []
    · simp [afterRound, recordDelta, ha]
    · exact absurd (h.replayed.roots_eq_nil hk ha) hr.roots_ne_nil

/-! ## `revert_update` -/

section

variable (h : ds.map AppliedPoolDelta.content = es.map AppliedPoolDelta.content)

include h

theorem map_of_content {β : Type*} (f : Bytes × List Bytes32 × List Bytes32 → β) :
    ds.map (fun d => f d.content) = es.map (fun d => f d.content) := by
  have hmap := congrArg (map f) h
  simpa [map_map, Function.comp_def] using hmap

theorem spentBy_of_content : spentBy ds = spentBy es := by
  have hmap := map_of_content h (fun c => c.2.2)
  exact congrArg flatten hmap

theorem hashes_of_content : ds.map AppliedPoolDelta.blockHash = es.map AppliedPoolDelta.blockHash :=
  map_of_content h Prod.fst

end

theorem spentBy_perm_eraseIdx (hd : ds[i]? = some d) :
    (d.nullifiers ++ spentBy (ds.eraseIdx i)).Perm (spentBy ds) := by
  obtain ⟨hlt, rfl⟩ := List.getElem?_eq_some_iff.mp hd
  exact (getElem_cons_eraseIdx_perm hlt).flatMap_right _

def afterRemoval (pool : ShieldedPool) (d : AppliedPoolDelta)
    (rebuilt : PoolState) : ShieldedPool :=
  { pool with
    nullifiers := unmarkMany pool.nullifiers d.nullifiers
    state := rebuilt }

/-- The circumstances of a removal: the index names the delta, and the rest of
the history is replayed. -/
structure Removal (P : ShieldedPrimitives) (pool : ShieldedPool)
    (blockHash : Bytes) (i : Nat) (d : AppliedPoolDelta)
    (rebuilt : PoolState) : Prop where
  lookup : pool.state.appliedIndex.lookup blockHash = some i
  getElem : pool.state.applied[i]? = some d
  hash_eq : d.blockHash = blockHash
  replayed : Replayed P pool.recencyWindow rebuilt
  content : rebuilt.applied.map AppliedPoolDelta.content =
    (pool.state.applied.eraseIdx i).map AppliedPoolDelta.content

section

variable (h : PoolInv P pool)

include h

/-- What is left after a removal is applied anew, delta by delta. -/
theorem PoolInv.rebuild_eraseIdx (i : Nat) :
    rebuildFrom P false (.new pool.recencyWindow) (pool.state.applied.eraseIdx i) =
      .ok ((pool.state.applied.eraseIdx i).foldl (applyDelta P) (.new pool.recencyWindow)) :=
  rebuildFrom_eq _ fun e he => h.replayed.encoded e (mem_of_mem_eraseIdx he)

theorem PoolInv.tip_of_removal {rebuilt : PoolState}
    (hd : pool.state.applied[i]? = some d) (hr : Replayed P pool.recencyWindow rebuilt)
    (hc : rebuilt.applied.map AppliedPoolDelta.content =
      (pool.state.applied.eraseIdx i).map AppliedPoolDelta.content) :
    rebuilt.roots.currentRoot = some (toRepr rebuilt.tree.root) := by
  apply hr.currentRoot_eq
  by_cases hk : keep pool.recencyWindow = 0
  · -- the one delta there was has been removed
    have hlen := congrArg length hc
    have hi := (List.getElem?_eq_some_iff.mp hd).1
    have hs := h.small hk
    rw [length_map, length_map, length_eraseIdx_of_lt hi] at hlen
    exact .inr (length_eq_zero_iff.mp (by omega))
  · exact .inl hk

theorem revertUpdate_cases (blockHash : Bytes) :
    (∃ i d r, Removal P pool blockHash i d r ∧ revertUpdate P pool blockHash =
        (afterRemoval pool d r, .ok ())) ∨ (blockHash ∉ pool.state.appliedIndex ∧
      revertUpdate P pool blockHash = (pool, .error (.poolRollback blockHash))) := by
  cases hl : pool.state.appliedIndex.lookup blockHash with
  | none =>
    refine .inr ⟨?_, by simp only [revertUpdate, hl]⟩
    exact lookup_eq_none.mp hl
  | some i =>
    obtain ⟨d, hd, hh⟩ := h.replayed.getElem?_of_lookup hl
    have hr := h.rebuild_eraseIdx i
    have hrp := Replayed.new.rebuildFrom hr
    have hc := rebuildFrom_content hr
    have htip := h.tip_of_removal hd hrp hc
    refine .inl ⟨i, d, _, ⟨hl, hd, hh, hrp, hc⟩, ?_⟩
    simp only [revertUpdate, hl, hd, rebuildState, hr, htip, ne_eq, not_true_eq_false, if_false]
    rfl

theorem PoolInv.removal {blockHash : Bytes} {rebuilt : PoolState}
    (hrem : Removal P pool blockHash i d rebuilt) : PoolInv P (afterRemoval pool d rebuilt) := by
  have hp := spentBy_perm_eraseIdx hrem.getElem
  have hn : (d.nullifiers ++ spentBy (pool.state.applied.eraseIdx i)).Nodup :=
    hp.nodup_iff.mpr h.nodup
  have hs := spentBy_of_content hrem.content
  have hlen := congrArg length hrem.content
  refine ⟨hrem.replayed, ?_, ?_, ?_⟩
  · show pool.nullifiers \ d.nullifiers.toFinset = (spentBy rebuilt.applied).toFinset
    rw [hs, h.spent_eq, ← toFinset_eq_of_perm _ _ hp,
      toFinset_append, Finset.union_sdiff_cancel_left]
    rw [disjoint_toFinset_iff_disjoint]
    exact disjoint_of_nodup_append hn
  · show (spentBy rebuilt.applied).Nodup
    rw [hs]
    exact hn.of_append_right
  · intro hk
    have hsm := h.small hk
    show rebuilt.applied.length ≤ 1
    rw [length_map, length_map] at hlen
    have := length_eraseIdx_le pool.state.applied i
    omega

/-- Taking out the delta that was put in last gives the pool back. -/
theorem PoolInv.revert_applyUpdate {pool' : ShieldedPool}
    (hap : applyUpdate C P env pool block = (pool', .ok .applied)) :
    revertUpdate P pool' (blockKey C block) = (pool, .ok ()) := by
  rcases applyUpdate_cases (C := C) (P := P) env pool block with
    ⟨stx, fs, hr, heq⟩ | ⟨-, hnot⟩
  · obtain rfl := (Prod.mk.inj (heq.symm.trans hap)).1
    have hl : (afterRound P pool (blockKey C block) stx
        fs).state.appliedIndex.lookup (blockKey C block) = some pool.state.applied.length := by
      simp [afterRound, recordDelta, lookup_insert]
    rcases revertUpdate_cases (h.round hr) (blockKey C block) with
      ⟨i, d, rebuilt, hrem, hrv⟩ | ⟨hnot, -⟩
    · obtain rfl := Option.mem_unique hl hrem.lookup
      have ha : (afterRound P pool (blockKey C block) stx fs).state.applied =
          pool.state.applied ++ [⟨blockKey C block, fs.map toRepr, stx.nullifiers,
            toRepr (appendLeaves P pool.state fs).tree.root⟩] := by
        simp [afterRound, recordDelta]
      have hc := hrem.content
      have hls := hrem.getElem
      rw [ha, eraseIdx_append_of_length_le (Nat.le_refl _), Nat.sub_self,
        eraseIdx_cons_zero, append_nil] at hc
      rw [ha, getElem?_concat_length] at hls
      obtain rfl := Option.some.inj hls
      obtain rfl := hrem.replayed.eq_of_content h.replayed hc
      rw [hrv]
      refine congrArg (fun pool => (pool, Except.ok ())) ?_
      -- what the delta marked was not marked before
      have hsp : (pool.nullifiers ∪ stx.nullifiers.toFinset) \ stx.nullifiers.toFinset =
          pool.nullifiers := by
        obtain ⟨n, spent, out, pi, hs, hnew, -, -⟩ := hr.shape
        rw [hs.nullifiers_eq]
        refine Finset.union_sdiff_cancel_right (Finset.disjoint_singleton_right.mpr ?_)
        exact hnew
      unfold afterRemoval afterRound unmarkMany
      rw [hsp]
    · exact absurd (mem_of_lookup_eq_some hl) hnot
  · rw [hap] at hnot
    exact absurd rfl hnot

/-- What a block that is let in leaves of a well-formed pool, and how it is undone. -/
theorem PoolInv.applyUpdate_ok {pool' : ShieldedPool} {outcome : PoolApplyOutcome}
    (ha : applyUpdate C P env pool block = (pool', .ok outcome)) : PoolInv P pool' ∧
      (outcome = .applied → revertUpdate P pool' (blockKey C block) = (pool, .ok ())) ∧
      (outcome ≠ .applied → pool' = pool) := by
  rcases applyUpdate_cases (C := C) (P := P) env pool block with
    ⟨stx, fs, hr, heq⟩ | ⟨hs, hnot⟩
  · cases heq.symm.trans ha
    exact ⟨h.round hr, fun _ => h.revert_applyUpdate ha, fun hne => absurd rfl hne⟩
  · rw [ha] at hs hnot
    obtain rfl : pool' = pool := hs
    exact ⟨h, fun hout => absurd (congrArg Except.ok hout) hnot, fun _ => rfl⟩

end

/-! ## `load` -/

theorem markDeltas_ok {spent spent' : Finset Bytes32} (h : markDeltas spent ds = .ok spent') :
    (spentBy ds).Nodup ∧ (∀ n ∈ spentBy ds, n ∉ spent) ∧
      spent' = spent ∪ (spentBy ds).toFinset := by
  induction ds generalizing spent with
  | nil =>
    cases h
    exact ⟨nodup_nil, nofun, by simp⟩
  | cons d ds ih =>
    rw [markDeltas] at h
    split at h
    · cases h
    · next m hm =>
      obtain ⟨hd, hnew, rfl⟩ :=
        markManyAtomic_ok_iff.mp hm
      obtain ⟨hds, hr, rfl⟩ := ih h
      have hc : spentBy (d :: ds) = d.nullifiers ++ spentBy ds := rfl
      rw [hc]
      refine ⟨hd.append hds ?_, ?_, ?_⟩
      · intro n hn hns
        exact hr n hns (Finset.mem_union_right _ (mem_toFinset.mpr hn))
      · intro n hn
        rcases mem_append.mp hn with hn | hn
        · exact hnew n hn
        · exact fun hs => hr n hn (Finset.mem_union_left _ hs)
      · rw [toFinset_append, Finset.union_assoc]

theorem markDeltas_eq {spent : Finset Bytes32}
    (hnd : (spentBy ds).Nodup) (hnew : ∀ n ∈ spentBy ds, n ∉ spent) :
    markDeltas spent ds = .ok (spent ∪ (spentBy ds).toFinset) := by
  induction ds generalizing spent with
  | nil => simp [markDeltas]
  | cons d ds ih =>
    have hc : spentBy (d :: ds) = d.nullifiers ++ spentBy ds := rfl
    rw [hc] at hnd hnew ⊢
    have hd := disjoint_of_nodup_append hnd
    have hm := markManyAtomic_ok_iff.mpr ⟨hnd.of_append_left,
        fun n hn => hnew n (mem_append_left _ hn), rfl⟩
    have hr : ∀ n ∈ spentBy ds, n ∉ spent ∪ d.nullifiers.toFinset := by
      intro n hn hmem
      rcases Finset.mem_union.mp hmem with hmem | hmem
      · exact hnew n (mem_append_right _ hn) hmem
      · exact hd (mem_toFinset.mp hmem) hn
    rw [markDeltas, hm]
    show markDeltas _ ds = _
    rw [ih hnd.of_append_right hr, toFinset_append, Finset.union_assoc]

/-- What `from_state` accepts, and what it builds. -/
structure Restored (P : ShieldedPrimitives) (stored : ShieldedPoolState)
    (k : Usize) (pool : ShieldedPool) : Prop where
  leafCount_eq : stored.leafCount = stored.leaves.length
  replayed : Replayed P k pool.state
  applied_eq : pool.state.applied = stored.applied
  leaves_eq : pool.state.leaves.map toRepr = stored.leaves
  tip_eq : pool.state.roots.currentRoot = some stored.root
  spent_perm : (spentBy stored.applied).Perm stored.nullifiers
  nodup : (spentBy stored.applied).Nodup
  nullifiers_eq : pool.nullifiers = (spentBy stored.applied).toFinset
  window_eq : pool.recencyWindow = k
  view_eq : pool.viewRoots = pool.state.roots

theorem fromState_ok {stored : ShieldedPoolState} (h : fromState P stored k = .ok pool) :
    Restored P stored k pool := by
  -- each check that passed leaves the fact it checked
  unfold fromState at h
  split at h
  · cases h
  · next hc =>
    split at h
    · cases h
    · next r hr =>
      split at h
      · cases h
      · next hl =>
        split at h
        · cases h
        · next tip htip =>
          split at h
          · cases h
          · next hrt =>
            split at h
            · cases h
            · next hp =>
              split at h
              · cases h
              · next spent hm =>
                cases h
                obtain ⟨hn, -, rfl⟩ := markDeltas_ok hm
                exact
                  { leafCount_eq := not_not.mp hc
                    replayed := Replayed.new.rebuildFrom hr
                    applied_eq := by
                      simpa [PoolState.new] using
                        rebuildFrom_verified hr
                    leaves_eq := not_not.mp hl
                    tip_eq := by
                      rw [htip, not_not.mp hrt]
                    spent_perm := by
                      simpa [isPerm_iff] using hp
                    nodup := hn
                    nullifiers_eq := by simp
                    window_eq := rfl
                    view_eq := rfl }

theorem Restored.inv {stored : ShieldedPoolState}
    (h : Restored P stored k pool) : PoolInv P pool := by
  have hk := h.window_eq
  refine ⟨hk ▸ h.replayed, ?_, ?_, ?_⟩
  · rw [h.applied_eq]
    exact h.nullifiers_eq
  · rw [h.applied_eq]
    exact h.nodup
  · intro hkp
    rw [hk] at hkp
    by_cases ha : pool.state.applied = []
    · simp [ha]
    · -- a history of which nothing was retained has no tip to compare
      have htip := h.tip_eq
      rw [currentRoot, h.replayed.roots_eq_nil hkp ha] at htip
      cases htip

theorem PoolInv.new (k : Usize) : PoolInv P (new k) :=
  ⟨.new, rfl, nodup_nil, fun _ => Nat.zero_le 1⟩

theorem load_ok {stored : Except Unit (Option ShieldedPoolState)} {saved : Bool}
    (h : load P stored saved k = .ok pool) : pool = new k ∨
      ∃ state, stored = .ok (some state) ∧ Restored P state k pool := by
  unfold load at h
  split at h
  · cases h
  · split at h
    · injection h with h
      exact .inl h.symm
    · cases h
  · next state => exact .inr ⟨state, rfl, fromState_ok h⟩

/-! ## Runs -/

inductive PoolCall where
  | apply (env : EnvironmentMetadata) (block : Block)
  | revert (blockHash : Bytes)

def callStep (C : Codec) (P : ShieldedPrimitives) (pool : ShieldedPool) : PoolCall → ShieldedPool
  | .apply env block => (applyUpdate C P env pool block).1
  | .revert blockHash => (revertUpdate P pool blockHash).1

/-- A pool's life: calls, and restarts from what the store holds. -/
inductive PoolOp where
  | call (c : PoolCall)
  | load (stored : Except Unit (Option ShieldedPoolState)) (saved : Bool) (recencyWindow : Usize)

/-- The pool after a call or a restart. A refused restart leaves a process
without a pool; the pool it had stands in for it. -/
def poolStep (C : Codec) (P : ShieldedPrimitives) (pool : ShieldedPool) : PoolOp → ShieldedPool
  | .call c => callStep C P pool c
  | .load stored saved k =>
    match load P stored saved k with
    | .ok pool => pool
    | .error _ => pool

theorem callStep_cases (h : PoolInv P pool) (c : PoolCall) :
    (∃ env block stx fs, c = .apply env block ∧ Round C P env pool block stx fs ∧
      callStep C P pool c = afterRound P pool (blockKey C block) stx fs) ∨
    (∃ blockHash i d r, c = .revert blockHash ∧ Removal P pool blockHash i d r ∧
      callStep C P pool c = afterRemoval pool d r) ∨ callStep C P pool c = pool := by
  cases c with
  | apply env block =>
    rcases applyUpdate_cases (C := C) (P := P) env pool block with
      ⟨stx, fs, hr, heq⟩ | ⟨heq, -⟩
    · exact .inl ⟨env, block, stx, fs, rfl, hr, by simp only [callStep, heq]⟩
    · exact .inr (.inr heq)
  | revert blockHash =>
    rcases revertUpdate_cases h blockHash with
      ⟨i, d, r, hrem, heq⟩ | ⟨-, heq⟩
    · exact .inr (.inl ⟨blockHash, i, d, r, rfl, hrem, by simp only [callStep, heq]⟩)
    · exact .inr (.inr (by simp only [callStep, heq]))

theorem callStep_inv (pool : ShieldedPool) (c : PoolCall) (h : PoolInv P pool) :
    PoolInv P (callStep C P pool c) := by
  rcases callStep_cases h c with
    ⟨env, block, stx, fs, -, hr, heq⟩ | ⟨_, i, d, r, -, hrem, heq⟩ | heq
  · rw [heq]
    exact h.round hr
  · rw [heq]
    exact h.removal hrem
  · rw [heq]
    exact h

theorem poolStep_inv (pool : ShieldedPool) (op : PoolOp) (h : PoolInv P pool) :
    PoolInv P (poolStep C P pool op) := by
  cases op with
  | call c => exact callStep_inv pool c h
  | load s saved k =>
    simp only [poolStep]
    split
    · next pool' hl =>
      rcases load_ok hl with rfl | ⟨state, -, hr⟩
      · exact .new k
      · exact hr.inv
    · exact h

abbrev reached (C : Codec) (P : ShieldedPrimitives) (k : Usize)
    (ops : List PoolOp) : ShieldedPool :=
  Run.run (poolStep C P) (ShieldedPool.new k) ops

theorem reached_inv (k : Usize) (ops : List PoolOp) : PoolInv P (reached C P k ops) :=
  Run.run_invariant_of_step poolStep_inv ops (.new k)

/-- Both mutators leave the pool as it was when they fail, a revert undoes the last round,
and a revert of any recorded hash leaves the pool of the other deltas. -/
theorem mutators_atomic (k : Usize) (ops : List PoolOp) (env : EnvironmentMetadata)
    (block : Block) (blockHash : Bytes) :
    let pool := reached C P k ops
    (∀ e, (applyUpdate C P env pool block).2 = .error e →
      (applyUpdate C P env pool block).1 = pool) ∧
    (∀ e, (revertUpdate P pool blockHash).2 = .error e → (revertUpdate P pool blockHash).1 = pool) ∧
    (∀ pool', applyUpdate C P env pool block = (pool', .ok .applied) →
      revertUpdate P pool' (blockKey C block) = (pool, .ok ())) ∧
    ∀ i, pool.state.appliedIndex.lookup blockHash = some i →
      let rest := pool.state.applied.eraseIdx i
      (pool.state.applied[i]?).map AppliedPoolDelta.blockHash = some blockHash ∧
      revertUpdate P pool blockHash =
        ({ pool with
            nullifiers := (spentBy rest).toFinset
            state := rest.foldl (applyDelta P) (.new pool.recencyWindow) }, .ok ()) := by
  have h : PoolInv P (reached C P k ops) := reached_inv k ops
  refine ⟨fun e he => ?_, fun e he => ?_, fun _ => h.revert_applyUpdate, fun i hi => ?_⟩
  · rcases applyUpdate_cases (C := C) (P := P) env (reached C P k ops) block with
      ⟨stx, fs, -, heq⟩ | ⟨heq, -⟩
    · rw [heq] at he
      cases he
    · exact heq
  · rcases revertUpdate_cases h blockHash with ⟨i, d, r, -, heq⟩ | ⟨-, heq⟩
    · rw [heq] at he
      cases he
    · rw [heq]
  · rcases revertUpdate_cases h blockHash with ⟨j, d, r, hrem, heq⟩ | ⟨hnot, -⟩
    · obtain rfl := Option.mem_unique hi hrem.lookup
      have hr := h.rebuild_eraseIdx i
      obtain rfl := hrem.replayed.eq_of_content (Replayed.new.rebuildFrom hr)
        (hrem.content.trans (rebuildFrom_content hr).symm)
      have hs : unmarkMany (reached C P k ops).nullifiers d.nullifiers =
          (spentBy ((reached C P k ops).state.applied.eraseIdx i)).toFinset := by
        rw [← spentBy_of_content hrem.content]
        exact (h.removal hrem).spent_eq
      refine ⟨by rw [hrem.getElem, ← hrem.hash_eq]; rfl, ?_⟩
      rw [heq, afterRemoval, hs]
    · exact absurd (mem_of_lookup_eq_some hi) hnot

theorem callStep_fixed (h : PoolInv P pool) (c : PoolCall) :
    (callStep C P pool c).recencyWindow = pool.recencyWindow ∧
      (callStep C P pool c).viewRoots = pool.viewRoots := by
  rcases callStep_cases h c with
    ⟨env, block, stx, fs, -, -, heq⟩ | ⟨_, i, d, r, -, -, heq⟩ | heq
  all_goals
    rw [heq]
    exact ⟨rfl, rfl⟩

theorem run_fixed (h : PoolInv P pool) (calls : List PoolCall) :
    (Run.run (callStep C P) pool calls).recencyWindow = pool.recencyWindow ∧
      (Run.run (callStep C P) pool calls).viewRoots = pool.viewRoots := by
  have hrun := @Run.run_invariant_of_step _ _ (callStep C P)
    (fun p => PoolInv P p ∧ p.recencyWindow = pool.recencyWindow ∧
      p.viewRoots = pool.viewRoots) _ ?_ calls ⟨h, rfl, rfl⟩
  · exact hrun.2
  · rintro p c ⟨hp, hw, hv⟩
    obtain ⟨hw', hv'⟩ := callStep_fixed (C := C) hp c
    exact ⟨callStep_inv p c hp, hw'.trans hw, hv'.trans hv⟩

end ShieldedPool

end Pneumatic
