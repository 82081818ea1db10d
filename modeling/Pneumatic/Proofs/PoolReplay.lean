import Pneumatic.Committer.ShieldedPool

/-!
# A guarded state is the replay of its own history

Six fields of `PoolState` describe one history, and two mutators keep them in
step. The statement that carries every fact about them is that the state is a
replay: it arises from the pristine state by appending a batch of leaves and
recording a delta, over and over. `apply_update` performs one such round,
`rebuild_state` performs them all, so both ends of the repository's data flow
meet in the one predicate `Replayed`.

What a replay determines is then proved once, by induction on the rounds: the
tree is the tree of the leaves, the leaves are those of the deltas, every
recorded root is the root after its prefix, every retained root is the root
after the prefix its height names, and the index points at deltas with the
right hash. Going back, `rebuildState_replayed` says that rebuilding from the
recorded deltas reproduces a replay exactly, and `rebuildFrom_eq` that the
rebuild after a removal never refuses.
-/

namespace Pneumatic

open Finmap List IncrementalMerkleTree MerkleRootState

namespace AppliedPoolDelta

/-- What a rebuild copies from a delta. Its root is derived again. -/
def content (delta : AppliedPoolDelta) : Bytes × List Bytes32 × List Bytes32 :=
  (delta.blockHash, delta.leaves, delta.nullifiers)

end AppliedPoolDelta

namespace PoolState

variable {P : ShieldedPrimitives}

def appendLeaves (P : ShieldedPrimitives) (state : PoolState) (fs : List Fp) : PoolState :=
  fs.foldl (appendLeaf P) state

section

variable (state : PoolState)

include state

section

variable (fs : List Fp)

include fs

theorem appendLeaves_eq : appendLeaves P state fs =
      { state with
        tree := fs.foldl (push P.poseidonHash) state.tree
        leaves := state.leaves ++ fs } := by
  induction fs generalizing state with
  | nil => simp [appendLeaves]
  | cons f fs ih =>
    show appendLeaves P (state.appendLeaf P f) fs = _
    rw [ih]
    simp [appendLeaf]

@[simp]
theorem appendLeaves_roots : (appendLeaves P state fs).roots = state.roots := by
  rw [appendLeaves_eq]

@[simp]
theorem appendLeaves_applied : (appendLeaves P state fs).applied = state.applied := by
  rw [appendLeaves_eq]

@[simp]
theorem appendLeaves_appliedIndex :
    (appendLeaves P state fs).appliedIndex = state.appliedIndex := by
  rw [appendLeaves_eq]

@[simp]
theorem appendLeaves_leaves : (appendLeaves P state fs).leaves = state.leaves ++ fs := by
  rw [appendLeaves_eq]

theorem appendLeaves_tree : (appendLeaves P state fs).tree =
      fs.foldl (push P.poseidonHash) state.tree := by
  rw [appendLeaves_eq]

end

end

/-- The states that recorded deltas lead to. -/
inductive Replayed (P : ShieldedPrimitives) (recencyWindow : Usize) :
    PoolState → Prop where
  | new : Replayed P recencyWindow (.new recencyWindow)
  | record {state : PoolState} (fs : List Fp) (blockHash : Bytes)
      (nullifiers : List Bytes32) (h : Replayed P recencyWindow state) :
      Replayed P recencyWindow ((appendLeaves P state fs).recordDelta blockHash (fs.map toRepr)
          nullifiers)

variable {state state' : PoolState} {verifyRecorded : Bool} {ds : List AppliedPoolDelta} {k : Usize}

theorem appendEncoded_ok_iff {blockHash : Bytes} {ls : List Bytes32} :
    appendEncoded P blockHash state ls = .ok state' ↔ ∃ fs : List Fp, ls = fs.map toRepr ∧
        state' = appendLeaves P state fs := by
  induction ls generalizing state with
  | nil =>
    refine ⟨fun h => ⟨[], rfl, ?_⟩, fun ⟨fs, hfs, h⟩ => ?_⟩
    · injection h with h
      exact h.symm
    · rw [map_eq_nil_iff.mp hfs.symm] at h
      rw [h]
      rfl
  | cons l ls ih =>
    rw [appendEncoded]
    cases hl : fromRepr l with
    | none =>
      refine ⟨nofun, fun ⟨fs, hfs, _⟩ => ?_⟩
      cases fs with
      | nil => cases hfs
      | cons f fs =>
        rw [(cons.inj hfs).1, fromRepr_toRepr] at hl
        cases hl
    | some f =>
      rw [ih]
      refine ⟨fun ⟨fs, hfs, h⟩ => ⟨f :: fs, ?_, h⟩, fun ⟨fs, hfs, h⟩ => ?_⟩
      · rw [hfs, map_cons, toRepr_of_fromRepr hl]
      · cases fs with
        | nil => cases hfs
        | cons g fs =>
          obtain ⟨hh, ht⟩ := cons.inj hfs
          rw [hh, fromRepr_toRepr] at hl
          cases hl
          exact ⟨fs, ht, h⟩

theorem appendCommitments_of_decoded {postLeaves cs : List Bytes32} {fs : List Fp}
    (h : List.Forall₂ (fun c f => commitmentLeaf P c = .ok f) cs fs) :
    appendCommitments P postLeaves state cs =
      (appendLeaves P state fs, .ok (postLeaves ++ fs.map toRepr)) := by
  induction h generalizing postLeaves state with
  | nil => simp [appendCommitments, appendLeaves]
  | cons hc _ ih =>
    rw [appendCommitments, hc]
    show appendCommitments P _ _ _ = _
    rw [ih]
    simp [appendLeaves]

theorem rebuildDelta_ok_iff {delta : AppliedPoolDelta} :
    rebuildDelta P verifyRecorded state delta = .ok state' ↔
      ∃ fs : List Fp, delta.leaves = fs.map toRepr ∧ (verifyRecorded = true →
          toRepr (appendLeaves P state fs).tree.root = delta.postRoot) ∧
        state' = (appendLeaves P state fs).recordDelta delta.blockHash
          delta.leaves delta.nullifiers := by
  rw [rebuildDelta]
  cases ha : appendEncoded P delta.blockHash state delta.leaves with
  | error e =>
    refine ⟨nofun, fun ⟨fs, hfs, _⟩ => ?_⟩
    rw [appendEncoded_ok_iff.mpr ⟨fs, hfs, rfl⟩] at ha
    cases ha
  | ok a =>
    obtain ⟨fs, hfs, rfl⟩ := appendEncoded_ok_iff.mp ha
    have hu : ∀ gs : List Fp, delta.leaves = gs.map toRepr → gs = fs :=
      fun gs hgs => map_injective_iff.mpr toRepr_injective (hgs.symm.trans hfs)
    simp only
    split
    · next hbad =>
      refine ⟨nofun, fun ⟨gs, hgs, hr, _⟩ => ?_⟩
      obtain rfl := hu gs hgs
      rw [Bool.and_eq_true, decide_eq_true_eq] at hbad
      exact absurd (hr hbad.1) hbad.2
    · next hg =>
      refine ⟨fun h => ⟨fs, hfs, fun hv => ?_, ?_⟩, fun ⟨gs, hgs, _, h⟩ => ?_⟩
      · rw [Bool.and_eq_true, decide_eq_true_eq] at hg
        by_contra hne
        exact hg ⟨hv, hne⟩
      · injection h with h
        exact h.symm
      · obtain rfl := hu gs hgs
        rw [h]

theorem rebuildFrom_append (ds es : List AppliedPoolDelta) :
    rebuildFrom P verifyRecorded state (ds ++ es) =
      match rebuildFrom P verifyRecorded state ds with
      | .error e => .error e
      | .ok state => rebuildFrom P verifyRecorded state es := by
  induction ds generalizing state with
  | nil => rfl
  | cons d ds ih =>
    rw [cons_append, rebuildFrom, rebuildFrom]
    cases rebuildDelta P verifyRecorded state d with
    | error e => rfl
    | ok state => exact ih

theorem rebuildFrom_cons_ok_iff {d : AppliedPoolDelta} :
    rebuildFrom P verifyRecorded state (d :: ds) = .ok state' ↔
      ∃ fs : List Fp, d.leaves = fs.map toRepr ∧ (verifyRecorded = true →
          toRepr (appendLeaves P state fs).tree.root = d.postRoot) ∧
        rebuildFrom P verifyRecorded ((appendLeaves P state fs).recordDelta d.blockHash d.leaves
          d.nullifiers) ds = .ok state' := by
  rw [rebuildFrom]
  cases hd : rebuildDelta P verifyRecorded state d with
  | error e =>
    refine ⟨nofun, fun ⟨fs, hfs, hr, _⟩ => ?_⟩
    cases hd.symm.trans (rebuildDelta_ok_iff.mpr ⟨fs, hfs, hr, rfl⟩)
  | ok next =>
    constructor
    · intro h
      obtain ⟨fs, hfs, hr, rfl⟩ := rebuildDelta_ok_iff.mp hd
      exact ⟨fs, hfs, hr, h⟩
    · rintro ⟨fs, hfs, hr, h⟩
      cases hd.symm.trans (rebuildDelta_ok_iff.mpr ⟨fs, hfs, hr, rfl⟩)
      exact h

theorem Replayed.rebuildFrom (h : Replayed P k state)
    (hok : PoolState.rebuildFrom P verifyRecorded state ds = .ok state') : Replayed P k state' := by
  induction ds generalizing state with
  | nil => cases hok; exact h
  | cons d ds ih =>
    obtain ⟨fs, hfs, -, hok⟩ := rebuildFrom_cons_ok_iff.mp hok
    refine ih ?_ hok
    rw [hfs]
    exact .record fs d.blockHash d.nullifiers h

/-- A rebuild keeps what the deltas say, apart from their roots. -/
theorem rebuildFrom_content (hok : rebuildFrom P verifyRecorded state ds = .ok state') :
    state'.applied.map AppliedPoolDelta.content =
      (state.applied ++ ds).map AppliedPoolDelta.content := by
  induction ds generalizing state with
  | nil => cases hok; simp
  | cons d ds ih =>
    obtain ⟨fs, hfs, -, hok⟩ := rebuildFrom_cons_ok_iff.mp hok
    rw [ih hok]
    simp [recordDelta, AppliedPoolDelta.content]

theorem rebuildFrom_verified (hok : rebuildFrom P true state ds = .ok state') :
    state'.applied = state.applied ++ ds := by
  induction ds generalizing state with
  | nil => cases hok; simp
  | cons d ds ih =>
    obtain ⟨fs, hfs, hr, hok⟩ := rebuildFrom_cons_ok_iff.mp hok
    rw [ih hok]
    simp [recordDelta, hr rfl]

/-- Rebuilding from the recorded deltas reproduces a replay. -/
theorem rebuildState_replayed (h : Replayed P k state) :
    rebuildState P state.applied k true = .ok state := by
  induction h with
  | new => rfl
  | @record state fs blockHash n h ih =>
    have ha : ((appendLeaves P state fs).recordDelta blockHash
        (fs.map toRepr) n).applied = state.applied ++ [{
            blockHash := blockHash
            leaves := fs.map toRepr
            nullifiers := n
            postRoot := toRepr (appendLeaves P state fs).tree.root }] := by
      simp [recordDelta]
    unfold rebuildState at ih ⊢
    rw [ha, rebuildFrom_append, ih]
    simp only [rebuildFrom]
    rw [rebuildDelta_ok_iff.mpr ⟨fs, rfl, fun _ => rfl, rfl⟩]

/-- A rebuild that verifies the recorded roots does what one does that ignores them. -/
theorem rebuildFrom_unverified (hok : rebuildFrom P true state ds = .ok state') :
    rebuildFrom P false state ds = .ok state' := by
  induction ds generalizing state with
  | nil => exact hok
  | cons d ds ih =>
    obtain ⟨fs, hfs, -, hok⟩ := rebuildFrom_cons_ok_iff.mp hok
    exact rebuildFrom_cons_ok_iff.mpr ⟨fs, hfs, (by cases ·), ih hok⟩

/-- Without the recorded roots a rebuild reads the content of the deltas only. -/
theorem rebuildFrom_of_content {es : List AppliedPoolDelta}
    (h : ds.map AppliedPoolDelta.content = es.map AppliedPoolDelta.content) :
    rebuildFrom P false state ds = rebuildFrom P false state es := by
  induction ds generalizing es state with
  | nil => rw [map_eq_nil_iff.mp h.symm]
  | cons d ds ih =>
    cases es with
    | nil => cases h
    | cons e es =>
      obtain ⟨hhd, ht⟩ := cons.inj h
      obtain ⟨hh, hr⟩ := Prod.mk.inj hhd
      obtain ⟨hl, hn⟩ := Prod.mk.inj hr
      have hd : rebuildDelta P false state d = rebuildDelta P false state e := by
        unfold rebuildDelta
        rw [hh, hl, hn]
        rfl
      rw [rebuildFrom, rebuildFrom, hd]
      cases rebuildDelta P false state e with
      | error e => rfl
      | ok next => exact ih ht

/-- The content of its deltas determines a replay. -/
theorem Replayed.eq_of_content (h : Replayed P k state) (h' : Replayed P k state')
    (hc : state.applied.map AppliedPoolDelta.content =
      state'.applied.map AppliedPoolDelta.content) : state = state' := by
  have hs := rebuildFrom_unverified (rebuildState_replayed h)
  rw [rebuildFrom_of_content hc, rebuildFrom_unverified (rebuildState_replayed h')] at hs
  exact (Except.ok.inj hs).symm

theorem Replayed.encoded (h : Replayed P k state) :
    ∀ d ∈ state.applied, ∃ fs : List Fp, d.leaves = fs.map toRepr := by
  induction h with
  | new => intro d hd; cases hd
  | record fs blockHash n h ih =>
    intro d hd
    simp only [recordDelta, appendLeaves_applied, List.mem_append, List.mem_singleton] at hd
    rcases hd with hd | rfl
    · exact ih d hd
    · exact ⟨fs, rfl⟩

/-- One delta on top of a state: its leaves, the root after them, and the record. -/
def applyDelta (P : ShieldedPrimitives) (state : PoolState) (delta : AppliedPoolDelta) :
    PoolState :=
  (appendLeaves P state (delta.leaves.filterMap fromRepr)).recordDelta delta.blockHash
    delta.leaves delta.nullifiers

/-- A rebuild that does not verify recorded roots applies every list of canonically
encoded deltas, one after the other. -/
theorem rebuildFrom_eq (state : PoolState)
    (h : ∀ d ∈ ds, ∃ fs : List Fp, d.leaves = fs.map toRepr) :
    rebuildFrom P false state ds = .ok (ds.foldl (applyDelta P) state) := by
  induction ds generalizing state with
  | nil => rfl
  | cons d ds ih =>
    obtain ⟨fs, hfs⟩ := h d (mem_cons_self ..)
    have hd : d.leaves.filterMap fromRepr = fs := by
      simp [hfs, filterMap_map, fromRepr_toRepr]
    refine rebuildFrom_cons_ok_iff.mpr ⟨fs, hfs, (by cases ·), ?_⟩
    rw [ih _ fun e he => h e (mem_cons_of_mem d he), foldl_cons, applyDelta, hd]

def decodedLeaves (ds : List AppliedPoolDelta) : List Fp :=
  (ds.flatMap AppliedPoolDelta.leaves).filterMap fromRepr

def rootAfter (P : ShieldedPrimitives) (ds : List AppliedPoolDelta) : Bytes32 :=
  toRepr (IncrementalMerkleTree.fromLeaves P.poseidonHash defaultDepth (decodedLeaves ds)).root

section Replayed

variable {k : Usize} {state : PoolState}

section

variable (h : Replayed P k state)

include h

theorem Replayed.leaves_eq : state.leaves.map toRepr =
      state.applied.flatMap AppliedPoolDelta.leaves := by
  induction h with
  | new => rfl
  | record fs blockHash n h ih => simp [recordDelta, ih]

theorem Replayed.leaves_decoded : state.leaves = decodedLeaves state.applied := by
  rw [decodedLeaves, ← h.leaves_eq, filterMap_map]
  simp

theorem Replayed.tree_eq : state.tree = fromLeaves P.poseidonHash defaultDepth state.leaves := by
  induction h with
  | new => rfl
  | record fs blockHash n h ih =>
    simp only [recordDelta, appendLeaves_leaves, appendLeaves_tree, ih]
    exact (fromLeaves_append ..).symm

theorem Replayed.root_eq : toRepr state.tree.root = rootAfter P state.applied := by
  rw [rootAfter, ← h.leaves_decoded, ← h.tree_eq]

theorem Replayed.window_eq : state.roots.window = k := by
  induction h with
  | new => rfl
  | record fs blockHash n h ih => simpa [recordDelta] using ih

theorem Replayed.nextHeight_eq : state.roots.nextHeight = state.applied.length + 1 := by
  induction h with
  | new => rfl
  | record fs blockHash n h ih => simp [recordDelta, ih]

/-- The root a round records is the root after the deltas up to it. -/
theorem Replayed.record_root (fs : List Fp)
    (blockHash : Bytes) (nullifiers : List Bytes32) : toRepr (appendLeaves P state fs).tree.root =
      rootAfter P ((appendLeaves P state fs).recordDelta blockHash
        (fs.map toRepr) nullifiers).applied :=
  (Replayed.record fs blockHash nullifiers h).root_eq

end

variable {i : Nat} {blockHash : Bytes}

section

variable (h : Replayed P k state)

include h

theorem Replayed.postRoot_eq {d : AppliedPoolDelta} (hd : state.applied[i]? = some d) :
    d.postRoot = rootAfter P (state.applied.take (i + 1)) := by
  induction h with
  | new => cases hd
  | @record state fs blockHash n h ih =>
    have hr := h.record_root fs blockHash n
    simp only [recordDelta, appendLeaves_applied] at hd hr ⊢
    rcases Nat.lt_or_ge i state.applied.length with hlt | hge
    · rw [getElem?_append_left hlt] at hd
      rw [take_append_of_le_length (by omega)]
      exact ih hd
    · rw [getElem?_append_right hge, getElem?_singleton] at hd
      split at hd
      · next hz =>
        cases hd
        rw [take_of_length_le (by simp; omega)]
        exact hr
      · cases hd

theorem Replayed.roots_eq : state.roots =
      (state.applied.map AppliedPoolDelta.postRoot).foldl push (.new k) := by
  induction h with
  | new => rfl
  | record fs blockHash n h ih => simp [recordDelta, ← ih]

/-- A retained root is the root after the prefix its height names. -/
theorem Replayed.snapshot_eq {s : RootSnapshot}
    (hs : s ∈ state.roots.roots) : s.height ≤ state.applied.length ∧
      s.root = rootAfter P (state.applied.take s.height) := by
  induction h with
  | new =>
    obtain rfl : s = { root := toRepr 0, height := 0 } := by
      simpa [PoolState.new, MerkleRootState.new] using hs
    exact ⟨Nat.le_refl 0, rfl⟩
  | @record state fs blockHash n h ih =>
    have hr := h.record_root fs blockHash n
    simp only [recordDelta, appendLeaves_applied, appendLeaves_roots] at hs hr ⊢
    rw [push_roots] at hs
    rcases mem_append.mp (mem_of_mem_drop hs) with hold | hnew
    · obtain ⟨hle, heq⟩ := ih hold
      rw [take_append_of_le_length hle]
      exact ⟨by rw [length_append]; omega, heq⟩
    · rw [List.mem_singleton] at hnew
      rw [hnew, h.nextHeight_eq]
      refine ⟨by simp, ?_⟩
      rw [take_of_length_le (by simp)]
      exact hr

/-- The retained heights are consecutive and end just below the next one. -/
theorem Replayed.height_eq {j : Nat} {s : RootSnapshot} (hs : state.roots.roots[j]? = some s) :
    s.height + state.roots.roots.length = state.roots.nextHeight + j := by
  induction h generalizing j with
  | new =>
    have hj := (List.getElem?_eq_some_iff.mp hs).1
    obtain rfl : j = 0 := by
      simpa [PoolState.new, MerkleRootState.new] using hj
    cases hs
    rfl
  | @record state fs blockHash n h ih =>
    simp only [recordDelta, appendLeaves_roots, push_nextHeight] at hs ⊢
    rw [push_roots] at hs ⊢
    have hlt := (List.getElem?_eq_some_iff.mp hs).1
    rw [getElem?_drop] at hs
    rw [length_drop, length_append, length_singleton] at hlt ⊢
    -- position `j` after the drop is an old root or the one just pushed
    rcases Nat.lt_or_ge (state.roots.roots.length + 1 - keep state.roots.window + j)
        state.roots.roots.length with hold | hnew
    · rw [getElem?_append_left hold] at hs
      have := ih hs
      omega
    · rw [getElem?_append_right hnew, getElem?_singleton] at hs
      split at hs
      · cases hs
        show state.roots.nextHeight + _ = _
        omega
      · cases hs

theorem Replayed.roots_length_le : state.roots.roots.length ≤ k.val + 1 := by
  have hk : keep k ≤ k.val + 1 := by
    exact Nat.mod_le _ _
  cases h with
  | new => simp [PoolState.new, MerkleRootState.new]
  | record fs blockHash n h =>
    simp only [recordDelta, appendLeaves_roots]
    rw [push_roots, length_drop, length_append, length_singleton, h.window_eq]
    omega

/-- With a retention of at least one root the newest `k + 1` are retained. -/
theorem Replayed.roots_length (hk : keep k ≠ 0 ∨ state.applied = []) :
    state.roots.roots.length = min (state.applied.length + 1) (k.val + 1) := by
  induction h with
  | new => simp [PoolState.new, MerkleRootState.new]
  | @record state fs blockHash n h ih =>
    have hk : keep k ≠ 0 := hk.resolve_right (by simp [recordDelta])
    have hkeep : keep k = k.val + 1 := by
      have hlt := k.isLt
      simp only [keep, Fin.val_add, Fin.val_one'] at hk ⊢
      simp only [wordSize] at hk hlt ⊢
      omega
    simp only [recordDelta, appendLeaves_roots, appendLeaves_applied]
    rw [push_roots, length_drop, length_append, length_append, length_singleton, length_singleton,
      h.window_eq, ih (.inl hk)]
    omega

/-- With a retention of at least one root the tip of the history is the tree
root. A pristine state has its tip in any case. -/
theorem Replayed.currentRoot_eq (hk : keep k ≠ 0 ∨ state.applied = []) :
    state.roots.currentRoot = some (toRepr state.tree.root) := by
  cases h with
  | new => simp [PoolState.new, MerkleRootState.new, MerkleRootState.currentRoot]
  | record fs blockHash n h =>
    rcases hk with hk | hnil
    · rw [← h.window_eq] at hk
      simp only [recordDelta, appendLeaves_roots]
      exact currentRoot_push _ hk
    · simp [recordDelta] at hnil

theorem Replayed.roots_eq_nil (hk : keep k = 0) (ha : state.applied ≠ []) :
    state.roots.roots = [] := by
  cases h with
  | new => exact absurd rfl ha
  | record fs blockHash n h =>
    rw [← h.window_eq] at hk
    simp only [recordDelta, appendLeaves_roots]
    exact push_roots_of_keep_eq_zero _ hk

theorem Replayed.getElem?_of_lookup (hi : state.appliedIndex.lookup blockHash = some i) :
    ∃ d, state.applied[i]? = some d ∧ d.blockHash = blockHash := by
  induction h with
  | new => simp [PoolState.new] at hi
  | @record state fs hash n h ih =>
    simp only [recordDelta, appendLeaves_applied, appendLeaves_appliedIndex] at hi ⊢
    rcases lookup_insert_cases hi with ⟨rfl, rfl⟩ | hold
    · exact ⟨_, getElem?_concat_length, rfl⟩
    · obtain ⟨d, hd, hh⟩ := ih hold
      have hlt := (List.getElem?_eq_some_iff.mp hd).1
      exact ⟨d, by rw [getElem?_append_left hlt]; exact hd, hh⟩

theorem Replayed.mem_appliedIndex_iff : blockHash ∈ state.appliedIndex ↔
      blockHash ∈ state.applied.map AppliedPoolDelta.blockHash := by
  induction h with
  | new => simpa [PoolState.new] using notMem_empty
  | record fs hash n h ih =>
    simp only [recordDelta, appendLeaves_applied, appendLeaves_appliedIndex,
      mem_insert, ih, List.map_append, List.mem_append, List.map_singleton, List.mem_singleton]
    exact or_comm

/-- Where no hash repeats, the index is exactly the position map. -/
theorem Replayed.lookup_iff (hn : (state.applied.map AppliedPoolDelta.blockHash).Nodup) :
    state.appliedIndex.lookup blockHash = some i ↔
      ∃ d, state.applied[i]? = some d ∧ d.blockHash = blockHash := by
  refine ⟨h.getElem?_of_lookup, fun ⟨d, hd, hh⟩ => ?_⟩
  have hmem : blockHash ∈ state.appliedIndex := by
    rw [h.mem_appliedIndex_iff, ← hh]
    exact mem_map_of_mem (mem_of_getElem? hd)
  obtain ⟨j, hj⟩ := mem_iff.mp hmem
  obtain ⟨e, he, heh⟩ := h.getElem?_of_lookup hj
  have hdi : (state.applied.map AppliedPoolDelta.blockHash)[i]? = some blockHash := by
    rw [getElem?_map, hd, Option.map_some, hh]
  have hej : (state.applied.map AppliedPoolDelta.blockHash)[j]? = some blockHash := by
    rw [getElem?_map, he, Option.map_some, heh]
  have hij : i = j := by
    obtain ⟨hi, hgi⟩ := List.getElem?_eq_some_iff.mp hdi
    obtain ⟨hj, hgj⟩ := List.getElem?_eq_some_iff.mp hej
    exact hn.getElem_inj_iff.mp (hgi.trans hgj.symm)
  rw [hij]
  exact hj

end

end Replayed

end PoolState

end Pneumatic
