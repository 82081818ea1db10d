import Pneumatic.Proofs.TreeRefines
import Pneumatic.Shielded.Circuit

/-!
# Membership proofs

`membership_proof` reads the siblings of a leaf out of the store, `append_leaf`
returns those of the new leaf, and `verify_proof` walks them up to a root. The
walk is the library's, so a proof from the tree verifies, and one that
verifies names a leaf of the tree or an empty slot.

The index is a `u64`, and the loops shift it by every level below the depth. In a
release build the amount counts modulo 64, so above level 64 the positions start
again at that of the leaf. The first leaf does not notice, its position is zero
everywhere. With the second one the level above 64 is wrong: it goes to the right
of itself there.
-/

namespace Pneumatic.IncrementalMerkleTree

open MerkleTree List

variable (poseidonHash : List Fp → Fp)

theorem hashPath_eq_climb (index i : Nat)
    (current : Fp) (siblings : List Fp) : hashPath poseidonHash index i current siblings =
      climb (nodeHash poseidonHash) (index / 2 ^ i) current siblings := by
  unfold hashPath
  induction siblings generalizing i current with
  | nil => rfl
  | cons s siblings ih =>
    have hbit : (index >>> i) &&& 1 = index / 2 ^ i % 2 := by
      rw [Nat.and_one_is_mod, Nat.shiftRight_eq_div_pow]
    rw [walkUp, climb, ih, ← div_pow_succ, hbit]
    congr 1
    unfold pairAt
    split <;> rfl

theorem walkUp_congr {pos pos' : Nat → Nat} {i : Nat} {current : Fp} {siblings : List Fp}
    (h : ∀ l, i ≤ l → l < i + siblings.length → pos l = pos' l) :
    walkUp poseidonHash pos i current siblings = walkUp poseidonHash pos' i current siblings := by
  induction siblings generalizing i current with
  | nil => rfl
  | cons s siblings ih =>
    rw [length_cons] at h
    rw [walkUp, walkUp, h i (Nat.le_refl i) (by omega)]
    exact ih fun l hl hlt => h l (by omega) (by omega)

variable {poseidonHash} {depth m : Nat} {leaves : List Fp} {leaf : Fp}

/-- No shift on the way up from an index wraps. -/
def Unwrapped (depth index : Nat) : Prop := depth ≤ 64 ∨ index = 0

theorem Unwrapped.shr {index l : Nat} (h : Unwrapped depth index) (hl : l < depth) :
    shr index l = index >>> l := by
  unfold IncrementalMerkleTree.shr
  rcases h with h | rfl
  · rw [Nat.mod_eq_of_lt (Nat.lt_of_lt_of_le hl h)]
  · rw [Nat.zero_shiftRight, Nat.zero_shiftRight]

theorem Unwrapped.walkUp {siblings : List Fp} {index : Nat}
    (h : Unwrapped siblings.length index) : walkUp poseidonHash (IncrementalMerkleTree.shr index) 0
      leaf siblings = climb (nodeHash poseidonHash) index leaf siblings := by
  rw [walkUp_congr poseidonHash fun l _ hl => h.shr (by omega)]
  have hc := hashPath_eq_climb poseidonHash index 0 leaf siblings
  rwa [Nat.pow_zero, Nat.div_one] at hc

/-- The proof made of the siblings of a leaf. -/
def pathOf (poseidonHash : List Fp → Fp) (depth : Nat) (leaves : List Fp) (index : Nat) :
    MembershipProof where
  index := index
  siblings := (range depth).map fun l => treeNode poseidonHash leaves l (index / 2 ^ l ^^^ 1)

theorem verifyProof_pathOf {index : Nat} (hd : Unwrapped depth index)
    (hr : leaves.length ≤ 2 ^ depth) (hget : leaves[index]? = some leaf) :
    verifyProofWrapping poseidonHash leaf (pathOf poseidonHash depth leaves index)
      (treeNode poseidonHash leaves depth 0) depth = true := by
  have hi : index < leaves.length := (List.getElem?_eq_some_iff.mp hget).1
  have hlt : index < 2 ^ depth := lt_of_lt_of_le hi hr
  have hlen : (pathOf poseidonHash depth leaves index).siblings.length = depth := by simp [pathOf]
  have hw := climb_nodes 0 (nodeHash poseidonHash) depth
    (show index * 2 ^ 0 < leaves.length by simpa using hi)
  simp only [Nat.zero_add, Nat.div_eq_of_lt hlt] at hw
  rw [show node 0 _ leaves 0 index = leaf by simp [node, hget]] at hw
  rw [verifyProofWrapping, if_neg (not_not_intro hlen), if_neg fun h => absurd hlt h.2.not_gt,
    decide_eq_true_eq]
  exact (Unwrapped.walkUp (hlen.symm ▸ hd)).trans hw

theorem Holds.membershipProof {tree : IncrementalMerkleTree} {index : Nat}
    (h : Holds poseidonHash depth leaves tree) (hd : Unwrapped depth index) :
    membershipProof tree index = pathOf poseidonHash depth leaves index := by
  simp only [IncrementalMerkleTree.membershipProof, pathOf, h.depth_eq, MembershipProof.mk.injEq,
    true_and]
  refine map_congr_left fun l hl => ?_
  rw [(h.rows l (mem_range.mp hl).le).getD, hd.shr (mem_range.mp hl), Nat.shiftRight_eq_div_pow]

/-- The siblings the loop of `append_leaf` has collected after `m` levels. -/
theorem AppendInv.siblings {st : AppendState} (h : AppendInv poseidonHash depth leaves leaf 0 st)
    (hst : st.siblings = []) (hm : m ≤ depth) :
    ((range m).foldl (appendStep poseidonHash leaves.length) st).siblings = (range m).map fun l =>
        treeNode poseidonHash (leaves ++ [leaf]) l (leaves.length / 2 ^ l ^^^ 1) := by
  induction m with
  | zero => exact hst
  | succ m ih =>
    have hl := h.loop (Nat.le_of_succ_le hm)
    rw [range_succ, foldl_append, map_append, ← ih (by omega)]
    simp only [foldl_cons, foldl_nil, appendStep, appendStepAt, hl.sibling,
      Nat.shiftRight_eq_div_pow, map_cons, map_nil]

theorem Holds.appendLeaf {tree : IncrementalMerkleTree} (h : Holds poseidonHash depth leaves tree) :
    appendLeaf poseidonHash tree leaf = (IncrementalMerkleTree.push poseidonHash tree leaf,
      treeNode poseidonHash (leaves ++ [leaf]) depth (leaves.length / 2 ^ depth),
      pathOf poseidonHash depth (leaves ++ [leaf]) leaves.length) := by
  have hi := @Holds.appendInit _ _ _ leaf _ h
  refine Prod.ext rfl ?_
  simp only [IncrementalMerkleTree.appendLeaf, h.depth_eq, h.leafCount_eq,
    (hi.loop (Nat.le_refl depth)).current, hi.siblings rfl (Nat.le_refl depth), pathOf]

/-! ## Release builds -/

theorem appendLeafWrapping_eq {tree : IncrementalMerkleTree}
    (h : Unwrapped tree.depth tree.leafCount) (hc : tree.leafCount + 1 < 2 ^ 64) :
    appendLeafWrapping poseidonHash tree leaf = appendLeaf poseidonHash tree leaf := by
  unfold appendLeafWrapping IncrementalMerkleTree.appendLeaf
  rw [Nat.mod_eq_of_lt hc, foldl_ext _ _ _ fun st l hl => ?_]
  rw [appendStep, h.shr (mem_range.mp hl)]

/-- The append, to the tree that `from_leaves` makes. -/
def appended (poseidonHash : List Fp → Fp) (depth : Nat) (leaves : List Fp) (leaf : Fp) :
    IncrementalMerkleTree × Fp × MembershipProof :=
  appendLeafWrapping poseidonHash (fromLeavesWrapping poseidonHash depth leaves) leaf

theorem fromLeavesWrapping_concat : fromLeavesWrapping poseidonHash depth (leaves ++ [leaf]) =
    (appended poseidonHash depth leaves leaf).1 := by
  simp [fromLeavesWrapping, appended]

theorem fromLeavesWrapping_eq (hd : depth + 1 < 2 ^ 32) (hc : leaves.length < 2 ^ 64)
    (h : depth ≤ 64 ∨ leaves.length ≤ 1) :
    fromLeavesWrapping poseidonHash depth leaves = fromLeaves poseidonHash depth leaves := by
  induction leaves using reverseRecOn with
  | nil => simp only [fromLeavesWrapping, foldl_nil, newWrapping, Nat.mod_eq_of_lt hd]; rfl
  | append_singleton leaves leaf ih =>
    rw [length_append, length_singleton] at hc h
    have hold := @holds_fromLeaves poseidonHash depth leaves
    have hs : Unwrapped depth leaves.length := h.imp_right fun h => by omega
    rw [fromLeavesWrapping_concat, appended, ih (by omega) (h.imp_right fun h => by omega),
      fromLeaves_append, appendLeafWrapping_eq]
    · rfl
    · rwa [hold.depth_eq, hold.leafCount_eq]
    · rwa [hold.leafCount_eq]

/-- What an append of `leaf` after `leaves` returns and leaves behind is the specified
tree, with proofs that verify. -/
structure Specified (poseidonHash : List Fp → Fp) (depth : Nat) (leaves : List Fp) (leaf : Fp)
    (result : IncrementalMerkleTree × Fp × MembershipProof) : Prop where
  returned : result.2.1 = treeNode poseidonHash (leaves ++ [leaf]) depth 0
  root : result.1.root = result.2.1
  rows : ∀ l ≤ depth, Represents poseidonHash (result.1.levels.getD l []) (leaves ++ [leaf]) l
  proof : verifyProofWrapping poseidonHash leaf result.2.2 result.2.1 depth = true
  proofs : ∀ i x, (leaves ++ [leaf])[i]? = some x → verifyProofWrapping poseidonHash x
    (membershipProof result.1 i) result.2.1 depth = true

theorem specified_of_unwrapped (hd : depth + 1 < 2 ^ 32) (hc : leaves.length + 1 < 2 ^ 64)
    (hroom : leaves.length < 2 ^ depth) (h : depth ≤ 64 ∨ leaves = []) :
    Specified poseidonHash depth leaves leaf (appended poseidonHash depth leaves leaf) := by
  have hold := @holds_fromLeaves poseidonHash depth leaves
  have hnew := @holds_fromLeaves poseidonHash depth (leaves ++ [leaf])
  have hr := @root_fromLeaves poseidonHash depth (leaves ++ [leaf])
  have hlen : (leaves ++ [leaf]).length ≤ 2 ^ depth := by simpa using hroom
  have hs : ∀ i x, (leaves ++ [leaf])[i]? = some x → Unwrapped depth i := by
    intro i x hget
    refine h.imp_right ?_
    rintro rfl
    simpa using (List.getElem?_eq_some_iff.mp hget).1
  have hlast : (leaves ++ [leaf])[leaves.length]? = some leaf := by simp
  rw [fromLeaves_append] at hnew hr
  rw [appended, fromLeavesWrapping_eq hd (by omega) (h.imp_right fun h => by simp [h]),
    appendLeafWrapping_eq, hold.appendLeaf, Nat.div_eq_of_lt hroom]
  · refine ⟨rfl, hr, hnew.rows, verifyProof_pathOf (hs _ _ hlast) hlen hlast, fun i x hget => ?_⟩
    have hp := hnew.membershipProof (hs i x hget)
    exact hp ▸ verifyProof_pathOf (hs i x hget) hlen hget
  · rw [hold.depth_eq, hold.leafCount_eq]
    exact hs _ _ hlast
  · rwa [hold.leafCount_eq]

/-! ### Above level 64 -/

section Deep

variable {st : AppendState} {pos : Nat → Nat} {levels : List Nat}

theorem length_foldl_levels :
    (levels.foldl (fun st l => appendStepAt poseidonHash (pos l) st l) st).levels.length =
      st.levels.length := by
  induction levels generalizing st with
  | nil => rfl
  | cons l levels ih => rw [foldl_cons, ih, appendStepAt, length_set]

/-- An iteration writes the row above its level alone. -/
theorem getD_foldl_levels {r : Nat} (h : ∀ l ∈ levels, l + 1 ≠ r) :
    (levels.foldl (fun st l => appendStepAt poseidonHash (pos l) st l) st).levels.getD r [] =
      st.levels.getD r [] := by
  induction levels generalizing st with
  | nil => rfl
  | cons l levels ih =>
    rw [foldl_cons, ih fun l' hl' => h l' (mem_cons_of_mem l hl'), appendStepAt]
    simp only [getD, getElem?_set, if_neg (h l mem_cons_self)]

/-- The row above level 64 is written at half the index. -/
theorem row_65 {tree : IncrementalMerkleTree} (hd : 64 < tree.depth)
    (hl : 65 < tree.levels.length) :
    let st := (range 64).foldl (fun st l => appendStepAt poseidonHash (shr tree.leafCount l) st l)
      (appendInit tree leaf)
    (appendLeafWrapping poseidonHash tree leaf).1.levels.getD 65 [] =
      writeNode (tree.levels.getD 65 []) (tree.leafCount >>> 1)
        (appendStepAt poseidonHash tree.leafCount st 64).current := by
  intro st
  obtain ⟨k, hk⟩ := Nat.exists_eq_add_of_le hd
  have hlen : st.levels.length = tree.levels.length := by
    rw [length_foldl_levels, appendInit, length_set]
  have hrow : st.levels.getD 65 [] = tree.levels.getD 65 [] := by
    rw [getD_foldl_levels fun l hl => by have := mem_range.mp hl; omega]
    simp [appendInit, getD]
  unfold appendLeafWrapping
  dsimp only
  rw [hk, range_add, foldl_append, getD_foldl_levels (by simp; omega), range_succ, foldl_append]
  change ((appendStepAt poseidonHash (shr tree.leafCount 64) st 64).levels.getD 65 []) = _
  rw [appendStepAt, getD_set_of_lt (by omega), if_pos rfl, hrow]
  rfl

theorem length_writeNode (row : List Fp) (pos : Nat) (value : Fp) :
    (writeNode row pos value).length = if pos = row.length then row.length + 1 else row.length := by
  unfold writeNode
  split <;> simp

theorem length_levels_fromLeavesWrapping :
    (fromLeavesWrapping poseidonHash depth leaves).levels.length = (depth + 1) % 2 ^ 32 := by
  induction leaves using reverseRecOn with
  | nil => exact length_replicate
  | append_singleton leaves leaf ih =>
    rw [fromLeavesWrapping_concat, appended, appendLeafWrapping, length_foldl_levels, appendInit,
      length_set, ih]

/-- The row above level 64 is as long as that above the leaves. -/
theorem length_row_65 (hd : depth + 1 < 2 ^ 32) (h64 : 64 < depth)
    (hc : leaves.length < 2 ^ 64) :
    let tree := fromLeavesWrapping poseidonHash depth leaves
    tree.depth = depth ∧ tree.leafCount = leaves.length ∧
      (tree.levels.getD 65 []).length = (leaves.length + 1) / 2 := by
  induction leaves using reverseRecOn with
  | nil =>
    rw [fromLeavesWrapping_eq hd hc (.inr (Nat.zero_le 1))]
    exact ⟨rfl, rfl, by simp [fromLeaves, new, getD]⟩
  | append_singleton leaves leaf ih =>
    rw [length_append, length_singleton] at hc ⊢
    obtain ⟨hdp, hct, hrw⟩ := ih (by omega)
    rw [fromLeavesWrapping_concat]
    refine ⟨hdp, ?_, ?_⟩
    · show (_ + 1) % 2 ^ 64 = _
      rw [hct, Nat.mod_eq_of_lt hc]
    · rw [appended, row_65 (by omega), length_writeNode, hrw, hct, Nat.shiftRight_one]
      · split <;> omega
      · rw [length_levels_fromLeavesWrapping, Nat.mod_eq_of_lt hd]
        omega

theorem getD_writeNode_zero (row : List Fp) (value : Fp) :
    (writeNode row 0 value).getD 0 0 = value := by
  cases row <;> rfl

/-- A hash that shows whether its right input is zero. -/
def rightZero (xs : List Fp) : Fp := if xs.getD 1 0 = 0 then 1 else -1

theorem treeNode_rightZero_ne {pos : Nat} (h : pos * 2 ^ (m + 1) < leaves.length) :
    treeNode rightZero leaves (m + 1) pos ≠ 0 := by
  rw [treeNode, node_succ _ _ h, nodeHash, rightZero]
  split <;> decide

theorem current_appendStepAt_one (st : AppendState) (l : Nat) :
    (appendStepAt poseidonHash 1 st l).current =
      poseidonHash [(st.levels.getD l []).getD 0 0, st.current] := rfl

/-- The second leaf makes the node above level 64 of two copies of the one below. -/
theorem second_leaf_not_specified (a : Fp) (hd : depth + 1 < 2 ^ 32) (h64 : 64 < depth) :
    ¬ Specified rightZero depth [a] leaf (appended rightZero depth [a] leaf) := by
  intro h
  have hold := @holds_fromLeaves rightZero depth [a]
  have hrow := (h.rows 65 h64).getD 0
  have hone : fromLeavesWrapping rightZero depth [a] = fromLeaves rightZero depth [a] :=
    fromLeavesWrapping_eq hd (by simp) (.inr (by simp))
  have hinv := (@Holds.appendInit _ _ _ leaf _ hold).loop (Nat.le_of_lt h64)
  rw [length_singleton] at hinv
  have hfold : (range 64).foldl (fun st l => appendStepAt rightZero (shr 1 l) st l)
      (appendInit (fromLeaves rightZero depth [a]) leaf) =
        (range 64).foldl (appendStep rightZero 1)
          (appendInit (fromLeaves rightZero depth [a]) leaf) := by
    refine foldl_ext _ _ _ fun st l hl => ?_
    rw [appendStep, Unwrapped.shr (.inl (Nat.le_refl 64)) (mem_range.mp hl)]
  have hc : treeNode rightZero ([a] ++ [leaf]) 64 0 ≠ 0 := treeNode_rightZero_ne (by simp)
  have hz : treeNode rightZero ([a] ++ [leaf]) 64 1 = 0 := node_eq_zero _ _ (by simp)
  have htop : treeNode rightZero ([a] ++ [leaf]) 65 0 = rightZero
      [treeNode rightZero ([a] ++ [leaf]) 64 0, treeNode rightZero ([a] ++ [leaf]) 64 1] :=
    node_succ _ _ (by simp)
  rw [appended, hone, row_65 (by rw [hold.depth_eq]; exact h64) (by rw [hold.length]; omega),
    hold.leafCount_eq, length_singleton, hfold, show 1 >>> 1 = 0 from rfl, getD_writeNode_zero,
    current_appendStepAt_one, hinv.sibling, hinv.current, length_singleton,
    show 1 / 2 ^ 64 = 0 by simp, htop, hz] at hrow
  -- the last step has hashed its node behind itself, not before an empty one
  simp only [rightZero, getD_cons_succ, getD_cons_zero, if_neg hc, if_true] at hrow
  exact absurd hrow (by decide)

end Deep

/-- An append into a tree with room gives the specified tree for every hash exactly if the
depth is at most 64, or the leaf is the first and the levels can be counted. -/
theorem append_specified_iff (depth : Nat) (leaves : List Fp) (leaf : Fp)
    (hdepth : depth < 2 ^ 32) (hcount : leaves.length + 1 < 2 ^ 64)
    (hroom : leaves.length < 2 ^ depth) :
    (∀ poseidonHash, Specified poseidonHash depth leaves leaf
      (appended poseidonHash depth leaves leaf)) ↔
        depth ≤ 64 ∨ leaves = [] ∧ depth + 1 < 2 ^ 32 := by
  constructor
  · intro h
    by_contra ho
    rw [not_or, not_and_or, Nat.not_le] at ho
    obtain ⟨h64, ho⟩ := ho
    have hrows := (h rightZero).rows
    rw [← fromLeavesWrapping_concat] at hrows
    by_cases hd : depth + 1 < 2 ^ 32
    · match leaves, ho.resolve_right (not_not_intro hd) with
      | [a], _ => exact second_leaf_not_specified a hd h64 (h rightZero)
      | a :: b :: rest, _ =>
        -- two nodes above level 64 already
        have hlen := (@length_row_65 rightZero depth (a :: b :: rest ++ [leaf]) hd h64
          (by simpa using hcount)).2.2
        have hlt := (hrows 65 h64).lt_length 1
        simp only [length_append, length_cons, length_nil] at hlen hlt hcount
        omega
    · -- there are no levels
      have hlen := @length_levels_fromLeavesWrapping rightZero depth (leaves ++ [leaf])
      rw [show depth + 1 = 2 ^ 32 by omega, Nat.mod_self, length_eq_zero_iff] at hlen
      have hlt := (hrows 0 (Nat.zero_le depth)).lt_length 0
      simp [hlen] at hlt
  · intro h poseidonHash
    exact specified_of_unwrapped (by omega) hcount hroom (h.imp_right And.left)

theorem deep_tree_specified :
    (∀ poseidonHash, Specified poseidonHash 2 [1] 2 (appended poseidonHash 2 [1] 2)) ∧
    ∀ poseidonHash, Specified poseidonHash 65 [] 1 (appended poseidonHash 65 [] 1) :=
  ⟨(append_specified_iff 2 [1] 2 (by decide) (by decide) (by decide)).mpr (.inl (by decide)),
    (append_specified_iff 65 [] 1 (by decide) (by decide) (by decide)).mpr
      (.inr ⟨rfl, by decide⟩)⟩

/-- The second leaf in a tree of depth 65. -/
theorem depth_65_wraps :
    ¬ Specified rightZero 65 [1] 2 (appended rightZero 65 [1] 2) :=
  second_leaf_not_specified 1 (by decide) (by decide)

end Pneumatic.IncrementalMerkleTree
