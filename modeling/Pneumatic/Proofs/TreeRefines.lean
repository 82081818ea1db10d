import Pneumatic.Lib.MerkleTree
import Pneumatic.Shielded.Tree

/-!
# The incremental tree refines the abstract one

The tree of `tree.rs` stores its levels and patches them; the tree of the
library is a function of the leaves. This file shows that the first holds the
second: after any appends, level `l` of the store lists exactly the nonempty
nodes of level `l`, in order, and so the stored root is the abstract root.

The loop of `append_leaf` is the whole argument. Below the level it has
reached the store already represents the tree with the new leaf, above it
still represents the old one, and the running value is the new tree's node on
the path. An iteration moves the boundary up by one, because the sibling it
reads is a node that the append does not change. Nothing asks the tree to have
room: past `2 ^ depth` leaves the walk writes beyond the root's slot, and the
root keeps the value of the full tree, as the abstract root does.
-/

namespace Pneumatic.IncrementalMerkleTree

open MerkleTree List IncrementalMerkleTree

variable (poseidonHash : List Fp → Fp)

abbrev nodeHash (left right : Fp) : Fp := poseidonHash [left, right]

/-- The abstract tree over Poseidon with the zero leaf. -/
abbrev treeNode (leaves : List Fp) (level pos : Nat) : Fp :=
  node 0 (nodeHash poseidonHash) leaves level pos

/-- A stored row lists the nonempty nodes of one level. -/
structure Represents (row leaves : List Fp) (level : Nat) : Prop where
  getD : ∀ pos, row.getD pos 0 = treeNode poseidonHash leaves level pos
  lt_length : ∀ pos, pos < row.length ↔ pos * 2 ^ level < leaves.length

variable {poseidonHash}

theorem getD_append_singleton (xs : List Fp) (x : Fp) (i : Nat) :
    (xs ++ [x]).getD i 0 = if i = xs.length then x else xs.getD i 0 := by
  simp only [getD]
  split
  · next h => subst h; simp
  · next h =>
    rcases Nat.lt_or_gt_of_ne h with hlt | hgt
    · rw [getElem?_append_left hlt]
    · have hlen : (xs ++ [x]).length ≤ i := by
        rw [length_append, length_singleton]
        omega
      rw [getElem?_eq_none hlen, getElem?_eq_none (by omega)]

theorem getD_set_of_lt {α : Type*} {xs : List α} {x d : α} {i : Nat} (h : i < xs.length) (j : Nat) :
    (xs.set i x).getD j d = if j = i then x else xs.getD j d := by
  simp only [getD, getElem?_set]
  split
  · next hij => subst hij; rw [if_pos rfl]; rfl
  · next hij => rw [if_neg (Ne.symm hij)]

variable {leaves : List Fp} {level depth m : Nat} {leaf : Fp} {st : AppendState}

theorem Represents.slot_le {row : List Fp} (h : Represents poseidonHash row leaves level) :
    leaves.length / 2 ^ level ≤ row.length := by
  by_contra hlt
  rw [Nat.not_le] at hlt
  -- otherwise the position just past the row still has a leaf below it
  have hmul : (row.length + 1) * 2 ^ level ≤ leaves.length :=
    (Nat.le_div_iff_mul_le (Nat.two_pow_pos level)).mp hlt
  have hpos : row.length * 2 ^ level < leaves.length := by
    have := Nat.two_pow_pos level
    rw [Nat.add_mul] at hmul
    omega
  exact absurd ((h.lt_length row.length).mpr hpos) (Nat.lt_irrefl _)

theorem mul_pow_lt_succ_iff {n pos : Nat} : pos * 2 ^ level < n + 1 ↔ pos ≤ n / 2 ^ level := by
  rw [Nat.lt_succ_iff, Nat.le_div_iff_mul_le (Nat.two_pow_pos level)]

/-- Writing the new node into a row of the old tree gives the row of the new
one. -/
theorem Represents.writeNode {row : List Fp} (h : Represents poseidonHash row leaves level) :
    Represents poseidonHash (writeNode row (leaves.length / 2 ^ level)
        (treeNode poseidonHash (leaves ++ [leaf]) level (leaves.length / 2 ^ level)))
      (leaves ++ [leaf]) level := by
  have hs := h.slot_le
  have hold : ∀ pos, pos ≠ leaves.length / 2 ^ level →
      row.getD pos 0 = treeNode poseidonHash (leaves ++ [leaf]) level pos :=
    fun pos hpos => (h.getD pos).trans (node_append_of_ne _ _ hpos).symm
  have hlen : (leaves ++ [leaf]).length = leaves.length + 1 := by simp
  -- the slot is the first free one and is pushed, or is there and is set
  unfold IncrementalMerkleTree.writeNode
  split
  · next hp =>
    constructor
    · intro pos
      rw [getD_append_singleton, ← hp]
      split
      · next heq => rw [heq]
      · next hne => exact hold pos hne
    · intro pos
      rw [hlen, mul_pow_lt_succ_iff, hp, length_append, length_singleton]
      omega
  · next hset =>
    have hlt : leaves.length / 2 ^ level < row.length := by omega
    constructor
    · intro pos
      rw [getD_set_of_lt hlt]
      split
      · next heq => rw [heq]
      · next hne => exact hold pos hne
    · intro pos
      rw [length_set, h.lt_length, hlen]
      have hf := (h.lt_length _).mp hlt
      constructor
      · omega
      · intro hpos
        rw [mul_pow_lt_succ_iff] at hpos
        exact lt_of_le_of_lt (Nat.mul_le_mul_right _ hpos) hf

/-- The loop invariant of `append_leaf` after `m` levels. -/
structure AppendInv (poseidonHash : List Fp → Fp) (depth : Nat)
    (leaves : List Fp) (leaf : Fp) (m : Nat) (st : AppendState) : Prop where
  length : st.levels.length = depth + 1
  below : ∀ l ≤ m, Represents poseidonHash (st.levels.getD l []) (leaves ++ [leaf]) l
  above : ∀ l, m < l → l ≤ depth → Represents poseidonHash (st.levels.getD l []) leaves l
  current : st.current = treeNode poseidonHash (leaves ++ [leaf]) m (leaves.length / 2 ^ m)

section

variable (h : AppendInv poseidonHash depth leaves leaf m st)

include h

theorem AppendInv.sibling (pos : Nat) :
    (st.levels.getD m []).getD pos 0 = treeNode poseidonHash (leaves ++ [leaf]) m pos :=
  (h.below m (Nat.le_refl m)).getD pos

theorem AppendInv.next_node : (appendStep poseidonHash leaves.length st m).current =
      treeNode poseidonHash (leaves ++ [leaf]) (m + 1) (leaves.length / 2 ^ (m + 1)) := by
  have hlt : leaves.length / 2 ^ m / 2 * 2 ^ (m + 1) < (leaves ++ [leaf]).length := by
    rw [← div_pow_succ, length_append]
    exact Nat.lt_succ_of_le (Nat.div_mul_le_self ..)
  rw [treeNode, div_pow_succ, ← climb_sibling 0 (nodeHash poseidonHash) hlt]
  simp only [appendStep, appendStepAt, h.sibling, h.current, Nat.shiftRight_eq_div_pow, climb,
    pairAt]
  split <;> rfl

theorem AppendInv.step (hm : m < depth) : AppendInv poseidonHash depth leaves leaf (m + 1)
      (appendStep poseidonHash leaves.length st m) := by
  have hn := h.next_node
  have hlen : m + 1 < st.levels.length := by rw [h.length]; omega
  have hw : (appendStep poseidonHash leaves.length st m).levels = st.levels.set (m + 1)
        (writeNode (st.levels.getD (m + 1) []) (leaves.length / 2 ^ (m + 1))
          (treeNode poseidonHash (leaves ++ [leaf]) (m + 1) (leaves.length / 2 ^ (m + 1)))) := by
    rw [← hn, div_pow_succ]
    simp only [appendStep, appendStepAt, Nat.shiftRight_eq_div_pow, Nat.pow_one]
  constructor
  · rw [hw, length_set, h.length]
  · intro l hl
    rw [hw, getD_set_of_lt hlen]
    split
    · next heq =>
      subst heq
      exact (h.above (m + 1) (Nat.lt_succ_self m) hm).writeNode
    · next hne => exact h.below l (by omega)
  · intro l hl hd
    rw [hw, getD_set_of_lt hlen, if_neg (by omega)]
    exact h.above l (by omega) hd
  · exact hn

end

theorem AppendInv.loop (h : AppendInv poseidonHash depth leaves leaf 0 st) (hm : m ≤ depth) :
    AppendInv poseidonHash depth leaves leaf m
      ((range m).foldl (appendStep poseidonHash leaves.length) st) := by
  induction m with
  | zero => exact h
  | succ m ih =>
    rw [range_succ, foldl_append]
    exact (ih (by omega)).step (by omega)

/-- The store holds the abstract tree over `leaves`. -/
structure Holds (poseidonHash : List Fp → Fp) (depth : Nat) (leaves : List Fp)
    (tree : IncrementalMerkleTree) : Prop where
  depth_eq : tree.depth = depth
  leafCount_eq : tree.leafCount = leaves.length
  length : tree.levels.length = depth + 1
  rows : ∀ l ≤ depth, Represents poseidonHash (tree.levels.getD l []) leaves l

theorem holds_new (depth : Nat) : Holds poseidonHash depth [] (new depth) where
  depth_eq := rfl
  leafCount_eq := rfl
  length := by simp [new]
  rows l hl := by
    have hrow : (new depth).levels.getD l [] = [] := by
      simp [new, getD, Nat.lt_succ_iff.mpr hl]
    rw [hrow]
    exact ⟨fun pos => (node_nil _ _ l pos).symm, fun pos => by simp⟩

theorem Holds.appendInit {tree : IncrementalMerkleTree} (h : Holds poseidonHash depth leaves tree) :
    AppendInv poseidonHash depth leaves leaf 0 (appendInit tree leaf) := by
  have hlen : 0 < tree.levels.length := by rw [h.length]; omega
  -- the push at level zero is the write of the new leaf's node
  have hp : tree.levels.getD 0 [] ++ [leaf] =
      writeNode (tree.levels.getD 0 []) (leaves.length / 2 ^ 0)
        (treeNode poseidonHash (leaves ++ [leaf]) 0 (leaves.length / 2 ^ 0)) := by
    have hrow := (h.rows 0 (Nat.zero_le _)).lt_length
    have hln : (tree.levels.getD 0 []).length = leaves.length := by
      have h1 := hrow leaves.length
      have h2 := hrow (tree.levels.getD 0 []).length
      simp only [Nat.pow_zero, Nat.mul_one] at h1 h2
      omega
    rw [Nat.pow_zero, Nat.div_one, writeNode, if_pos hln.symm]
    simp [node]
  constructor
  · simp [IncrementalMerkleTree.appendInit, h.length]
  · intro l hl
    obtain rfl : l = 0 := by omega
    simp only [IncrementalMerkleTree.appendInit]
    rw [getD_set_of_lt hlen, if_pos rfl, hp]
    exact (h.rows 0 (Nat.zero_le _)).writeNode
  · intro l hl hd
    simp only [IncrementalMerkleTree.appendInit]
    rw [getD_set_of_lt hlen, if_neg (by omega)]
    exact h.rows l hd
  · simp [IncrementalMerkleTree.appendInit, node]

theorem Holds.push {tree : IncrementalMerkleTree} (h : Holds poseidonHash depth leaves tree) :
    Holds poseidonHash depth (leaves ++ [leaf]) (push poseidonHash tree leaf) := by
  have hlp := (@Holds.appendInit _ _ _ leaf _ h).loop (Nat.le_refl depth)
  constructor
  · rw [depth_push, h.depth_eq]
  · rw [leafCount_push, h.leafCount_eq, length_append, length_singleton]
  · simpa [IncrementalMerkleTree.push, appendLeaf, h.depth_eq, h.leafCount_eq] using hlp.length
  · intro l hl
    simpa [IncrementalMerkleTree.push, appendLeaf, h.depth_eq, h.leafCount_eq] using hlp.below l hl

theorem holds_fromLeaves (depth : Nat) (leaves : List Fp) :
    Holds poseidonHash depth leaves (fromLeaves poseidonHash depth leaves) := by
  induction leaves using reverseRecOn with
  | nil => exact holds_new depth
  | append_singleton leaves leaf ih =>
    rw [fromLeaves_append]
    exact ih.push

/-- The stored root of a rebuilt tree is the abstract root, also past the
tree's capacity. -/
theorem root_fromLeaves (depth : Nat) (leaves : List Fp) :
    (fromLeaves poseidonHash depth leaves).root = treeNode poseidonHash leaves depth 0 := by
  have h := @holds_fromLeaves poseidonHash depth leaves
  unfold root
  split
  · next hz =>
    rw [h.leafCount_eq, length_eq_zero_iff] at hz
    rw [hz, treeNode, node_nil]
  · rw [h.depth_eq, (h.rows depth (Nat.le_refl depth)).getD]

end Pneumatic.IncrementalMerkleTree
