import Mathlib.Data.Nat.Bitwise
import Mathlib.Data.Set.Function
import Mathlib.Tactic.Ring

/-!
# Sparse Merkle trees over a list of leaves

The tree of a list of leaves, as a function of level and position: level zero
holds the leaves, a node above hashes its two children, and a subtree with no
leaf in it is the zero element rather than the hash of an empty subtree. The
last convention is what an append-only implementation gets for free, because a
node that was never written reads as zero.

Two families of facts. Appending a leaf changes one node per level, the one
above the new leaf (`node_append_of_ne`). And a path of siblings that hashes to
a node of the tree starts at the leaf it claims (`eq_node_of_climb`), unless
two of the pairs hashed in the process collide or one of them hashes to zero.
A hash into a finite type does collide somewhere, so the second fact asks for
collision freedom on the pairs in question and never globally.
-/

namespace MerkleTree

open List

variable {α : Type*} (zero : α) (hash : α → α → α)

/-- The node at a level and position of the tree over `leaves`. -/
def node (leaves : List α) : (level pos : Nat) → α
  | 0, pos => leaves.getD pos zero
  | level + 1, pos =>
    if pos * 2 ^ (level + 1) < leaves.length then
      hash (node leaves level (2 * pos)) (node leaves level (2 * pos + 1))
    else zero

/-- The pair a path hashes at a position: the running value sits left at an
even position and right at an odd one. -/
def pairAt (pos : Nat) (current sibling : α) : α × α :=
  if pos % 2 = 0 then (current, sibling) else (sibling, current)

/-- The value a path of siblings hashes up to. -/
def climb : (pos : Nat) → (current : α) → (siblings : List α) → α
  | _, current, [] => current
  | pos, current, sibling :: siblings =>
    climb (pos / 2) (hash (pairAt pos current sibling).1 (pairAt pos current sibling).2) siblings

def pathQueries : (pos : Nat) → (current : α) → (siblings : List α) → List (α × α)
  | _, _, [] => []
  | pos, current, sibling :: siblings =>
    pairAt pos current sibling :: pathQueries (pos / 2)
        (hash (pairAt pos current sibling).1 (pairAt pos current sibling).2)
        siblings

/-- The pairs hashed in the tree over `leaves`, up to a depth. -/
def treeQueries (leaves : List α) (depth : Nat) : Set (α × α) :=
  { q | ∃ level pos, level < depth ∧ pos * 2 ^ (level + 1) < leaves.length ∧
      q = (node zero hash leaves level (2 * pos),
        node zero hash leaves level (2 * pos + 1)) }

/-- No two of the pairs collide and none of them hashes to zero. -/
structure CollisionFree (queries : Set (α × α)) : Prop where
  inj : ∀ p ∈ queries, ∀ q ∈ queries, hash p.1 p.2 = hash q.1 q.2 → p = q
  ne_zero : ∀ p ∈ queries, hash p.1 p.2 ≠ zero

theorem CollisionFree.mono {zero : α} {hash : α → α → α} {queries queries' : Set (α × α)}
    (h : CollisionFree zero hash queries) (hsub : queries' ⊆ queries) :
    CollisionFree zero hash queries' where
  inj p hp q hq := h.inj p (hsub hp) q (hsub hq)
  ne_zero p hp := h.ne_zero p (hsub hp)

variable {leaves : List α} {level pos : Nat}

theorem node_eq_zero (h : leaves.length ≤ pos * 2 ^ level) :
    node zero hash leaves level pos = zero := by
  cases level with
  | zero =>
    simp only [Nat.pow_zero, Nat.mul_one] at h
    simp [node, getD, getElem?_eq_none h]
  | succ level => simp only [node, if_neg (Nat.not_lt.mpr h)]

theorem node_nil (level pos : Nat) : node zero hash [] level pos = zero :=
  node_eq_zero zero hash (Nat.zero_le _)

theorem node_succ (h : pos * 2 ^ (level + 1) < leaves.length) :
    node zero hash leaves (level + 1) pos = hash (node zero hash leaves level (2 * pos))
        (node zero hash leaves level (2 * pos + 1)) := by
  simp only [node, if_pos h]

theorem div_pow_succ (n level : Nat) : n / 2 ^ (level + 1) = n / 2 ^ level / 2 := by
  rw [Nat.div_div_eq_div_mul, ← Nat.pow_succ]

variable {leaf : α}

theorem node_append_of_ne
    (h : pos ≠ leaves.length / 2 ^ level) : node zero hash (leaves ++ [leaf]) level pos =
      node zero hash leaves level pos := by
  induction level generalizing pos with
  | zero =>
    simp only [Nat.pow_zero, Nat.div_one] at h
    simp only [node, getD]
    rcases Nat.lt_or_gt_of_ne h with hlt | hgt
    · rw [getElem?_append_left hlt]
    · have hlen : (leaves ++ [leaf]).length ≤ pos := by
        rw [length_append, length_singleton]
        omega
      rw [getElem?_eq_none hlen, getElem?_eq_none (by omega)]
  | succ level ih =>
    -- the two conditions differ only at the position just excluded
    have hc : pos * 2 ^ (level + 1) < (leaves ++ [leaf]).length ↔
        pos * 2 ^ (level + 1) < leaves.length := by
      rw [length_append, length_singleton]
      constructor
      · intro hlt
        rcases Nat.lt_succ_iff_lt_or_eq.mp hlt with hlt | heq
        · exact hlt
        · refine absurd ?_ h
          rw [← heq, Nat.mul_div_cancel _ (Nat.two_pow_pos _)]
      · omega
    rw [div_pow_succ] at h
    simp only [node, hc]
    rw [ih (by omega), ih (by omega)]

/-- A node and its sibling hash to their parent, if there is a leaf below it. -/
theorem climb_sibling (h : pos / 2 * 2 ^ (level + 1) < leaves.length) :
    climb hash pos (node zero hash leaves level pos) [node zero hash leaves level (pos ^^^ 1)] =
      node zero hash leaves (level + 1) (pos / 2) := by
  rw [node_succ zero hash h]
  simp only [climb, pairAt]
  rcases Nat.mod_two_eq_zero_or_one pos with hev | hodd
  · rw [if_pos hev, Nat.xor_one_of_even (Nat.even_iff.mpr hev), show 2 * (pos / 2) = pos by omega]
  · rw [if_neg (by omega), Nat.xor_one_of_odd (Nat.odd_iff.mpr hodd),
      show 2 * (pos / 2) + 1 = pos by omega, show 2 * (pos / 2) = pos - 1 by omega]

/-- The siblings above a node with a leaf below it lead to its ancestors. -/
theorem climb_nodes (k : Nat) (h : pos * 2 ^ level < leaves.length) :
    climb hash pos (node zero hash leaves level pos)
      ((range k).map fun l => node zero hash leaves (level + l) (pos / 2 ^ l ^^^ 1)) =
        node zero hash leaves (level + k) (pos / 2 ^ k) := by
  induction k generalizing level pos with
  | zero => simp [climb]
  | succ k ih =>
    have hh : pos / 2 * 2 ^ (level + 1) < leaves.length := by
      refine lt_of_le_of_lt ?_ h
      rw [Nat.pow_succ', ← Nat.mul_assoc]
      exact Nat.mul_le_mul_right _ (Nat.div_mul_le_self pos 2)
    have hr := ih hh
    rw [← climb_sibling zero hash hh, Nat.div_div_eq_div_mul, ← Nat.pow_succ'] at hr
    rw [range_succ_eq_map, map_cons, map_map, Nat.add_comm k, ← Nat.add_assoc, Nat.add_comm 1, ← hr]
    simp only [climb, Function.comp_def, Nat.div_div_eq_div_mul, ← Nat.pow_succ',
      Nat.succ_eq_add_one, Nat.add_right_comm level, Nat.add_zero, Nat.pow_zero, Nat.div_one,
      Nat.add_assoc]

section Binding

variable {zero : α} {hash : α → α → α}

/-- A path that hashes to the node above it starts at the node it claims. -/
theorem eq_node_of_climb {depth : Nat} {siblings : List α} {current : α}
    (hd : level + siblings.length ≤ depth)
    (hfree : CollisionFree zero hash ({q | q ∈ pathQueries hash pos current siblings} ∪
        treeQueries zero hash leaves depth)) (h : climb hash pos current siblings =
      node zero hash leaves (level + siblings.length) (pos / 2 ^ siblings.length)) :
    current = node zero hash leaves level pos := by
  induction siblings generalizing level pos current with
  | nil => simpa [climb] using h
  | cons s siblings ih =>
    simp only [length_cons] at hd h
    -- the induction hypothesis names the parent
    have hc : climb hash (pos / 2)
        (hash (pairAt pos current s).1 (pairAt pos current s).2)
        siblings = node zero hash leaves (level + 1 + siblings.length)
            (pos / 2 / 2 ^ siblings.length) := by
      rw [Nat.div_div_eq_div_mul, ← Nat.pow_succ', Nat.add_right_comm]
      exact h
    have hp := ih (by omega) (hfree.mono (Set.union_subset_union_left _ (fun q hq =>
        mem_cons_of_mem _ hq))) hc
    have hmem : pairAt pos current s ∈
        {q | q ∈ pathQueries hash pos current (s :: siblings)} ∪
          treeQueries zero hash leaves depth :=
      Or.inl (mem_cons_self ..)
    by_cases hlt : pos / 2 * 2 ^ (level + 1) < leaves.length
    · rw [node_succ zero hash hlt] at hp
      have hpr := hfree.inj _ hmem _ (Or.inr ⟨level, _, by omega, hlt, rfl⟩) hp
      rcases Nat.mod_two_eq_zero_or_one pos with hev | hodd
      · have hpos : 2 * (pos / 2) = pos := by omega
        rw [pairAt, if_pos hev, hpos] at hpr
        exact (Prod.mk.inj hpr).1
      · have hpos : 2 * (pos / 2) + 1 = pos := by omega
        rw [pairAt, if_neg (by omega), hpos] at hpr
        exact (Prod.mk.inj hpr).2
    · -- an empty subtree is zero, and no queried pair hashes to zero
      rw [node_eq_zero zero hash (Nat.not_lt.mp hlt)] at hp
      exact absurd hp (hfree.ne_zero _ hmem)

theorem pairAt_mod (pos n : Nat) (current sibling : α) :
    pairAt (pos % 2 ^ (n + 1)) current sibling = pairAt pos current sibling := by
  unfold pairAt
  rw [Nat.pow_succ', Nat.mod_mul_right_mod]

/-- A path looks at as many bits of the position as it has siblings. -/
theorem climb_mod (pos : Nat) (current : α) (siblings : List α) :
    climb hash (pos % 2 ^ siblings.length) current siblings = climb hash pos current siblings := by
  induction siblings generalizing pos current with
  | nil => rfl
  | cons s siblings ih =>
    have hh : pos % 2 ^ (siblings.length + 1) / 2 = pos / 2 % 2 ^ siblings.length := by
      rw [Nat.pow_succ', Nat.mod_mul_right_div_self]
    simp only [climb, length_cons, pairAt_mod, hh, ih]

variable {siblings : List α} (hpos : pos < 2 ^ siblings.length)
  (hfree : CollisionFree zero hash ({q | q ∈ pathQueries hash pos leaf siblings} ∪
    treeQueries zero hash leaves siblings.length))
  (h : climb hash pos leaf siblings = node zero hash leaves siblings.length 0)

include hpos hfree h

/-- A path to the root of the tree starts at a leaf or at an empty slot. -/
theorem eq_getD_of_climb : leaf = leaves.getD pos zero := by
  apply eq_node_of_climb (Nat.le_of_eq (Nat.zero_add _)) hfree
  rw [Nat.div_eq_of_lt hpos, Nat.zero_add]
  exact h

/-- A nonzero leaf with a path to the root of the tree is one of the leaves. -/
theorem getElem?_of_climb (hl : leaf ≠ zero) : leaves[pos]? = some leaf := by
  have hn := eq_getD_of_climb hpos hfree h
  rw [getD] at hn
  cases hget : leaves[pos]? with
  | none => rw [hget] at hn; exact absurd hn hl
  | some x => rw [hget] at hn; exact congrArg some hn.symm

end Binding

end MerkleTree
