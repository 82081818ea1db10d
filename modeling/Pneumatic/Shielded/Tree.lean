import Pneumatic.Core.Bytes

/-!
# The incremental Merkle tree

`tree.rs`: an append-only tree of fixed depth that stores every level. Level
zero is the leaves and level `depth` the root; a slot that was never written
reads as zero. Appending walks from the new leaf to the root and rewrites the
one node per level above it.

Indices and counts are unbounded here where the source has a `u64`. The versions
named `Wrapping` have the arithmetic of a release build, and `verifyProof` that of
a build with overflow checks.

The node hash is Poseidon on two field elements. The permutation is not opened
here: `poseidonHash` is a variable, and what the tree proves holds for every
function in its place.
-/

namespace Pneumatic

variable (poseidonHash : List Fp → Fp)

structure IncrementalMerkleTree where
  depth : Nat
  levels : List (List Fp)
  leafCount : Nat
deriving DecidableEq

structure MembershipProof where
  index : Nat
  siblings : List Fp
deriving DecidableEq

def defaultDepth : Nat := 32

namespace IncrementalMerkleTree

def new (depth : Nat) : IncrementalMerkleTree where
  depth := depth
  levels := List.replicate (depth + 1) []
  leafCount := 0

def root (tree : IncrementalMerkleTree) : Fp :=
  if tree.leafCount = 0 then 0 else (tree.levels.getD tree.depth []).getD 0 0

/-- The write at the end of an iteration: a push when the slot is the next free
one, an overwrite otherwise. -/
def writeNode (level : List Fp) (pos : Nat) (value : Fp) : List Fp :=
  if pos = level.length then level ++ [value] else level.set pos value

/-- The locals of `append_leaf`'s loop. -/
structure AppendState where
  levels : List (List Fp)
  current : Fp
  siblings : List Fp

/-- One iteration of `append_leaf`, at level `l` and the position there. -/
def appendStepAt (pos : Nat) (st : AppendState) (l : Nat) : AppendState :=
  let sib := (st.levels.getD l []).getD (pos ^^^ 1) 0
  let current :=
    if pos % 2 = 0 then poseidonHash [st.current, sib]
    else poseidonHash [sib, st.current]
  let nextPos := pos >>> 1
  { levels :=
      st.levels.set (l + 1) (writeNode (st.levels.getD (l + 1) []) nextPos current)
    current := current
    siblings := st.siblings ++ [sib] }

def appendStep (index : Nat) (st : AppendState) (l : Nat) : AppendState :=
  appendStepAt poseidonHash (index >>> l) st l

/-- The state `append_leaf` enters its loop in: the leaf is pushed at level
zero. -/
def appendInit (tree : IncrementalMerkleTree) (leaf : Fp) : AppendState where
  levels := tree.levels.set 0 (tree.levels.getD 0 [] ++ [leaf])
  current := leaf
  siblings := []

/-- `IncrementalMerkleTree::append_leaf`: the new tree, the new root and the
membership proof of the new leaf. -/
def appendLeaf (tree : IncrementalMerkleTree) (leaf : Fp) :
    IncrementalMerkleTree × Fp × MembershipProof :=
  let st := (List.range tree.depth).foldl (appendStep poseidonHash tree.leafCount)
    (appendInit tree leaf)
  ({ tree with levels := st.levels, leafCount := tree.leafCount + 1 },
    st.current, { index := tree.leafCount, siblings := st.siblings })

/-- `append_leaf` for its effect on the tree. -/
def push (tree : IncrementalMerkleTree) (leaf : Fp) : IncrementalMerkleTree :=
  (appendLeaf poseidonHash tree leaf).1

def fromLeaves (depth : Nat) (leaves : List Fp) : IncrementalMerkleTree :=
  leaves.foldl (push poseidonHash) (new depth)

/-! ### Machine arithmetic -/

/-- A `u64` shifted right; unchecked, the amount counts modulo 64. -/
def shr (index l : Nat) : Nat := index >>> (l % 64)

/-- `new`, with its `u32` addition. -/
def newWrapping (depth : Nat) : IncrementalMerkleTree :=
  { new depth with levels := List.replicate ((depth + 1) % 2 ^ 32) [] }

/-- `append_leaf` on a `u64` count. A write to a level that is not there is a panic of
the source, and no write here. -/
def appendLeafWrapping (tree : IncrementalMerkleTree) (leaf : Fp) :
    IncrementalMerkleTree × Fp × MembershipProof :=
  let st := (List.range tree.depth).foldl
    (fun st l => appendStepAt poseidonHash (shr tree.leafCount l) st l) (appendInit tree leaf)
  ({ tree with levels := st.levels, leafCount := (tree.leafCount + 1) % 2 ^ 64 },
    st.current, { index := tree.leafCount, siblings := st.siblings })

def fromLeavesWrapping (depth : Nat) (leaves : List Fp) : IncrementalMerkleTree :=
  leaves.foldl (fun tree leaf => (appendLeafWrapping poseidonHash tree leaf).1)
    (newWrapping depth)

def membershipProof (tree : IncrementalMerkleTree) (index : Nat) : MembershipProof where
  index := index
  siblings := (List.range tree.depth).map fun l =>
    (tree.levels.getD l []).getD (shr index l ^^^ 1) 0

/-- A loop over the siblings from level `l` on, where `pos` gives the position at each
level. -/
def walkUp (pos : Nat → Nat) : (l : Nat) → (current : Fp) → (siblings : List Fp) → Fp
  | _, current, [] => current
  | l, current, sibling :: siblings =>
    walkUp pos (l + 1)
      (if pos l &&& 1 = 0 then poseidonHash [current, sibling]
        else poseidonHash [sibling, current])
      siblings

def verifyProofWrapping (leaf : Fp) (proof : MembershipProof) (root : Fp) (depth : Nat) : Bool :=
  if proof.siblings.length ≠ depth then false
  else if depth < 64 ∧ 2 ^ depth ≤ proof.index then false
  else walkUp poseidonHash (shr proof.index) 0 leaf proof.siblings = root

@[simp]
theorem root_new (depth : Nat) : (new depth).root = 0 := by
  simp [root, new]

theorem fromLeaves_append (depth : Nat) (xs ys : List Fp) :
    fromLeaves poseidonHash depth (xs ++ ys) =
      ys.foldl (push poseidonHash) (fromLeaves poseidonHash depth xs) := by
  simp [fromLeaves]

@[simp]
theorem depth_push (tree : IncrementalMerkleTree) (leaf : Fp) :
    (push poseidonHash tree leaf).depth = tree.depth := rfl

@[simp]
theorem leafCount_push (tree : IncrementalMerkleTree) (leaf : Fp) :
    (push poseidonHash tree leaf).leafCount = tree.leafCount + 1 := rfl

end IncrementalMerkleTree

end Pneumatic
