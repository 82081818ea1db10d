import Pneumatic.Committer.Error
import Pneumatic.Shielded.Tree
import Pneumatic.Shielded.Validation

/-!
# The shielded pool

`shielded_pool.rs`: the one global pool of a Committer. A spent set, a Merkle
tree with its leaf sequence, the bounded root history, and the list of applied
deltas with an index by block hash. `applyUpdate` adds a block's delta after
re-checking its transaction against this state; `revertUpdate` takes a delta
out, wherever in the history it is, and rebuilds everything that is derived
from the rest; `fromState` rebuilds a pool from its durable form.

The functions return the pool next to the verdict, since several of their
error paths leave through the middle: the spent set is marked before a leaf is
decoded, and a delta is removed before the rebuild that may refuse.
-/

namespace Pneumatic

structure AppliedPoolDelta where
  blockHash : Bytes
  leaves : List Bytes32
  nullifiers : List Bytes32
  postRoot : Bytes32
deriving DecidableEq

/-- `ShieldedPoolState`, the durable form. -/
structure ShieldedPoolState where
  root : Bytes32
  leafCount : Nat
  leaves : List Bytes32
  nullifiers : List Bytes32
  applied : List AppliedPoolDelta
deriving DecidableEq

/-- `PoolState`, what the guard protects. -/
structure PoolState where
  leaves : List Fp
  tree : IncrementalMerkleTree
  roots : MerkleRootState
  applied : List AppliedPoolDelta
  appliedIndex : Finmap (fun _ : Bytes => Nat)
deriving DecidableEq

structure ShieldedPool where
  nullifiers : Finset Bytes32
  recencyWindow : Usize
  viewRoots : MerkleRootState
  state : PoolState
deriving DecidableEq

inductive PoolApplyOutcome where
  | applied
  | alreadyApplied
  | plain
deriving DecidableEq

variable (C : Codec) (P : ShieldedPrimitives)

namespace PoolState

def new (recencyWindow : Usize) : PoolState where
  leaves := []
  tree := .new defaultDepth
  roots := .new recencyWindow
  applied := []
  appliedIndex := ∅

/-- `tree.append_leaf` and `leaves.push`. -/
def appendLeaf (state : PoolState) (leaf : Fp) : PoolState :=
  { state with
    tree := state.tree.push P.poseidonHash leaf
    leaves := state.leaves ++ [leaf] }

/-- The tail that `apply_update` and `rebuild_state` share: the root after the
leaves goes to the history, the delta to the list and its position to the
index. -/
def recordDelta (state : PoolState) (blockHash : Bytes)
    (leaves nullifiers : List Bytes32) : PoolState :=
  let postRoot := toRepr state.tree.root
  { state with
    roots := state.roots.push postRoot
    appliedIndex := state.appliedIndex.insert blockHash state.applied.length
    applied := state.applied ++
      [{ blockHash := blockHash
         leaves := leaves
         nullifiers := nullifiers
         postRoot := postRoot }] }

/-- Step 3 of `apply_update`: decode each commitment to its leaf and append it.
The appended leaves stay when a later one does not decode. -/
def appendCommitments (postLeaves : List Bytes32) :
    PoolState → List Bytes32 → PoolState × Except PneumaticError (List Bytes32)
  | state, [] => (state, .ok postLeaves)
  | state, commitment :: rest =>
    match commitmentLeaf P commitment with
    | .error e => (state, .error e)
    | .ok leaf =>
      appendCommitments (postLeaves ++ [toRepr leaf]) (state.appendLeaf P leaf) rest

/-- The inner loop of `rebuild_state`: re-append a delta's recorded leaves. -/
def appendEncoded (blockHash : Bytes) : PoolState → List Bytes32 → Except CommitterError PoolState
  | state, [] => .ok state
  | state, leaf :: rest =>
    match fromRepr leaf with
    | none => .error (.poolState (.leafEncoding blockHash))
    | some f => appendEncoded blockHash (state.appendLeaf P f) rest

/-- One iteration of `rebuild_state`. -/
def rebuildDelta (verifyRecorded : Bool) (state : PoolState)
    (delta : AppliedPoolDelta) : Except CommitterError PoolState :=
  match appendEncoded P delta.blockHash state delta.leaves with
  | .error e => .error e
  | .ok state =>
    if verifyRecorded && decide (toRepr state.tree.root ≠ delta.postRoot) then
      .error (.poolState (.postRoot delta.blockHash))
    else .ok (state.recordDelta delta.blockHash delta.leaves delta.nullifiers)

/-- The loop of `rebuild_state`. -/
def rebuildFrom (verifyRecorded : Bool) :
    PoolState → List AppliedPoolDelta → Except CommitterError PoolState
  | state, [] => .ok state
  | state, delta :: deltas =>
    match rebuildDelta P verifyRecorded state delta with
    | .error e => .error e
    | .ok state => rebuildFrom verifyRecorded state deltas

def rebuildState (deltas : List AppliedPoolDelta) (recencyWindow : Usize)
    (verifyRecorded : Bool) : Except CommitterError PoolState :=
  rebuildFrom P verifyRecorded (new recencyWindow) deltas

end PoolState

namespace ShieldedPool

def new (recencyWindow : Usize) : ShieldedPool where
  nullifiers := ∅
  recencyWindow := recencyWindow
  viewRoots := .new recencyWindow
  state := .new recencyWindow

def stateSnapshot (pool : ShieldedPool) : ShieldedPoolState where
  root := toRepr pool.state.tree.root
  leafCount := pool.state.leaves.length
  leaves := pool.state.leaves.map toRepr
  nullifiers := pool.state.applied.flatMap AppliedPoolDelta.nullifiers
  applied := pool.state.applied

/-- The loop of `from_state` that marks every delta's nullifiers. -/
def markDeltas : Finset Bytes32 → List AppliedPoolDelta → Except CommitterError (Finset Bytes32)
  | spent, [] => .ok spent
  | spent, delta :: deltas =>
    match NullifierRegistry.markManyAtomic spent delta.nullifiers with
    | (_, .error _) => .error (.poolState (.doubleSpend delta.blockHash))
    | (spent, .ok ()) => markDeltas spent deltas

/-- `ShieldedPool::from_state`. Two sorted lists are equal exactly when the
lists are permutations of each other. -/
def fromState (state : ShieldedPoolState) (recencyWindow : Usize) :
    Except CommitterError ShieldedPool :=
  if state.leafCount ≠ state.leaves.length then
    .error (.poolState (.leafCount state.leafCount state.leaves.length))
  else
    match PoolState.rebuildState P state.applied recencyWindow true with
    | .error e => .error e
    | .ok rebuilt =>
      if rebuilt.leaves.map toRepr ≠ state.leaves then
        .error (.poolState .leaves)
      else
        match rebuilt.roots.currentRoot with
        | none => .error .panicked
        | some tip =>
          if tip ≠ state.root then .error (.poolState (.root tip state.root))
          else if !(state.applied.flatMap AppliedPoolDelta.nullifiers).isPerm state.nullifiers then
            .error (.poolState .nullifiers)
          else
            match markDeltas ∅ state.applied with
            | .error e => .error e
            | .ok nullifiers =>
              .ok { nullifiers := nullifiers
                    recencyWindow := recencyWindow
                    viewRoots := rebuilt.roots
                    state := rebuilt }

/-- `ShieldedPool::load`, given what the data provider answers: `stored` is
the result of `get_shielded_pool`, `saved` whether `save_shielded_pool`
succeeds. -/
def load (stored : Except Unit (Option ShieldedPoolState)) (saved : Bool)
    (recencyWindow : Usize) : Except CommitterError ShieldedPool :=
  match stored with
  | .error _ => .error (.poolState .corrupt)
  | .ok none => if saved then .ok (new recencyWindow) else .error .poolPersist
  | .ok (some state) => fromState P state recencyWindow

/-- The view of the pool that its own re-check runs against. -/
def ownDeps (pool : ShieldedPool) : ShieldedValidationDeps where
  spent := pool.nullifiers
  roots := pool.state.roots.roots
  recencyWindow := pool.recencyWindow

/-- The idempotency key of a block: its claimed hash, or the recomputed one
when it claims none. -/
def blockKey (block : Block) : Bytes :=
  if block.currentHash.isEmpty then createHash C block else block.currentHash

def applyUpdate (env : EnvironmentMetadata) (pool : ShieldedPool)
    (block : Block) : ShieldedPool × Except CommitterError PoolApplyOutcome :=
  match block.signedTrans.shielded with
  | none => (pool, .ok .plain)
  | some stx =>
    if blockKey C block ∈ pool.state.appliedIndex then
      (pool, .ok .alreadyApplied)
    else
      match validateShielded P env pool.ownDeps stx with
      | .error e => (pool, .error (.shieldedProofInvalid stx.id (.recheck e)))
      | .ok _ =>
        match NullifierRegistry.markManyAtomic pool.nullifiers stx.nullifiers with
        | (spent, .error e) =>
          ({ pool with nullifiers := spent }, .error (.shieldedProofInvalid stx.id (.mark e)))
        | (spent, .ok ()) =>
          match PoolState.appendCommitments P [] pool.state stx.commitments with
          | (state, .error e) =>
            ({ pool with nullifiers := spent, state := state },
              .error (.shieldedProofInvalid stx.id (.leaf e)))
          | (state, .ok postLeaves) =>
            ({ pool with
                nullifiers := spent
                state := state.recordDelta (blockKey C block) postLeaves
                  stx.nullifiers }, .ok .applied)

/-- `ShieldedPool::revert_update`. The removal and the unmarking stand even
when the rebuild refuses. -/
def revertUpdate (pool : ShieldedPool) (blockHash : Bytes) :
    ShieldedPool × Except CommitterError Unit :=
  match pool.state.appliedIndex.lookup blockHash with
  | none => (pool, .error (.poolRollback blockHash))
  | some idx =>
    match pool.state.applied[idx]? with
    | none => (pool, .error .panicked)
    | some removed =>
      let pool :=
        { pool with
          nullifiers :=
            NullifierRegistry.unmarkMany pool.nullifiers removed.nullifiers
          state :=
            { pool.state with applied := pool.state.applied.eraseIdx idx } }
      match PoolState.rebuildState P pool.state.applied pool.recencyWindow false with
      | .error e => (pool, .error e)
      | .ok rebuilt =>
        match rebuilt.roots.currentRoot with
        | none => (pool, .error .panicked)
        | some tip =>
          if tip ≠ toRepr rebuilt.tree.root then
            (pool, .error (.poolState .rollbackRoot))
          else ({ pool with state := rebuilt }, .ok ())

end ShieldedPool

end Pneumatic
