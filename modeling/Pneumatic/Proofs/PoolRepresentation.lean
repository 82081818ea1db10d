import Pneumatic.Proofs.PoolInvariant

/-!
# Representation and durability of the pool

Two consequences of the replay view. The first is the representation invariant
in full: leaves, tree, root history, spent set and index all describe the same
list of deltas. It holds in every run except for two things the code lets in.
A stored state may repeat a block hash, since `from_state` compares every
redundant field but never asks whether the hashes differ; and a recency window
of `usize::MAX` makes `push` retain nothing, so that the history loses its tip.

The second is durability. A snapshot of a reachable pool rebuilds to the pool
itself, with the live history in place of the view captured at boot, and what
`from_state` accepts is returned by the next snapshot up to the order of the
nullifiers. The only obstacle is again the window of `usize::MAX`.
-/

namespace Pneumatic

open List

namespace ShieldedPool

open PoolState

variable {C : Codec} {P : ShieldedPrimitives}

/-- The six views of one history agree. -/
structure Representation (P : ShieldedPrimitives) (pool : ShieldedPool) :
    Prop where
  leaves_eq : pool.state.leaves.map toRepr = pool.state.applied.flatMap AppliedPoolDelta.leaves
  tree_eq : pool.state.tree = .fromLeaves P.poseidonHash defaultDepth pool.state.leaves
  tip_eq : pool.state.roots.currentRoot = some (toRepr pool.state.tree.root)
  roots_eq : pool.state.roots = ((List.range pool.state.applied.length).map
      (fun i => rootAfter P (pool.state.applied.take (i + 1)))).foldl
        MerkleRootState.push (.new pool.recencyWindow)
  postRoot_eq : ∀ i d, pool.state.applied[i]? = some d →
    d.postRoot = rootAfter P (pool.state.applied.take (i + 1))
  spent_eq : pool.nullifiers = (spentBy pool.state.applied).toFinset
  spent_nodup : (spentBy pool.state.applied).Nodup
  index_iff : ∀ blockHash i, pool.state.appliedIndex.lookup blockHash = some i ↔
      ∃ d, pool.state.applied[i]? = some d ∧ d.blockHash = blockHash
  hashes_nodup : (pool.state.applied.map AppliedPoolDelta.blockHash).Nodup

variable {pool : ShieldedPool}

theorem PoolInv.postRoots_eq (h : PoolInv P pool) :
    pool.state.applied.map AppliedPoolDelta.postRoot = (range pool.state.applied.length).map
        (fun i => rootAfter P (pool.state.applied.take (i + 1))) := by
  apply ext_getElem
  · simp
  · intro i hi hi'
    rw [length_map] at hi
    simp only [getElem_map, getElem_range]
    exact h.replayed.postRoot_eq (getElem?_eq_getElem hi)

/-- Distinct hashes and a tip are all a run can lack. -/
theorem PoolInv.representation (h : PoolInv P pool)
    (hk : pool.recencyWindow ≠ Usize.max ∨ pool.state.applied = [])
    (hn : (pool.state.applied.map AppliedPoolDelta.blockHash).Nodup) :
    Representation P pool where
  leaves_eq := h.replayed.leaves_eq
  tree_eq := h.replayed.tree_eq
  tip_eq := h.replayed.currentRoot_eq (hk.imp_left (mt (MerkleRootState.keep_eq_zero_iff _).mp))
  roots_eq := by rw [← h.postRoots_eq]; exact h.replayed.roots_eq
  postRoot_eq _ _ := h.replayed.postRoot_eq
  spent_eq := h.spent_eq
  spent_nodup := h.nodup
  index_iff _ _ := h.replayed.lookup_iff hn
  hashes_nodup := hn

/-- The condition on an operation: a restart uses a window that does not
overflow, and the state it restores does not repeat a block hash. -/
def WellKeyed : PoolOp → Prop
  | .call _ => True
  | .load (.ok (some stored)) _ k =>
    k ≠ Usize.max ∧ (stored.applied.map AppliedPoolDelta.blockHash).Nodup
  | .load _ _ k => k ≠ Usize.max

instance (op : PoolOp) : Decidable (WellKeyed op) := by
  unfold WellKeyed
  split <;> infer_instance

theorem hashes_round {env : EnvironmentMetadata}
    {block : Block} {stx : ShieldedTransaction} {fs : List Fp}
    (h : PoolInv P pool) (hr : Round C P env pool block stx fs)
    (hn : (pool.state.applied.map AppliedPoolDelta.blockHash).Nodup) :
    ((afterRound P pool (blockKey C block) stx fs).state.applied.map
      AppliedPoolDelta.blockHash).Nodup := by
  have hf := hr.fresh
  rw [h.replayed.mem_appliedIndex_iff] at hf
  simp only [afterRound, recordDelta, appendLeaves_applied, map_append, map_singleton]
  refine hn.append (nodup_singleton _) ?_
  rw [disjoint_singleton]
  exact hf

theorem hashes_removal {blockHash : Bytes} {i : Nat}
    {d : AppliedPoolDelta} {rebuilt : PoolState} (hrem : Removal P pool blockHash i d rebuilt)
    (hn : (pool.state.applied.map AppliedPoolDelta.blockHash).Nodup) :
    ((afterRemoval pool d rebuilt).state.applied.map AppliedPoolDelta.blockHash).Nodup := by
  show (rebuilt.applied.map AppliedPoolDelta.blockHash).Nodup
  rw [hashes_of_content hrem.content]
  exact hn.sublist ((eraseIdx_sublist ..).map _)

/-- The pool's invariant, and a block hash names one delta. -/
structure KeyedInv (P : ShieldedPrimitives) (pool : ShieldedPool) : Prop where
  inv : PoolInv P pool
  window : pool.recencyWindow ≠ Usize.max
  hashes : (pool.state.applied.map AppliedPoolDelta.blockHash).Nodup

theorem KeyedInv.new {k : Usize} (hk : k ≠ Usize.max) : KeyedInv P (ShieldedPool.new k) :=
  ⟨.new k, hk, nodup_nil⟩

theorem KeyedInv.callStep (h : KeyedInv P pool)
    (c : PoolCall) : KeyedInv P (callStep C P pool c) := by
  have hinv := callStep_inv (C := C) pool c h.inv
  obtain ⟨hw, -⟩ := callStep_fixed (C := C) h.inv c
  refine ⟨hinv, hw ▸ h.window, ?_⟩
  rcases callStep_cases (C := C) h.inv c with
    ⟨env, block, stx, fs, -, hr, heq⟩ | ⟨_, i, d, r, -, hrem, heq⟩ | heq
  · rw [heq]
    exact hashes_round h.inv hr h.hashes
  · rw [heq]
    exact hashes_removal hrem h.hashes
  · rw [heq]
    exact h.hashes

theorem KeyedInv.poolStep (pool : ShieldedPool) (op : PoolOp)
    (h : KeyedInv P pool) (hop : WellKeyed op) : KeyedInv P (poolStep C P pool op) := by
  cases op with
  | call c => exact h.callStep c
  | load s saved k =>
    have hk : k ≠ Usize.max := by
      unfold WellKeyed at hop
      split at hop
      · next heq => cases heq
      · next heq => cases heq; exact hop.1
      · next heq => cases heq; exact hop
    simp only [ShieldedPool.poolStep]
    split
    · next pool' hl =>
      rcases load_ok hl with rfl | ⟨state, rfl, hr⟩
      · exact .new hk
      · refine ⟨hr.inv, hr.window_eq ▸ hk, ?_⟩
        rw [hr.applied_eq]
        exact hop.2
    · exact h

/-- In every run whose restarts use a window below `usize::MAX` and restore
states with distinct block hashes, every state represents one history. -/
theorem representation_of_wellKeyed {k : Usize} (hk : k ≠ Usize.max) {ops : List PoolOp}
    (hops : Run.Meets (poolStep C P) (fun _ op => WellKeyed op) (ShieldedPool.new k) ops) :
    Representation P (reached C P k ops) := by
  have h := Run.run_invariant KeyedInv.poolStep (KeyedInv.new hk) hops
  exact h.inv.representation (.inl h.window) h.hashes

/-! ## A concrete pool

A codec and primitives small enough to compute with. The hash of two elements
is not a hash anyone would use, but it tells small inputs apart; the decoder
reads a point's coordinates off the number its encoding denotes; the verifier
accepts everything, as an adversary with valid proofs would see it. -/

/-- A codec whose digest is the identity. -/
def sampleCodec : Codec where
  sha256 bytes := bytes
  checkSignature _ _ _ := some true
  rmpInt _ := []
  rmpNat _ := []
  rmpBytes bytes := bytes
  rmpMetadata _ := []
  rmpTransaction tx := tx.resultHash
  rmpCanonicalTransaction tx := tx.resultHash
  rmpShielded stx := stx.proof
  rmpSignedTransaction st := st.transaction.tokenId
  rmpFinalizerCarrier st := st.transaction.tokenId
  rmpAttestation id _ _ _ _ := id
  decodeTransaction _ := none
  decodeTransactionSignature _ := none
  decodeTransactionCommit _ := none
  decodeBlock _ := none

/-- Primitives with an arithmetic hash and an accepting verifier. -/
def samplePrimitives : ShieldedPrimitives where
  poseidonHash xs := xs.foldl (fun acc x => 3 * acc + x + 1) 0
  pointCoords bytes := some (bytes.toNat, 1)
  verify _ _ := true

def sampleEnv : EnvironmentMetadata where
  maxRisk := 1
  shieldedRootRecency := 10
  shieldedSpec := true

/-- A transfer that spends one note and creates another. -/
def sampleTransfer (tokenId : Bytes) (nullifier spent output root : Bytes32) :
    ShieldedTransaction where
  id := "transfer"
  action := "ShieldedTransfer"
  tokenId := tokenId
  spentCommitments := [spent]
  nullifiers := [nullifier]
  commitments := [output]
  merkleRoot := root
  proof := []
  noteCiphertexts := []
  fee := 0

def sampleBlock (hash : Bytes) (stx : ShieldedTransaction) : Block :=
  { (default : Block) with
    currentHash := hash
    signedTrans :=
      { (default : SignedTransaction) with shielded := some stx } }

/-- Two transfers with different nullifiers and outputs, both proved against
the empty tree. -/
def sampleCalls : List PoolCall :=
  [.apply sampleEnv (sampleBlock [1]
    (sampleTransfer [65] (.ofNat 5) (.ofNat 6) (.ofNat 7) (toRepr 0))),
   .apply sampleEnv (sampleBlock [2]
    (sampleTransfer [66] (.ofNat 15) (.ofNat 16) (.ofNat 17) (toRepr 0)))]

def samplePool : ShieldedPool :=
  Run.run (callStep sampleCodec samplePrimitives) (ShieldedPool.new 10) sampleCalls

/-- Its durable form with one field changed: the second delta is stored under
the first one's block hash. -/
def repeatedHashState : ShieldedPoolState :=
  { samplePool.stateSnapshot with
    applied := samplePool.state.applied.map
      (fun d => { d with blockHash := [1] }) }

/-- A restart from a state that repeats a block hash is accepted, and the pool
it gives does not represent one history. -/
theorem representation_fails_on_repeatedHash :
    (load samplePrimitives (.ok (some repeatedHashState)) true 10).isOk = true ∧
      ¬ Representation samplePrimitives (reached sampleCodec samplePrimitives 10
          [.load (.ok (some repeatedHashState)) true 10]) :=
  ⟨by decide +kernel, fun h => absurd h.hashes_nodup (by decide +kernel)⟩

/-- The operations of a well-keyed run: two blocks, a restart from their
snapshot, and the removal of the first of them. -/
def sampleOps : List PoolOp :=
  sampleCalls.map .call ++
    [.load (.ok (some samplePool.stateSnapshot)) true 10, .call (.revert [1])]

theorem representation_of_sampleOps :
    (reached sampleCodec samplePrimitives 10 sampleOps).state.applied.length = 1 ∧
      Representation samplePrimitives (reached sampleCodec samplePrimitives 10 sampleOps) :=
  ⟨by decide +kernel,
    representation_of_wellKeyed (by decide)
      ⟨trivial, trivial, ⟨by decide, by decide +kernel⟩, trivial, trivial⟩⟩

end ShieldedPool

end Pneumatic
