import Pneumatic.Proofs.PoolRepresentation
import Pneumatic.Shielded.RoleView

/-!
# Spends over whole runs

Three statements about the transactions a pool has accepted.

The spent set compares byte strings and the proof system compares residues. A
string and the same number plus the field order are two keys and one nullifier,
so distinctness of the keys gives distinctness of the residues only where the
strings are canonical.

A spend is checked against a root that is at that moment the root after some
prefix of the history. Taking a delta out of the middle rewrites every later
prefix, so the root of a later spend survives only if its prefix ended before
the removed delta. To say so the run is tracked: next to the pool runs the list
of accepted transactions, one for each delta.

The roles check a spend against the history captured at boot.
-/

namespace Pneumatic

open List

namespace ShieldedPool

open PoolState Run

variable {C : Codec} {P : ShieldedPrimitives}

/-- The field elements the verifier was given for the applied nullifiers are
pairwise distinct, within a delta and across deltas. -/
def ResiduesDistinct (pool : ShieldedPool) : Prop :=
  ((spentBy pool.state.applied).map bytes32ToFp).Nodup

instance (pool : ShieldedPool) : Decidable (ResiduesDistinct pool) :=
  inferInstanceAs (Decidable (List.Nodup _))

/-- The condition on an operation: every nullifier it can bring into the pool
is a canonical encoding. -/
def CanonicalOp : PoolOp → Prop
  | .call (.apply _ block) =>
    ∀ stx, block.signedTrans.shielded = some stx → ∀ n ∈ stx.nullifiers, Canonical n
  | .call (.revert _) => True
  | .load (.ok (some stored)) _ _ => ∀ n ∈ spentBy stored.applied, Canonical n
  | .load _ _ _ => True

/-- The pool's invariant, and only canonical nullifiers are spent. -/
structure CanonicalInv (P : ShieldedPrimitives) (pool : ShieldedPool) : Prop where
  inv : PoolInv P pool
  canonical : ∀ n ∈ spentBy pool.state.applied, Canonical n

theorem CanonicalInv.poolStep (pool : ShieldedPool) (op : PoolOp)
    (h : CanonicalInv P pool) (hop : CanonicalOp op) : CanonicalInv P (poolStep C P pool op) := by
  refine ⟨poolStep_inv pool op h.inv, ?_⟩
  cases op with
  | call c =>
    rcases callStep_cases (C := C) h.inv c with
      ⟨env, block, stx, fs, rfl, hrn, heq⟩ | ⟨_, i, d, r, rfl, hrem, heq⟩ | heq
    · simp only [ShieldedPool.poolStep, heq, spentBy_round]
      intro n hn
      rcases mem_append.mp hn with hn | hn
      · exact h.canonical n hn
      · exact hop stx hrn.shielded n hn
    · simp only [ShieldedPool.poolStep, heq]
      intro n hn
      have hp := spentBy_perm_eraseIdx hrem.getElem
      refine h.canonical n (hp.subset (mem_append_right _ ?_))
      rwa [← spentBy_of_content hrem.content]
    · simp only [ShieldedPool.poolStep, heq]
      exact h.canonical
  | load s saved k =>
    simp only [ShieldedPool.poolStep]
    split
    · next pool' hl =>
      rcases load_ok hl with rfl | ⟨state, rfl, hr⟩
      · intro n hn; cases hn
      · rw [hr.applied_eq]
        exact hop
    · exact h.canonical

/-- In every run that brings in canonical nullifiers only, no field element is
spent twice. -/
theorem residuesDistinct_of_canonical (k : Usize) {ops : List PoolOp}
    (hops : Run.Meets (poolStep C P) (fun _ op => CanonicalOp op) (ShieldedPool.new k) ops) :
    ResiduesDistinct (reached C P k ops) := by
  have h := run_invariant CanonicalInv.poolStep ⟨PoolInv.new k, fun n hn => by cases hn⟩ hops
  exact h.inv.nodup.map_on fun a ha b hb =>
    bytes32ToFp_inj (h.canonical a ha) (h.canonical b hb)

/-- Two transfers that spend one nullifier under two byte strings. -/
def aliasOps : List PoolOp :=
  [.call (.apply sampleEnv (sampleBlock [1]
    (sampleTransfer [65] (.ofNat 5) (.ofNat 6) (.ofNat 7) (toRepr 0)))),
   .call (.apply sampleEnv (sampleBlock [2]
    (sampleTransfer [65] (.ofNat (pallasModulus + 5)) (.ofNat 6) (.ofNat 17) (toRepr 0))))]

/-- Both are applied, and the verifier was given one field element twice. -/
theorem residues_repeat_on_alias :
    (reached sampleCodec samplePrimitives 10 aliasOps).state.applied.length = 2 ∧
      ¬ ResiduesDistinct (reached sampleCodec samplePrimitives 10 aliasOps) :=
  ⟨by decide +kernel, by decide +kernel⟩

theorem residuesDistinct_of_sampleCalls : (reached sampleCodec samplePrimitives 10
        (sampleCalls.map .call)).state.applied.length = 2 ∧ ResiduesDistinct
        (reached sampleCodec samplePrimitives 10 (sampleCalls.map .call)) := by
  refine ⟨by decide +kernel, residuesDistinct_of_canonical 10 ⟨?_, ?_, trivial⟩⟩
  all_goals
    intro stx hstx
    cases hstx
    decide +kernel

/-- A pool with the accepted transaction of each applied delta next to it. -/
structure Tracked where
  pool : ShieldedPool
  spends : List ShieldedTransaction

def Tracked.new (k : Usize) : Tracked := ⟨ShieldedPool.new k, []⟩

/-- A call, tracked: an applied block adds its transaction, a removed delta
takes its transaction with it. -/
def trackStep (C : Codec) (P : ShieldedPrimitives) (t : Tracked) (c : PoolCall) : Tracked where
  pool := callStep C P t.pool c
  spends :=
    match c with
    | .apply env block =>
      match (applyUpdate C P env t.pool block).2, block.signedTrans.shielded with
      | .ok .applied, some stx => t.spends ++ [stx]
      | _, _ => t.spends
    | .revert blockHash =>
      match (revertUpdate P t.pool blockHash).2, t.pool.state.appliedIndex.lookup blockHash with
      | .ok (), some i => t.spends.eraseIdx i
      | _, _ => t.spends

theorem trackStep_cases {t : Tracked} (h : PoolInv P t.pool) (c : PoolCall) :
    (∃ env block stx fs, Round C P env t.pool block stx fs ∧ trackStep C P t c =
        ⟨afterRound P t.pool (blockKey C block) stx fs, t.spends ++ [stx]⟩) ∨
    (∃ bh i d r, c = .revert bh ∧ Removal P t.pool bh i d r ∧
      trackStep C P t c = ⟨afterRemoval t.pool d r, t.spends.eraseIdx i⟩) ∨
    trackStep C P t c = t := by
  cases c with
  | apply env block =>
    rcases applyUpdate_cases (C := C) (P := P) env t.pool block with
      ⟨stx, fs, hr, heq⟩ | ⟨heq, hne⟩
    · refine .inl ⟨env, block, stx, fs, hr, ?_⟩
      simp only [trackStep, callStep, heq, hr.shielded]
    · refine .inr (.inr ?_)
      simp only [trackStep, callStep, heq]
      split
      · next happ _ => exact absurd happ hne
      · rfl
  | revert bh =>
    rcases revertUpdate_cases h bh with
      ⟨i, d, r, hrem, heq⟩ | ⟨-, heq⟩
    · refine .inr (.inl ⟨bh, i, d, r, rfl, hrem, ?_⟩)
      simp only [trackStep, callStep, heq, hrem.lookup]
    · refine .inr (.inr ?_)
      simp only [trackStep, callStep, heq]

section

variable (P)

/-- A root is that of the deltas before a position. -/
def RootBefore (pool : ShieldedPool) (i : Nat) (root : Bytes32) : Prop :=
  ∃ j ≤ i, root = rootAfter P (pool.state.applied.take j)

/-- Every applied spend was checked against the root after a strict prefix of
the history as it is now. -/
def Justified (t : Tracked) : Prop :=
  ∀ stx ∈ t.spends, ∃ j < t.pool.state.applied.length,
    stx.merkleRoot = rootAfter P (t.pool.state.applied.take j)

/-- The condition on a call: a removed delta lies behind the prefix that every
later spend was checked against. -/
def SafeCall (t : Tracked) : PoolCall → Prop
  | .apply _ _ => True
  | .revert blockHash =>
    ∀ i, t.pool.state.appliedIndex.lookup blockHash = some i →
      ∀ m stx, i < m → t.spends[m]? = some stx → RootBefore P t.pool i stx.merkleRoot

/-- The run invariant of safe runs: each spend has its root in front of it. -/
structure TrackInv (t : Tracked) : Prop where
  inv : PoolInv P t.pool
  length_eq : t.spends.length = t.pool.state.applied.length
  root : ∀ i stx, t.spends[i]? = some stx → RootBefore P t.pool i stx.merkleRoot

end

theorem rootAfter_of_content {ds es : List AppliedPoolDelta}
    (h : ds.map AppliedPoolDelta.content = es.map AppliedPoolDelta.content) :
    rootAfter P ds = rootAfter P es := by
  have hmap := map_of_content h (fun c => c.2.1)
  have hl : ds.flatMap AppliedPoolDelta.leaves = es.flatMap AppliedPoolDelta.leaves := by
    exact congrArg flatten hmap
  simp only [rootAfter, decodedLeaves, hl]

variable {pool : ShieldedPool}

theorem RootBefore.round {i : Nat} {root : Bytes32}
    (h : RootBefore P pool i root) (hi : i ≤ pool.state.applied.length)
    (key : Bytes) (stx : ShieldedTransaction) (fs : List Fp) :
    RootBefore P (afterRound P pool key stx fs) i root := by
  obtain ⟨j, hj, heq⟩ := h
  refine ⟨j, hj, ?_⟩
  simp only [afterRound, recordDelta, appendLeaves_applied]
  rw [take_append_of_le_length (by omega)]
  exact heq

/-- A removal leaves the roots of the prefixes in front of it as they were. -/
theorem RootBefore.removal {blockHash : Bytes} {i j : Nat}
    {d : AppliedPoolDelta} {rebuilt : PoolState} {root : Bytes32}
    (h : RootBefore P pool i root) (hij : i ≤ j) (hrem : Removal P pool blockHash j d rebuilt) :
    RootBefore P (afterRemoval pool d rebuilt) i root := by
  obtain ⟨m, hm, heq⟩ := h
  refine ⟨m, hm, heq.trans ?_⟩
  apply rootAfter_of_content
  show (pool.state.applied.take m).map _ = (rebuilt.applied.take m).map _
  rw [map_take (l := rebuilt.applied), hrem.content, ← map_take,
    take_eraseIdx_eq_take_of_le _ _ _ (by omega)]

theorem Round.rootBefore {env : EnvironmentMetadata}
    {block : Block} {stx : ShieldedTransaction} {fs : List Fp}
    (hr : Round C P env pool block stx fs) (h : PoolInv P pool) :
    RootBefore P pool pool.state.applied.length stx.merkleRoot := by
  obtain ⟨n, spent, out, pi, hsh, -, hf, -⟩ := hr.shape
  obtain ⟨s, hs, hrt⟩ := exists_snapshot_of_isRootFresh hf
  obtain ⟨hle, heq⟩ := h.replayed.snapshot_eq hs
  exact ⟨s.height, hle, by rw [← heq, hrt, hsh.merkleRoot_eq]⟩

theorem TrackInv.step (t : Tracked) (c : PoolCall) (h : TrackInv P t)
    (hc : SafeCall P t c) : TrackInv P (trackStep C P t c) := by
  rcases trackStep_cases (C := C) h.inv c with
    ⟨env, block, stx, fs, hr, heq⟩ | ⟨bh, i, d, rebuilt, rfl, hrem, heq⟩ | heq
  · rw [heq]
    refine ⟨h.inv.round hr, ?_, ?_⟩
    · simp [afterRound, recordDelta, h.length_eq]
    · intro m tx htx
      rcases Nat.lt_or_ge m t.spends.length with hlt | hge
      · rw [getElem?_append_left hlt] at htx
        exact (h.root m tx htx).round (by rw [← h.length_eq]; omega) _ _ _
      · rw [getElem?_append_right hge, getElem?_singleton] at htx
        split at htx
        · next hm =>
          cases htx
          have hm : m = t.pool.state.applied.length := by
            rw [← h.length_eq]; omega
          rw [hm]
          exact (hr.rootBefore h.inv).round (Nat.le_refl _) _ _ _
        · cases htx
  · rw [heq]
    have hi := (List.getElem?_eq_some_iff.mp hrem.getElem).1
    have hlen := congrArg length hrem.content
    rw [length_map, length_map, length_eraseIdx_of_lt hi] at hlen
    refine ⟨h.inv.removal hrem, ?_, ?_⟩
    · show (t.spends.eraseIdx i).length = rebuilt.applied.length
      rw [length_eraseIdx_of_lt (by rw [h.length_eq]; exact hi), hlen, h.length_eq]
    · intro m tx htx
      rw [getElem?_eraseIdx] at htx
      split at htx
      · next hlt => exact (h.root m tx htx).removal (by omega) hrem
      · next hge =>
        -- the spend has moved down by one, over the removed delta
        obtain ⟨j, hj, hrt⟩ := (hc i hrem.lookup (m + 1) tx (by omega)
          htx).removal (Nat.le_refl i) hrem
        exact ⟨j, by omega, hrt⟩
  · rw [heq]
    exact h

/-- In every run whose removals are safe, every applied spend stays justified
by the current history. -/
theorem justified_of_safe (k : Usize) {calls : List PoolCall}
    (hcalls : Run.Meets (trackStep C P) (SafeCall P) (Tracked.new k) calls) :
    Justified P (run (trackStep C P) (Tracked.new k) calls) := by
  have h := run_invariant TrackInv.step ⟨PoolInv.new k, rfl, fun i stx hstx => by cases hstx⟩ hcalls
  intro stx hstx
  obtain ⟨i, hi, hget⟩ := getElem_of_mem hstx
  obtain ⟨j, hj, hr⟩ := h.root i stx (List.getElem?_eq_some_iff.mpr ⟨hi, hget⟩)
  exact ⟨j, by rw [← h.length_eq]; omega, hr⟩

def firstRoot : Bytes32 :=
  toRepr (run (callStep sampleCodec samplePrimitives) (ShieldedPool.new 10)
    (sampleCalls.take 1)).state.tree.root

/-- A transfer that spends the first one's note, proved against the root that
the note gave the pool. -/
def dependentTransfer : ShieldedTransaction :=
  sampleTransfer [66] (.ofNat 15) (.ofNat 7) (.ofNat 17) firstRoot

def orphaningCalls : List PoolCall :=
  sampleCalls.take 1 ++ [.apply sampleEnv (sampleBlock [2] dependentTransfer), .revert [1]]

/-- The dependent spend stays applied after the root it was checked against is
gone from the history. -/
theorem not_justified_after_midHistory_revert :
    (run (trackStep sampleCodec samplePrimitives) (Tracked.new 10)
        orphaningCalls).spends = [dependentTransfer] ∧ ¬ Justified samplePrimitives
        (run (trackStep sampleCodec samplePrimitives) (Tracked.new 10) orphaningCalls) := by
  have hs : (run (trackStep sampleCodec samplePrimitives)
      (Tracked.new 10) orphaningCalls).spends = [dependentTransfer] := by
    decide +kernel
  refine ⟨hs, fun h => ?_⟩
  obtain ⟨j, hj, hr⟩ := h dependentTransfer (by rw [hs]; simp)
  have hlen : (run (trackStep sampleCodec samplePrimitives)
      (Tracked.new 10) orphaningCalls).pool.state.applied.length = 1 := by
    decide +kernel
  obtain rfl : j = 0 := by omega
  exact absurd hr (by decide +kernel)

/-- The removal of the first of two independent transfers is safe. -/
theorem justified_of_independent : (run (trackStep sampleCodec samplePrimitives) (Tracked.new 10)
        (sampleCalls ++ [.revert [1]])).spends.length = 1 ∧ Justified samplePrimitives
        (run (trackStep sampleCodec samplePrimitives) (Tracked.new 10)
          (sampleCalls ++ [.revert [1]])) := by
  refine ⟨by decide +kernel, justified_of_safe 10 ⟨trivial, trivial, ?_, trivial⟩⟩
  intro i _ m stx _ hstx
  refine ⟨0, Nat.zero_le i, ?_⟩
  have hr : ∀ tx ∈ (run (trackStep sampleCodec samplePrimitives)
      (Tracked.new 10) sampleCalls).spends,
        tx.merkleRoot = rootAfter samplePrimitives [] := by decide +kernel
  exact hr stx (mem_of_getElem? hstx)

/-- A pool as a start leaves it. -/
inductive Booted (P : ShieldedPrimitives) : ShieldedPool → Prop where
  | new (k : Usize) : Booted P (ShieldedPool.new k)
  | load {stored : Except Unit (Option ShieldedPoolState)} {saved : Bool}
      {k : Usize} {pool : ShieldedPool}
      (h : ShieldedPool.load P stored saved k = .ok pool) : Booted P pool

theorem Booted.inv (h : Booted P pool) : PoolInv P pool ∧ pool.viewRoots = pool.state.roots := by
  cases h with
  | new k => exact ⟨.new k, rfl⟩
  | load h =>
    rcases load_ok h with rfl | ⟨state, -, hr⟩
    · exact ⟨.new _, rfl⟩
    · exact ⟨hr.inv, hr.view_eq⟩

/-- On a replayed history freshness is membership: what is retained is within
the window. -/
theorem isRootFresh_iff {k : Usize} {state : PoolState} (h : Replayed P k state)
    (spent : Finset Bytes32) (root : Fp) :
    isRootFresh root { spent := spent, roots := state.roots.roots, recencyWindow := k } = true ↔
      ∃ s ∈ state.roots.roots, s.root = toRepr root := by
  refine ⟨exists_snapshot_of_isRootFresh, fun ⟨s, hs, hr⟩ => ?_⟩
  have hne : state.roots.roots ≠ [] := ne_nil_of_mem hs
  have hfn : ∃ f, state.roots.roots.find? (fun s => s.root = toRepr root) = some f := by
    rw [← Option.isSome_iff_exists, find?_isSome]
    exact ⟨s, hs, by simpa using hr⟩
  obtain ⟨f, hf⟩ := hfn
  obtain ⟨i, hi, hif⟩ := getElem_of_mem (mem_of_find?_eq_some hf)
  have hl : state.roots.roots.getLast? =
      some (state.roots.roots.getLast hne) := getLast?_eq_some_getLast hne
  have hfh := h.height_eq (List.getElem?_eq_some_iff.mpr ⟨hi, hif⟩)
  have hlh := h.height_eq ((getLast?_eq_getElem? ..).symm.trans hl)
  have hlen := h.roots_length_le
  simp only [isRootFresh, hl, hf, decide_eq_true_eq]
  omega

/-- The pool's own check takes exactly the roots after the prefixes that at most `k`
deltas came after, unless the window is so wide that no root is retained. -/
theorem fresh_exact_iff (k : Usize) (calls : List PoolCall) :
    let pool := run (callStep C P) (ShieldedPool.new k) calls
    let applied := pool.state.applied
    (∀ root, isRootFresh root pool.ownDeps = true ↔ ∃ m, applied.length - k.val ≤ m ∧
      m ≤ applied.length ∧ toRepr root = rootAfter P (applied.take m)) ↔
    (k ≠ Usize.max ∨ applied = []) := by
  intro pool applied
  have hinv : PoolInv P pool := run_invariant_of_step callStep_inv calls (.new k)
  have hw : pool.recencyWindow = k := (run_fixed (PoolInv.new k) calls).1
  have h : Replayed P k pool.state := hw ▸ hinv.replayed
  have hf : ∀ root, isRootFresh root pool.ownDeps = true ↔
      ∃ s ∈ pool.state.roots.roots, s.root = toRepr root := by
    unfold ownDeps
    rw [hw]
    exact isRootFresh_iff h _
  simp only [hf]
  constructor
  · intro hall
    by_contra hc
    obtain ⟨hk, ha⟩ := not_or.mp hc
    have hnil := h.roots_eq_nil ((MerkleRootState.keep_eq_zero_iff k).mpr (not_not.mp hk)) ha
    -- the newest root is one to be taken, and nothing is retained
    obtain ⟨s, hs, -⟩ := (hall pool.state.tree.root).mpr
      ⟨applied.length, Nat.sub_le _ _, le_rfl, by rw [take_length]; exact h.root_eq⟩
    rw [hnil] at hs
    cases hs
  · intro hk root
    have hl : _ = min (applied.length + 1) _ :=
      h.roots_length (hk.imp_left (mt (MerkleRootState.keep_eq_zero_iff k).mp))
    have hn : _ = applied.length + 1 := h.nextHeight_eq
    constructor
    · rintro ⟨s, hs, hr⟩
      obtain ⟨j, hj, rfl⟩ := getElem_of_mem hs
      have hh := h.height_eq (getElem?_eq_getElem hj)
      obtain ⟨hle, heq⟩ := h.snapshot_eq hs
      exact ⟨_, by omega, hle, hr.symm.trans heq⟩
    · rintro ⟨m, hm, hle, hr⟩
      have hj : m + pool.state.roots.roots.length - (applied.length + 1) <
        pool.state.roots.roots.length := by omega
      have hh := h.height_eq (getElem?_eq_getElem hj)
      obtain ⟨-, heq⟩ := h.snapshot_eq (getElem_mem hj)
      refine ⟨_, getElem_mem hj, heq.trans (hr.symm ▸ ?_)⟩
      congr 2
      omega

/-- With a window of `usize::MAX` a pool takes one transfer, and then not even the root
it has. -/
theorem newest_root_refused :
    let pool := run (callStep sampleCodec samplePrimitives) (ShieldedPool.new Usize.max)
      (sampleCalls.take 1)
    pool.state.applied.length = 1 ∧ isRootFresh pool.state.tree.root pool.ownDeps = false ∧
      toRepr pool.state.tree.root = rootAfter samplePrimitives pool.state.applied := by
  decide +kernel

theorem validateShielded_stale {env : EnvironmentMetadata} {deps : ShieldedValidationDeps}
    {stx : ShieldedTransaction} {pi : PublicInputs} (hs : checkStructural stx = .ok ())
    (hp : publicInputsFromShieldedTx P stx = .ok pi) (hsn : ∀ n ∈ stx.nullifiers, n ∉ deps.spent)
    (hr : isRootFresh pi.merkleRoot deps = false) :
    validateShielded P env deps stx = .error (.validation [.staleMerkleRoot]) := by
  have hany : stx.nullifiers.any (fun n => n ∈ deps.spent) = false := by simpa using hsn
  simp [validateShielded, hs, hp, hany, hr, bind, Except.bind]

/-- A transfer that the pool's own re-check accepts is accepted by both roles
exactly when the environment registered the spec and the transfer was proved
against a root that the pool retained at boot; with another root both refuse it
as stale. -/
theorem roles_accept_iff {boot : ShieldedPool} (hboot : Booted P boot)
    (calls : List PoolCall) {env : EnvironmentMetadata}
    {stx : ShieldedTransaction} {r : TransactionValidationResult}
    (hwindow : env.shieldedRootRecency = boot.recencyWindow) (haccept : validateShielded P env
      (run (callStep C P) boot calls).ownDeps stx = .ok r) :
    ((handleShieldedTransferValidation P env (run (callStep C P) boot calls).view stx = .ok r ∧
      validateShieldedAdvisory P env (run (callStep C P) boot calls).view stx = .ok ()) ↔
    (env.shieldedSpec = true ∧ ∃ s ∈ boot.state.roots.roots, s.root = stx.merkleRoot)) ∧
    (env.shieldedSpec = true → (∀ s ∈ boot.state.roots.roots, s.root ≠ stx.merkleRoot) →
      handleShieldedTransferValidation P env (run (callStep C P) boot calls).view stx =
          .error (.validation [.staleMerkleRoot]) ∧
        validateShieldedAdvisory P env (run (callStep C P) boot calls).view stx =
          .error (.validation [.staleMerkleRoot])) := by
  obtain ⟨hinv, hvw⟩ := hboot.inv
  obtain ⟨-, hfx⟩ := run_fixed (C := C) hinv calls
  obtain ⟨hs, pi, hp, hsn, -, hrs, hv, rfl⟩ :=
    validateShielded_ok_iff.mp haccept
  obtain ⟨n, spent, out, hsh⟩ := spendShape_of_ok hs hp
  have hf := isRootFresh_iff hinv.replayed (run (callStep C P) boot calls).nullifiers pi.merkleRoot
  rw [hsh.merkleRoot_eq] at hf
  -- no call touches the view, so the roles still see the roots of the boot
  have hrt : (run (callStep C P) boot calls).view.rootHistory = boot.state.roots.roots := by
    show (run (callStep C P) boot calls).viewRoots.roots = _
    rw [hfx, hvw]
  cases hsp : env.shieldedSpec with
  | false =>
    simp [handleShieldedTransferValidation, roleValidation, hsp]
  | true =>
    have hr : roleValidation P env (run (callStep C P) boot calls).view stx =
          .ok (.valid [] shieldedNeutralRisk) ↔
        ∃ s ∈ boot.state.roots.roots, s.root = stx.merkleRoot := by
      rw [roleValidation, if_pos hsp, validateShielded_ok_iff, ← hf, hrt, hwindow]
      constructor
      · rintro ⟨-, pi', hp', -, hf', -⟩
        rw [hp] at hp'
        cases hp'
        exact hf'
      · intro hf'
        exact ⟨hs, pi, hp, hsn, hf', hrs, hv, rfl⟩
    rw [handleShieldedTransferValidation, validateShieldedAdvisory, hr]
    refine ⟨⟨fun h => ⟨rfl, h.1⟩, fun h => ⟨h.2, ?_⟩⟩, fun _ hno => ?_⟩
    · rw [hr.mpr h.2]
      rfl
    · have hst : roleValidation P env (run (callStep C P) boot calls).view stx =
          .error (.validation [.staleMerkleRoot]) := by
        rw [roleValidation, if_pos hsp]
        refine validateShielded_stale hs hp hsn (Bool.eq_false_iff.mpr fun hfr => ?_)
        rw [hrt, hwindow] at hfr
        obtain ⟨s, hmem, heq⟩ := hf.mp hfr
        exact hno s hmem heq
      rw [hst]
      exact ⟨rfl, rfl⟩

/-- A note created after boot: the pool would take the transfer that spends
it, both roles turn it away. -/
theorem roles_refuse_note_created_after_boot : validateShielded samplePrimitives sampleEnv
        (run (callStep sampleCodec samplePrimitives) (ShieldedPool.new 10)
          (sampleCalls.take 1)).ownDeps dependentTransfer = .ok (.valid [] shieldedNeutralRisk) ∧
      handleShieldedTransferValidation samplePrimitives sampleEnv
        (run (callStep sampleCodec samplePrimitives) (ShieldedPool.new 10)
          (sampleCalls.take 1)).view dependentTransfer = .error (.validation [.staleMerkleRoot]) ∧
      validateShieldedAdvisory samplePrimitives sampleEnv
        (run (callStep sampleCodec samplePrimitives) (ShieldedPool.new 10)
          (sampleCalls.take 1)).view dependentTransfer = .error (.validation [.staleMerkleRoot]) :=
  ⟨by decide +kernel, by decide +kernel, by decide +kernel⟩

/-- A transfer proved against the boot-time root passes both roles after other
blocks have moved the pool on. -/
theorem roles_accept_bootRoot : handleShieldedTransferValidation samplePrimitives sampleEnv
        (run (callStep sampleCodec samplePrimitives) (ShieldedPool.new 10) sampleCalls).view
        (sampleTransfer [67] (.ofNat 25) (.ofNat 26) (.ofNat 27) (toRepr 0)) =
        .ok (.valid [] shieldedNeutralRisk) ∧ validateShieldedAdvisory samplePrimitives sampleEnv
        (run (callStep sampleCodec samplePrimitives) (ShieldedPool.new 10) sampleCalls).view
        (sampleTransfer [67] (.ofNat 25) (.ofNat 26) (.ofNat 27) (toRepr 0)) = .ok () :=
  (roles_accept_iff (.new 10) sampleCalls rfl (by decide +kernel)).1.mpr ⟨rfl, by decide +kernel⟩

end ShieldedPool

end Pneumatic
