import Pneumatic.Proofs.CircuitSoundness
import Pneumatic.Proofs.PoolSpends
import Pneumatic.Proofs.TreeProofs

/-!
# Where a spent commitment comes from

Grant the pool a verifier that is sound for the statement of the Action
circuit. An accepted transfer then has a witness whose leaf hashes to a root
the pool retains, that root is the root of a prefix of the leaves, and so the
leaf is one of them unless Poseidon collides on the pairs involved. The leaf was
put there by a transaction of the applied history.

That is all. No check reads the token a transfer names: the commitment, the
leaf, the public inputs and the pool are the same for every token, and a note
made under one is spent under another.
-/

namespace Pneumatic

open MerkleTree IncrementalMerkleTree Run List

namespace ShieldedPool

open PoolState

variable {C : Codec} {P : ShieldedPrimitives}

/-- A delta's leaves are those of its transaction's outputs. -/
def MadeBy (P : ShieldedPrimitives) (stx : ShieldedTransaction) (d : AppliedPoolDelta) : Prop :=
  ∃ fs : List Fp, d.leaves = fs.map toRepr ∧
    List.Forall₂ (fun c f => commitmentLeaf P c = .ok f) stx.commitments fs

/-- The invariant of tracked runs, removals of any kind included: each delta
is made by its transaction. -/
structure SourceInv (P : ShieldedPrimitives) (t : Tracked) : Prop where
  inv : PoolInv P t.pool
  made : List.Forall₂ (MadeBy P) t.spends t.pool.state.applied

theorem forall₂_eraseIdx {α β : Type*} {R : α → β → Prop} {xs : List α}
    {ys : List β} (h : List.Forall₂ R xs ys) (i : Nat) :
    List.Forall₂ R (xs.eraseIdx i) (ys.eraseIdx i) := by
  induction h generalizing i with
  | nil => exact .nil
  | cons hxy ht ih =>
    cases i with
    | zero => exact ht
    | succ i => exact .cons hxy (ih i)

theorem forall₂_madeBy_of_content {spends : List ShieldedTransaction}
    {ds es : List AppliedPoolDelta} (h : List.Forall₂ (MadeBy P) spends ds)
    (hc : es.map AppliedPoolDelta.content = ds.map AppliedPoolDelta.content) :
    List.Forall₂ (MadeBy P) spends es := by
  have key : ∀ l : List AppliedPoolDelta, List.Forall₂ (MadeBy P) spends l ↔
        List.Forall₂ (fun stx (c : Bytes × List Bytes32 × List Bytes32) =>
          ∃ fs : List Fp, c.2.1 = fs.map toRepr ∧
            List.Forall₂ (fun c f => commitmentLeaf P c = .ok f)
              stx.commitments fs)
          spends (l.map AppliedPoolDelta.content) := by
    intro l
    rw [forall₂_map_right_iff]
    rfl
  rw [key, hc, ← key]
  exact h

theorem SourceInv.step (t : Tracked) (c : PoolCall) (h : SourceInv P t) :
    SourceInv P (trackStep C P t c) := by
  rcases trackStep_cases (C := C) h.inv c with
    ⟨env, block, stx, fs, hr, heq⟩ | ⟨bh, i, d, r, rfl, hrem, heq⟩ | heq
  · rw [heq]
    refine ⟨h.inv.round hr, ?_⟩
    simp only [afterRound, recordDelta, appendLeaves_applied]
    exact rel_append h.made (.cons ⟨fs, rfl, hr.leaves⟩ .nil)
  · rw [heq]
    exact ⟨h.inv.removal hrem, forall₂_madeBy_of_content (forall₂_eraseIdx h.made i) hrem.content⟩
  · rw [heq]
    exact h

theorem SourceInv.run (k : Usize) (calls : List PoolCall) :
    SourceInv P (run (trackStep C P) (Tracked.new k) calls) :=
  run_invariant_of_step SourceInv.step calls ⟨PoolInv.new k, .nil⟩

/-- Every leaf of the pool is the leaf of an output in the history. -/
theorem SourceInv.exists_output {t : Tracked} (h : SourceInv P t) {f : Fp}
    (hf : f ∈ t.pool.state.leaves) :
    ∃ stx ∈ t.spends, ∃ c ∈ stx.commitments, commitmentLeaf P c = .ok f := by
  have hr : toRepr f ∈ t.pool.state.applied.flatMap AppliedPoolDelta.leaves := by
    rw [← h.inv.replayed.leaves_eq]
    exact mem_map_of_mem hf
  obtain ⟨d, hd, hfd⟩ := mem_flatMap.mp hr
  obtain ⟨i, hi, rfl⟩ := getElem_of_mem hd
  have hi' : i < t.spends.length := by rw [h.made.length_eq]; exact hi
  obtain ⟨fs, hl, hfs⟩ := List.Forall₂.get h.made hi' hi
  simp only [get_eq_getElem] at hl hfs
  rw [hl] at hfd
  obtain ⟨g, hg, hgf⟩ := mem_map.mp hfd
  obtain rfl := toRepr_injective hgf
  obtain ⟨j, hj, rfl⟩ := getElem_of_mem hg
  have hj' : j < (t.spends[i]).commitments.length := by
    rw [hfs.length_eq]; exact hj
  exact ⟨t.spends[i], getElem_mem hi', (t.spends[i]).commitments[j],
    getElem_mem hj', List.Forall₂.get hfs hj' hj⟩

/-- The pairs that Poseidon hashes between a spend and the pool: the spent
commitment and the outputs of the history to their leaves, the witness's path,
and the trees over the prefixes of the leaves. -/
def spendQueries (P : ShieldedPrimitives) (t : Tracked) (pi : PublicInputs)
    (w : ActionWitness) : Set (Fp × Fp) :=
  {q | q = (pi.commitX, pi.commitY) ∨
    (∃ stx ∈ t.spends, ∃ c ∈ stx.commitments, P.pointCoords c = some q) ∨
    q ∈ pathQueries (nodeHash P.poseidonHash) (w.index % 2 ^ defaultDepth)
      (P.poseidonHash [pi.commitX, pi.commitY]) w.siblings ∨
    ∃ leaves, leaves <+: t.pool.state.leaves ∧
      q ∈ treeQueries 0 (nodeHash P.poseidonHash) leaves defaultDepth}

theorem decodedLeaves_take_prefix {k : Usize} {state : PoolState}
    (h : Replayed P k state) (j : Nat) : decodedLeaves (state.applied.take j) <+: state.leaves := by
  rw [h.leaves_decoded]
  refine ⟨decodedLeaves (state.applied.drop j), ?_⟩
  rw [decodedLeaves, decodedLeaves, decodedLeaves, ← filterMap_append,
    ← flatMap_append, take_append_drop]

/-- The root a spend names is the abstract root over a prefix of the leaves. -/
theorem exists_prefix_of_isRootFresh {pool : ShieldedPool} (h : PoolInv P pool)
    {root : Fp} (hf : isRootFresh root pool.ownDeps = true) :
    ∃ l, l <+: pool.state.leaves ∧
      root = treeNode P.poseidonHash l defaultDepth 0 := by
  obtain ⟨s, hs, hr⟩ := exists_snapshot_of_isRootFresh hf
  obtain ⟨-, heq⟩ := h.replayed.snapshot_eq hs
  refine ⟨decodedLeaves (pool.state.applied.take s.height),
    decodedLeaves_take_prefix h.replayed s.height, ?_⟩
  rw [← root_fromLeaves]
  exact toRepr_injective (hr.symm.trans heq)

section Sound

variable {G : Type} [AddCommGroup G] [Module Fq G]

/-- Inputs whose proof is accepted have a witness. -/
def SoundVerifier (K : PedersenGroup G)
    (authorises : Bytes32 → Bytes32 → Prop) (P : ShieldedPrimitives) : Prop :=
  ∀ proof inputs, P.verify proof inputs = true →
    ∃ w, ActionRelation K P.poseidonHash authorises w inputs

variable {K : PedersenGroup G} {authorises : Bytes32 → Bytes32 → Prop}

theorem leaf_mem_of_relation {t : Tracked} (h : SourceInv P t)
    {pi : PublicInputs} {w : ActionWitness}
    (hfr : isRootFresh pi.merkleRoot t.pool.ownDeps = true)
    (hw : ActionRelation K P.poseidonHash authorises w pi)
    (hf : CollisionFree 0 (nodeHash P.poseidonHash) (spendQueries P t pi w)) :
    P.poseidonHash [pi.commitX, pi.commitY] ∈ t.pool.state.leaves := by
  obtain ⟨l, hp, hr⟩ := exists_prefix_of_isRootFresh h.inv hfr
  have hc : climb (nodeHash P.poseidonHash) (w.index % 2 ^ w.siblings.length)
      (P.poseidonHash [pi.commitX, pi.commitY]) w.siblings =
        treeNode P.poseidonHash l w.siblings.length 0 := by
    rw [climb_mod, hw.siblings_length, ← hr, ← hw.path_eq,
      hashPath_eq_climb, Nat.pow_zero, Nat.div_one]
  have hne : P.poseidonHash [pi.commitX, pi.commitY] ≠ 0 :=
    hf.ne_zero (pi.commitX, pi.commitY) (.inl rfl)
  have hget := getElem?_of_climb (Nat.mod_lt _ (Nat.two_pow_pos _)) (hf.mono (by
      rintro q (hq | hq)
      · rw [Set.mem_ofPred_eq, hw.siblings_length] at hq
        exact .inr (.inr (.inl hq))
      · rw [hw.siblings_length] at hq
        exact .inr (.inr (.inr ⟨l, hp, hq⟩)))) hc hne
  exact hp.subset (mem_of_getElem? hget)

/-- Under a sound verifier an applied transfer has a witness, and the
commitment it spends was appended, up to a collision of Poseidon, by a
transaction of the applied history. The token plays no part in the verdict. -/
theorem spent_commitment_appended (hsound : SoundVerifier K authorises P)
    (k : Usize) (calls : List PoolCall) {env : EnvironmentMetadata}
    {block : Block} {stx : ShieldedTransaction}
    (hstx : block.signedTrans.shielded = some stx)
    (happ : (applyUpdate C P env (run (trackStep C P) (Tracked.new k) calls).pool block).2 =
        .ok .applied) :
    ∃ spent pi, stx.spentCommitments = [spent] ∧ publicInputsFromShieldedTx P stx = .ok pi ∧
      (∃ w, ActionRelation K P.poseidonHash authorises w pi) ∧
      (∀ w, ActionRelation K P.poseidonHash authorises w pi →
        CollisionFree 0 (nodeHash P.poseidonHash)
          (spendQueries P (run (trackStep C P) (Tracked.new k) calls) pi w) →
        ∃ tx ∈ (run (trackStep C P) (Tracked.new k) calls).spends,
          ∃ c ∈ tx.commitments, P.pointCoords c = P.pointCoords spent) ∧
      ∀ token, validateShielded P env (run (trackStep C P) (Tracked.new k) calls).pool.ownDeps
          { stx with tokenId := token } =
        validateShielded P env (run (trackStep C P) (Tracked.new k) calls).pool.ownDeps stx := by
  have hinv := SourceInv.run (C := C) (P := P) k calls
  generalize run (trackStep C P) (Tracked.new k) calls = t at happ hinv ⊢
  rcases applyUpdate_cases (C := C) (P := P) env t.pool block with
    ⟨stx', fs, hrn, -⟩ | ⟨-, hne⟩
  · obtain rfl := Option.mem_unique hstx hrn.shielded
    obtain ⟨r, hr⟩ := hrn.accepted
    obtain ⟨hs, pi, hp, -, hfr, -, hv, -⟩ :=
      validateShielded_ok_iff.mp hr
    obtain ⟨n, spent, out, hsh⟩ := spendShape_of_ok hs hp
    refine ⟨spent, pi, hsh.spentCommitments_eq, hp, hsound _ _ hv, ?_, fun _ => rfl⟩
    intro w hw hf
    obtain ⟨tx, htx, c, hc, hl⟩ :=
      hinv.exists_output (leaf_mem_of_relation hinv hfr hw hf)
    refine ⟨tx, htx, c, hc, ?_⟩
    -- equal leaves are equal points, on the two pairs hashed to them
    unfold commitmentLeaf at hl
    split at hl
    · next x y hxy =>
      rw [pointCoords_ok_iff] at hxy
      have heq := hf.inj (x, y) (.inr (.inl ⟨tx, htx, c, hc, hxy⟩))
        (pi.commitX, pi.commitY) (.inl rfl) (Except.ok.inj hl)
      rw [hxy, hsh.commit_eq, heq]
    · cases hl
  · exact absurd happ hne

end Sound

def affineHash : List Fp → Fp
  | [a, b] => 2 * a + b + 1
  | [_, key, _] => key
  | _ => 0

def nineNote (c : Fq) : ShieldedNote where
  value := 9
  ownerPk := .ofNat 0
  rho := 0
  rcm := c - 9

/-- The first spend: a note that hashes to the empty tree's root. -/
def firstWitness : ActionWitness where
  note := nineNote 6
  spendKey := .ofNat 5
  index := 0
  siblings := List.replicate 31 0 ++ [1 - 28 * 2 ^ 31]
  outputNote := nineNote 7

def secondWitness : ActionWitness where
  note := nineNote 7
  spendKey := .ofNat 15
  index := 0
  siblings := List.replicate 32 0
  outputNote := nineNote 17

def spendInputs (nullifier spent root output : Fp) : PublicInputs :=
  ⟨nullifier, spent, 0, root, output, 0, 0⟩

def secondRoot : Fp := 16 * 2 ^ 32 - 1

theorem first_relation : ActionRelation lineGroup affineHash (fun _ _ => True)
    firstWitness (spendInputs 5 6 0 7) :=
  ⟨trivial, by decide +kernel, by decide +kernel, by decide +kernel,
    by decide +kernel, by decide +kernel, by decide +kernel⟩

theorem second_relation : ActionRelation lineGroup affineHash (fun _ _ => True)
    secondWitness (spendInputs 15 7 secondRoot 17) :=
  ⟨trivial, by decide +kernel, by decide +kernel, by decide +kernel,
    by decide +kernel, by decide +kernel, by decide +kernel⟩

def twoProofs : ShieldedPrimitives where
  poseidonHash := affineHash
  pointCoords bytes := (fromRepr bytes).map (·, 0)
  verify _ pi := pi = spendInputs 5 6 0 7 ∨ pi = spendInputs 15 7 secondRoot 17

theorem twoProofs_sound : SoundVerifier lineGroup (fun _ _ => True) twoProofs := by
  intro proof pi hv
  rcases of_decide_eq_true hv with rfl | rfl
  · exact ⟨firstWitness, first_relation⟩
  · exact ⟨secondWitness, second_relation⟩

def mintingCalls : List PoolCall :=
  [.apply sampleEnv (sampleBlock [1]
    (sampleTransfer [65] (.ofNat 5) (.ofNat 6) (.ofNat 7) (toRepr 0)))]

def crossingTransfer : ShieldedTransaction :=
  sampleTransfer [66] (.ofNat 15) (.ofNat 7) (.ofNat 17) (toRepr secondRoot)

/-- With a sound verifier, a note of value nine made under token `[65]` is spent under token
`[66]`, under which nothing was ever appended. -/
theorem token_crossed : SoundVerifier lineGroup (fun _ _ => True) twoProofs ∧
    (applyUpdate sampleCodec twoProofs sampleEnv
      (run (trackStep sampleCodec twoProofs) (Tracked.new 10)
        mintingCalls).pool (sampleBlock [2] crossingTransfer)).2 = .ok .applied ∧
    crossingTransfer.tokenId = [66] ∧ (run (trackStep sampleCodec twoProofs) (Tracked.new 10)
      mintingCalls).spends.map ShieldedTransaction.tokenId = [[65]] :=
  ⟨twoProofs_sound, by decide +kernel, rfl, by decide +kernel⟩

/-- A small node with an empty sibling. -/
def SmallQuery (q : Fp × Fp) : Prop := q.1.val < 2 ^ 40 ∧ q.2 = 0

instance : DecidablePred SmallQuery := fun _ => inferInstanceAs (Decidable (_ ∧ _))

theorem val_affineHash {q : Fp × Fp} (h : SmallQuery q) :
    (nodeHash affineHash q.1 q.2).val = 2 * q.1.val + 1 := by
  obtain ⟨hlt, hz⟩ := h
  have hc : nodeHash affineHash q.1 q.2 = ((2 * q.1.val + 1 : Nat) : Fp) := by
    rw [hz, Nat.cast_add, Nat.cast_mul, ZMod.natCast_zmod_val, nodeHash, affineHash]
    norm_num
  have hp : 2 ^ 41 < pallasModulus := by decide
  rw [hc, ZMod.val_natCast_of_lt (by omega)]

theorem collisionFree_small : CollisionFree 0 (nodeHash affineHash) {q | SmallQuery q} := by
  refine ⟨?_, ?_⟩
  · intro p hp q hq h
    have hval := congrArg ZMod.val h
    rw [val_affineHash hp, val_affineHash hq] at hval
    have h1 : p.1.val = q.1.val := by omega
    exact Prod.ext (ZMod.val_injective _ h1) (hp.2.trans hq.2.symm)
  · intro p hp h
    have hval := congrArg ZMod.val h
    rw [val_affineHash hp, ZMod.val_zero] at hval
    omega

/-- Along a leftmost path with zero siblings the queries stay small. -/
theorem small_pathQueries (n : Nat) {current : Fp} (h : (current.val + 1) * 2 ^ n ≤ 2 ^ 40) :
    ∀ q ∈ pathQueries (nodeHash affineHash) 0 current (replicate n 0), SmallQuery q := by
  induction n generalizing current with
  | zero => intro q hq; cases hq
  | succ n ih =>
    have hpow := Nat.two_pow_pos (n + 1)
    have hle := Nat.le_mul_of_pos_right (current.val + 1) hpow
    have hs : SmallQuery (current, 0) := ⟨by show current.val < _; omega, rfl⟩
    have hn : ((nodeHash affineHash current 0).val + 1) * 2 ^ n ≤ 2 ^ 40 := by
      rw [val_affineHash hs]
      calc (2 * current.val + 1 + 1) * 2 ^ n = (current.val + 1) * 2 ^ (n + 1) := by ring
        _ ≤ 2 ^ 40 := h
    intro q hq
    rcases mem_cons.mp hq with rfl | hq
    · exact hs
    · exact ih hn q hq

theorem spendQueries_crossing : spendQueries twoProofs
        (run (trackStep sampleCodec twoProofs) (Tracked.new 10) mintingCalls)
        (spendInputs 15 7 secondRoot 17) secondWitness ⊆ {q | SmallQuery q} := by
  rintro q (rfl | ⟨stx, hstx, c, hc, hq⟩ | hq | ⟨l, hl, hq⟩)
  · decide +kernel
  · have hcr : ∀ tx ∈ (run (trackStep sampleCodec twoProofs)
        (Tracked.new 10) mintingCalls).spends, ∀ c ∈ tx.commitments,
        twoProofs.pointCoords c = some (7, 0) := by decide +kernel
    rw [hcr stx hstx c hc] at hq
    obtain rfl := Option.some.inj hq
    decide +kernel
  · exact small_pathQueries 32 (by decide +kernel) q hq
  · have hp : (run (trackStep sampleCodec twoProofs) (Tracked.new 10)
        mintingCalls).pool.state.leaves = [15] := by decide +kernel
    rw [hp] at hl
    obtain ⟨level, pos, hlv, hpos, rfl⟩ := hq
    have hlen := hl.length_le
    rw [length_singleton] at hlen
    obtain rfl : pos = 0 := by
      rcases Nat.eq_zero_or_pos pos with h | h
      · exact h
      · have := Nat.le_mul_of_pos_left (2 ^ (level + 1)) h
        have := Nat.two_pow_pos (level + 1)
        omega
    obtain rfl : l = [15] := by
      apply hl.eq_of_length_le
      rw [length_singleton]
      omega
    have ht : ∀ level < 32, SmallQuery (treeNode affineHash [15] level 0,
        treeNode affineHash [15] level 1) := by
      decide +kernel
    exact ht level hlv

/-- The second spend is of the first one's output, and no collision is
involved. -/
theorem crossing_spends_first_output :
    ∃ tx ∈ (run (trackStep sampleCodec twoProofs) (Tracked.new 10) mintingCalls).spends,
      ∃ c ∈ tx.commitments, twoProofs.pointCoords c = twoProofs.pointCoords (.ofNat 7) := by
  obtain ⟨spent, pi, hs, hpi, -, hf, -⟩ :=
    @spent_commitment_appended sampleCodec twoProofs Fq _ _ lineGroup
      (fun _ _ => True) twoProofs_sound 10 mintingCalls sampleEnv
      (sampleBlock [2] crossingTransfer) crossingTransfer rfl
      (by decide +kernel)
  obtain rfl : Bytes32.ofNat 7 = spent := head_eq_of_cons_eq hs
  have hi : publicInputsFromShieldedTx twoProofs crossingTransfer =
      .ok (spendInputs 15 7 secondRoot 17) := rfl
  obtain rfl := Except.ok.inj (hi.symm.trans hpi)
  refine hf secondWitness second_relation ?_
  exact collisionFree_small.mono spendQueries_crossing

end ShieldedPool

end Pneumatic
