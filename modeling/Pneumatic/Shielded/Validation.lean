import Pneumatic.Core.Transactions
import Pneumatic.Shielded.Registries

/-!
# Shielded validation

`verify.rs` and `validation/shielded.rs`: from a wire transaction to the public
inputs of its proof, and the four checks in their order. Structure first, then
the nullifiers against the spent set, then the referenced root against the root
history, then the environment's risk policy, and only then the proof.

Three things come from outside: Poseidon, the decoding of a compressed curve
point, and the Halo2 verifier. They are the fields of `ShieldedPrimitives`. The
point decoder answers `none` on a string that is no point and on the point at
infinity, the two cases `point_coords` refuses.
-/

namespace Pneumatic

open List

/-- `PublicInputs`: the seven instance columns of the Action circuit. -/
structure PublicInputs where
  nullifier : Fp
  commitX : Fp
  commitY : Fp
  merkleRoot : Fp
  outputCommitX : Fp
  outputCommitY : Fp
  fee : Fp
deriving DecidableEq

/-- Poseidon, the compressed-point decoder and the proof verifier. -/
structure ShieldedPrimitives where
  poseidonHash : List Fp → Fp
  pointCoords : Bytes32 → Option (Fp × Fp)
  verify : Bytes → PublicInputs → Bool

/-- `EnvironmentMetadata`, the part the shielded path reads. `shieldedSpec`
says whether the environment registered the opt-in `"Shielded"` validation
spec. -/
structure EnvironmentMetadata where
  maxRisk : ℚ
  shieldedRootRecency : Usize
  shieldedSpec : Bool

/-- `ShieldedValidationDeps`: the view a caller hands to the checks. -/
structure ShieldedValidationDeps where
  spent : Finset Bytes32
  roots : List RootSnapshot
  recencyWindow : Usize

/-- `decode_failure` and `shielded_structure_err`. -/
def decodeFailure : PneumaticError := .validation [.invalidCommitment]

def circuitMaxInputs : Nat := 1

def shieldedNeutralRisk : TransactionRiskFactor where
  affectedParties := 2
  amount := 0
  isContract := false
  isMultiParty := false

/-- The two nested loops of `check_structural` over the nullifiers. -/
def hasRepeat : List Bytes32 → Bool
  | [] => false
  | n :: rest => rest.contains n || hasRepeat rest

def checkStructural (tx : ShieldedTransaction) : Except PneumaticError Unit :=
  if tx.nullifiers.isEmpty || decide (tx.nullifiers.length > circuitMaxInputs) then
    .error decodeFailure
  else if tx.spentCommitments.isEmpty || decide (tx.spentCommitments.length > circuitMaxInputs) then
    .error decodeFailure
  else if tx.commitments.isEmpty || decide (tx.commitments.length > circuitMaxInputs) then
    .error decodeFailure
  else if hasRepeat tx.nullifiers then
    .error decodeFailure
  else .ok ()

def isRootFresh (merkleRoot : Fp) (deps : ShieldedValidationDeps) : Bool :=
  match deps.roots.getLast? with
  | none => false
  | some newest =>
    match deps.roots.find? (fun s => s.root = toRepr merkleRoot) with
    | some s => decide (newest.height - s.height ≤ deps.recencyWindow.val)
    | none => false

section Primitives

variable (P : ShieldedPrimitives)

def pointCoords (bytes : Bytes32) : Except PneumaticError (Fp × Fp) :=
  match P.pointCoords bytes with
  | some coords => .ok coords
  | none => .error decodeFailure

def publicInputsFromShieldedTx (tx : ShieldedTransaction) : Except PneumaticError PublicInputs :=
  match tx.nullifiers.head?, tx.spentCommitments.head? with
  | some nullifier, some spent =>
    match pointCoords P spent with
    | .error e => .error e
    | .ok (commitX, commitY) =>
      match fromRepr tx.merkleRoot, tx.commitments.head? with
      | some merkleRoot, some commitment =>
        match pointCoords P commitment with
        | .error e => .error e
        | .ok (outX, outY) =>
          .ok { nullifier := bytes32ToFp nullifier
                commitX := commitX
                commitY := commitY
                merkleRoot := merkleRoot
                outputCommitX := outX
                outputCommitY := outY
                fee := (tx.fee : Fp) }
      | _, _ => .error decodeFailure
  | _, _ => .error decodeFailure

def commitmentLeaf (bytes : Bytes32) : Except PneumaticError Fp :=
  match pointCoords P bytes with
  | .ok (x, y) => .ok (P.poseidonHash [x, y])
  | .error e => .error e

def validateShielded (env : EnvironmentMetadata) (deps : ShieldedValidationDeps)
    (tx : ShieldedTransaction) :
    Except PneumaticError TransactionValidationResult := do
  checkStructural tx
  let publicInputs ← publicInputsFromShieldedTx P tx
  if tx.nullifiers.any (fun nullifier => nullifier ∈ deps.spent) then
    .error (.validation [.staleNullifier])
  else if isRootFresh publicInputs.merkleRoot deps = false then
    .error (.validation [.staleMerkleRoot])
  else if shieldedNeutralRisk.score > env.maxRisk then
    .error (.validation [.riskExceedsThreshold])
  else if P.verify tx.proof publicInputs = false then
    .error (.validation [.invalidShieldedProof])
  else .ok (.valid [] shieldedNeutralRisk)

end Primitives

variable {tx : ShieldedTransaction}

/-- The structural check leaves one nullifier, one spent commitment and one
output, the shape of the circuit. -/
theorem checkStructural_ok_iff : checkStructural tx = .ok () ↔
      (∃ n, tx.nullifiers = [n]) ∧ (∃ c, tx.spentCommitments = [c]) ∧
        ∃ c, tx.commitments = [c] := by
  have hone : ∀ l : List Bytes32, (l.isEmpty || decide (l.length > circuitMaxInputs)) = false ↔
        ∃ x, l = [x] := by
    intro l
    rw [← length_eq_one_iff]
    rw [Bool.or_eq_false_iff, isEmpty_eq_false_iff,
      ← length_pos_iff_ne_nil, decide_eq_false_iff_not, circuitMaxInputs]
    omega
  unfold checkStructural
  constructor
  · intro h
    split at h
    · cases h
    · next h1 =>
      split at h
      · cases h
      · next h2 =>
        split at h
        · cases h
        · next h3 =>
          exact ⟨(hone _).mp (by simpa using h1), (hone _).mp (by simpa using h2),
            (hone _).mp (by simpa using h3)⟩
  · rintro ⟨⟨n, hn⟩, ⟨c, hc⟩, d, hd⟩
    simp [hn, hc, hd, hasRepeat, circuitMaxInputs]

variable {P : ShieldedPrimitives}

theorem validateShielded_ok_iff {env : EnvironmentMetadata}
    {deps : ShieldedValidationDeps} {r : TransactionValidationResult} :
    validateShielded P env deps tx = .ok r ↔ checkStructural tx = .ok () ∧
      ∃ publicInputs, publicInputsFromShieldedTx P tx = .ok publicInputs ∧
        (∀ n ∈ tx.nullifiers, n ∉ deps.spent) ∧ isRootFresh publicInputs.merkleRoot deps = true ∧
        shieldedNeutralRisk.score ≤ env.maxRisk ∧ P.verify tx.proof publicInputs = true ∧
        r = .valid [] shieldedNeutralRisk := by
  unfold validateShielded
  cases hs : checkStructural tx with
  | error e =>
    constructor
    · intro h; cases h
    · rintro ⟨h, -⟩; cases h
  | ok u =>
    cases hp : publicInputsFromShieldedTx P tx with
    | error e =>
      constructor
      · intro h; cases h
      · rintro ⟨-, _, h, -⟩; cases h
    | ok publicInputs =>
      simp only [bind, Except.bind]
      constructor
      · intro h
        split at h
        · cases h
        · next hsp =>
          split at h
          · cases h
          · next hf =>
            split at h
            · cases h
            · next hr =>
              split at h
              · cases h
              · next hv =>
                cases h
                refine ⟨trivial, publicInputs, rfl, ?_, ?_, ?_, ?_, rfl⟩
                · simpa using hsp
                · simpa using hf
                · simpa using hr
                · simpa using hv
      · rintro ⟨-, pi, hpi, hsp, hf, hr, hv, rfl⟩
        cases hpi
        rw [if_neg (by simpa using hsp), if_neg (by simpa using hf),
          if_neg (not_lt.mpr hr), if_neg (by simpa using hv)]

/-- What an accepted transaction carries, and what its proof was checked
against. -/
structure SpendShape (P : ShieldedPrimitives) (tx : ShieldedTransaction)
    (nullifier spent output : Bytes32) (publicInputs : PublicInputs) : Prop where
  nullifiers_eq : tx.nullifiers = [nullifier]
  spentCommitments_eq : tx.spentCommitments = [spent]
  commitments_eq : tx.commitments = [output]
  nullifier_eq : publicInputs.nullifier = bytes32ToFp nullifier
  commit_eq : P.pointCoords spent = some (publicInputs.commitX, publicInputs.commitY)
  merkleRoot_eq : toRepr publicInputs.merkleRoot = tx.merkleRoot
  output_eq : P.pointCoords output = some (publicInputs.outputCommitX, publicInputs.outputCommitY)
  fee_eq : publicInputs.fee = (tx.fee : Fp)

theorem pointCoords_ok_iff {bytes : Bytes32} {coords : Fp × Fp} :
    pointCoords P bytes = .ok coords ↔ P.pointCoords bytes = some coords := by
  unfold pointCoords
  cases P.pointCoords bytes <;> simp

theorem spendShape_of_ok {publicInputs : PublicInputs}
    (hs : checkStructural tx = .ok ()) (hp : publicInputsFromShieldedTx P tx = .ok publicInputs) :
    ∃ n spent out, SpendShape P tx n spent out publicInputs := by
  obtain ⟨⟨n, hn⟩, ⟨spent, hsp⟩, out, hout⟩ := checkStructural_ok_iff.mp hs
  refine ⟨n, spent, out, ?_⟩
  unfold publicInputsFromShieldedTx at hp
  simp only [hn, hsp, hout, head?_cons] at hp
  cases hc : pointCoords P spent with
  | error e => rw [hc] at hp; cases hp
  | ok c =>
    obtain ⟨cx, cy⟩ := c
    rw [hc] at hp
    cases hr : fromRepr tx.merkleRoot with
    | none => rw [hr] at hp; cases hp
    | some root =>
      rw [hr] at hp
      simp only at hp
      cases ho : pointCoords P out with
      | error e => rw [ho] at hp; cases hp
      | ok oc =>
        obtain ⟨ox, oy⟩ := oc
        rw [ho] at hp
        injection hp with hp
        subst hp
        exact
          { nullifiers_eq := hn
            spentCommitments_eq := hsp
            commitments_eq := hout
            nullifier_eq := rfl
            commit_eq := pointCoords_ok_iff.mp hc
            merkleRoot_eq := toRepr_of_fromRepr hr
            output_eq := pointCoords_ok_iff.mp ho
            fee_eq := rfl }

theorem exists_snapshot_of_isRootFresh {merkleRoot : Fp}
    {deps : ShieldedValidationDeps} (h : isRootFresh merkleRoot deps = true) :
    ∃ s ∈ deps.roots, s.root = toRepr merkleRoot := by
  unfold isRootFresh at h
  split at h
  · cases h
  · split at h
    · next s hs =>
      refine ⟨s, mem_of_find?_eq_some hs, ?_⟩
      simpa using find?_some hs
    · cases h

end Pneumatic
