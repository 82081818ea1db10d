import Pneumatic.Proofs.PoolRepresentation

/-!
# What a shielded proof says about its transaction

A proof is checked against seven numbers computed from the transaction that carries it.
The id, the token and the ciphertexts are not among them, and the nullifier enters by its
residue, so of a transaction that was accepted with a proof these can be changed and the
proof be used again. Everything else is determined: the root and the fee come back from
the numbers, the commitments from the points they decode to.
-/

namespace Pneumatic

/-- What is assumed of the primitives: a proof verifies for one vector of inputs, and a
point has one compressed encoding. -/
structure ShieldedPrimitives.Binding (P : ShieldedPrimitives) : Prop where
  verify_unique : ∀ proof inputs inputs', P.verify proof inputs = true →
    P.verify proof inputs' = true → inputs = inputs'
  pointCoords_inj : ∀ bytes bytes' coords, P.pointCoords bytes = some coords →
    P.pointCoords bytes' = some coords → bytes = bytes'

/-- Two transactions are the same in everything a sender fills in beside the proof. -/
structure SameTransfer (stx stx' : ShieldedTransaction) : Prop where
  id : stx.id = stx'.id
  tokenId : stx.tokenId = stx'.tokenId
  spentCommitments : stx.spentCommitments = stx'.spentCommitments
  nullifiers : stx.nullifiers = stx'.nullifiers
  commitments : stx.commitments = stx'.commitments
  merkleRoot : stx.merkleRoot = stx'.merkleRoot
  noteCiphertexts : stx.noteCiphertexts = stx'.noteCiphertexts
  fee : stx.fee = stx'.fee

/-- What does not get into the public inputs: three fields, and of a nullifier how often
the modulus goes into it. -/
structure SameUnproven (stx stx' : ShieldedTransaction) : Prop where
  id : stx.id = stx'.id
  tokenId : stx.tokenId = stx'.tokenId
  noteCiphertexts : stx.noteCiphertexts = stx'.noteCiphertexts
  quotients : stx.nullifiers.map (fun nullifier => nullifier.toNat / pallasModulus) =
    stx'.nullifiers.map fun nullifier => nullifier.toNat / pallasModulus

variable {P : ShieldedPrimitives} {env : EnvironmentMetadata} {deps : ShieldedValidationDeps}
  {stx stx' : ShieldedTransaction}

theorem wordSize_lt_pallasModulus : wordSize < pallasModulus := by decide

theorem natCast_inj_of_lt {a b : Nat} (ha : a < wordSize) (hb : b < wordSize)
    (h : (a : Fp) = (b : Fp)) : a = b := by
  rw [ZMod.natCast_eq_natCast_iff', Nat.mod_eq_of_lt (ha.trans wordSize_lt_pallasModulus),
    Nat.mod_eq_of_lt (hb.trans wordSize_lt_pallasModulus)] at h
  exact h

theorem eq_of_quotient {a b : Bytes32} (hr : bytes32ToFp a = bytes32ToFp b)
    (hq : a.toNat / pallasModulus = b.toNat / pallasModulus) : a = b := by
  apply Bytes32.toNat_inj
  rw [← Nat.div_add_mod a.toNat pallasModulus, ← Nat.div_add_mod b.toNat pallasModulus,
    hq, (bytes32ToFp_eq_iff a b).mp hr]

/-- An accepted transaction has the shape of a spend, and its proof verifies. -/
theorem exists_spendShape_of_valid {result : TransactionValidationResult}
    (h : validateShielded P env deps stx = .ok result) :
    ∃ n spent o i, SpendShape P stx n spent o i ∧
      P.verify stx.proof i = true := by
  obtain ⟨hs, i, hi, -, -, -, hv, -⟩ := validateShielded_ok_iff.mp h
  obtain ⟨n, spent, o, hsh⟩ := spendShape_of_ok hs hi
  exact ⟨n, spent, o, i, hsh, hv⟩

/-- Two spends with the same inputs have the same root, commitments and fee, and their
nullifiers have the same residue. -/
theorem SpendShape.determined (hP : P.Binding) {nullifier spent output : Bytes32}
    {nullifier' spent' output' : Bytes32} {inputs : PublicInputs}
    (h : SpendShape P stx nullifier spent output inputs)
    (h' : SpendShape P stx' nullifier' spent' output' inputs)
    (hfee : stx.fee < wordSize) (hfee' : stx'.fee < wordSize) :
    bytes32ToFp nullifier = bytes32ToFp nullifier' ∧ stx.spentCommitments = stx'.spentCommitments ∧
      stx.commitments = stx'.commitments ∧ stx.merkleRoot = stx'.merkleRoot ∧
      stx.fee = stx'.fee := by
  refine ⟨h.nullifier_eq.symm.trans h'.nullifier_eq, ?_, ?_, ?_, ?_⟩
  · rw [h.spentCommitments_eq, h'.spentCommitments_eq,
      hP.pointCoords_inj spent spent' _ h.commit_eq h'.commit_eq]
  · rw [h.commitments_eq, h'.commitments_eq,
      hP.pointCoords_inj output output' _ h.output_eq h'.output_eq]
  · exact h.merkleRoot_eq.symm.trans h'.merkleRoot_eq
  · exact natCast_inj_of_lt hfee hfee' (h.fee_eq.symm.trans h'.fee_eq)

/-- Two accepted transactions with one proof are the same exactly when they agree in what
does not get into the public inputs. -/
theorem sameTransfer_iff (hP : P.Binding) (hproof : stx.proof = stx'.proof)
    {result result' : TransactionValidationResult}
    (hvalid : validateShielded P env deps stx = .ok result)
    (hvalid' : validateShielded P env deps stx' = .ok result')
    (hfee : stx.fee < wordSize) (hfee' : stx'.fee < wordSize) :
    SameTransfer stx stx' ↔ SameUnproven stx stx' := by
  constructor
  · intro h
    exact ⟨h.id, h.tokenId, h.noteCiphertexts, by rw [h.nullifiers]⟩
  · intro h
    obtain ⟨n, spent, o, i, hs, hv⟩ :=
      exists_spendShape_of_valid hvalid
    obtain ⟨n', spent', o', i', hs', hv'⟩ :=
      exists_spendShape_of_valid hvalid'
    rw [← hproof] at hv'
    obtain rfl := hP.verify_unique stx.proof i i' hv hv'
    obtain ⟨hr, hsp, ho, hrt, hf⟩ :=
      hs.determined hP hs' hfee hfee'
    have hqt : n.toNat / pallasModulus = n'.toNat / pallasModulus := by
      have hq := h.quotients
      rw [hs.nullifiers_eq, hs'.nullifiers_eq] at hq
      exact (List.cons.inj hq).1
    refine ⟨h.id, h.tokenId, hsp, ?_, ho, hrt, h.noteCiphertexts, hf⟩
    rw [hs.nullifiers_eq, hs'.nullifiers_eq, eq_of_quotient hr hqt]

namespace OneProof

/-- Primitives with one vector of inputs that has proofs, and points that are numbers
below the modulus. -/
def onlyInputs (inputs : PublicInputs) : ShieldedPrimitives where
  poseidonHash _ := 0
  pointCoords bytes :=
    if bytes.toNat < pallasModulus then some ((bytes.toNat : Fp), 1) else none
  verify _ given := given = inputs

theorem onlyInputs_binding (inputs : PublicInputs) : (onlyInputs inputs).Binding where
  verify_unique proof given given' h h' := by
    simp only [onlyInputs, decide_eq_true_eq] at h h'
    rw [h, h']
  pointCoords_inj bytes bytes' coords h h' := by
    simp only [onlyInputs, Option.ite_none_right_eq_some, Option.some.injEq] at h h'
    obtain ⟨hlt, rfl⟩ := h
    obtain ⟨hlt', heq⟩ := h'
    have hc := (Prod.mk.inj heq).1
    rw [ZMod.natCast_eq_natCast_iff', Nat.mod_eq_of_lt hlt, Nat.mod_eq_of_lt hlt'] at hc
    exact Bytes32.toNat_inj hc.symm

def provenInputs : PublicInputs where
  nullifier := 1
  commitX := Nat.cast 2
  commitY := 1
  merkleRoot := Nat.cast 3
  outputCommitX := 4
  outputCommitY := 1
  fee := 0

def provenTransfer : ShieldedTransaction where
  id := "a"
  action := "ShieldedTransfer"
  tokenId := [1]
  spentCommitments := [.ofNat 2]
  nullifiers := [.ofNat 1]
  commitments := [.ofNat 4]
  merkleRoot := .ofNat 3
  proof := [9]
  noteCiphertexts := [[5]]
  fee := 0

/-- The transfer with another id, token, ciphertext or nullifier. -/
def resubmissions : List ShieldedTransaction :=
  [{ provenTransfer with id := "b" }, { provenTransfer with tokenId := [2] },
    { provenTransfer with noteCiphertexts := [[6]] },
    { provenTransfer with nullifiers := [.ofNat (1 + pallasModulus)] }]

def rootView : ShieldedValidationDeps where
  spent := ∅
  roots := [⟨.ofNat 3, 0⟩]
  recencyWindow := 10

def verdict (stx : ShieldedTransaction) : Except PneumaticError TransactionValidationResult :=
  validateShielded (onlyInputs provenInputs) ShieldedPool.sampleEnv rootView stx

theorem verdict_provenTransfer : verdict provenTransfer = .ok (.valid [] shieldedNeutralRisk) := by
  decide +kernel

/-- The transfer is accepted, and so is each of the others with its proof. -/
theorem proof_taken_over : (onlyInputs provenInputs).Binding ∧
    verdict provenTransfer = .ok (.valid [] shieldedNeutralRisk) ∧
    ∀ stx ∈ resubmissions, verdict stx = .ok (.valid [] shieldedNeutralRisk) ∧
      stx.proof = provenTransfer.proof ∧ ¬ SameTransfer stx provenTransfer := by
  have ha : ∀ stx ∈ resubmissions, verdict stx = .ok (.valid [] shieldedNeutralRisk) ∧
      stx.proof = provenTransfer.proof ∧
      (stx.id, stx.tokenId, stx.noteCiphertexts, stx.nullifiers) ≠
        (provenTransfer.id, provenTransfer.tokenId, provenTransfer.noteCiphertexts,
          provenTransfer.nullifiers) := by
    decide +kernel
  refine ⟨onlyInputs_binding _, verdict_provenTransfer, fun stx hstx => ?_⟩
  obtain ⟨hv, hp, ho⟩ := ha stx hstx
  refine ⟨hv, hp, fun h => ho ?_⟩
  rw [h.id, h.tokenId, h.noteCiphertexts, h.nullifiers]

def relabelled : ShieldedTransaction := { provenTransfer with action := "" }

theorem relabelled_sameTransfer :
    provenTransfer ≠ relabelled ∧ SameTransfer provenTransfer relabelled := by
  have hc : verdict relabelled = .ok (.valid [] shieldedNeutralRisk) := by decide +kernel
  have hp : provenTransfer.proof = relabelled.proof := rfl
  exact ⟨by decide, (sameTransfer_iff (onlyInputs_binding provenInputs) hp
    verdict_provenTransfer hc (by decide) (by decide)).mpr ⟨rfl, rfl, rfl, rfl⟩⟩

end OneProof

end Pneumatic
