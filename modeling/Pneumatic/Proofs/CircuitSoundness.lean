import Pneumatic.Shielded.Circuit

/-!
# What the Action circuit enforces

`satisfies_iff` says it in four equations: the nullifier cell of both rows is
the public nullifier, the last Poseidon lane is the public root, and the three
value cells balance in the field. Nothing ties the note, the key, the path or
the output to any of them, and nothing bounds a value.

Two consequences. An honest prover is accepted (`honest_satisfies`). And every
vector of public inputs is accepted (`forged_satisfies`), so that for no hash,
no group and no notion of authority does acceptance imply the statement the
circuit is about: a fee of `2 ^ 64` balances in the field and never between two
`u64` values.
-/

namespace Pneumatic

open Plonkish List Option

theorem enabled_iff (s : ActionSelector) (row : Nat) :
    actionLayout.enabled s row = true ↔ row = 0 := by
  simp [actionLayout]

theorem rotate_zero : rotate actionLayout.rows 0 0 = 0 :=
  rotate_cur (by decide)

theorem vanishes_gate_iff {a : ActionAssignment} (s : ActionSelector) (e : ActionExpression) :
    Vanishes actionLayout a (.product (.selector s) e) ↔ e.eval actionLayout a 0 = 0 := by
  rw [vanishes_selector_iff]
  refine ⟨fun h => h 0 (by decide) ((enabled_iff s 0).mpr rfl), ?_⟩
  intro h row _ hon
  rw [(enabled_iff s row).mp hon]
  exact h

/-- The gates and copies of the Action circuit, as equations. -/
theorem satisfies_iff (a : ActionAssignment) : Satisfies configure actionLayout a ↔
      a.advice finalHash 0 = a.input .publicMerkleRoot 0 ∧
      a.advice .computedNullifier 0 = a.input .publicNullifier 0 ∧ a.advice .noteValue 0 =
        a.advice .outputValue 0 + a.input .publicFee 0 ∧
      a.advice .computedNullifier 1 = a.input .publicNullifier 0 := by
  have hm := vanishes_gate_iff (a := a) .merkle
    (.sum (.advice finalHash 0) (.negated (.input .publicMerkleRoot 0)))
  have hn := vanishes_gate_iff (a := a) .nullifier
    (.sum (.advice .computedNullifier 0) (.negated (.input .publicNullifier 0)))
  have hv := vanishes_gate_iff (a := a) .valueBalance
    (.sum (.sum (.advice .noteValue 0) (.negated (.advice .outputValue 0)))
      (.negated (.input .publicFee 0)))
  simp only [Expression.eval, rotate_zero, ← sub_eq_add_neg, sub_eq_zero] at hm hn hv
  rw [sub_eq_iff_eq_add'] at hv
  constructor
  · rintro ⟨hg, hcp⟩
    refine ⟨hm.mp ?_, hn.mp ?_, hv.mp ?_, ?_⟩
    · exact hg _ (by simp [configure]) _ (mem_singleton_self _)
    · exact hg _ (by simp [configure]) _ (mem_singleton_self _)
    · exact hg _ (by simp [configure]) _ (mem_singleton_self _)
    · exact hcp _ (mem_singleton_self _)
  · rintro ⟨h1, h2, h3, h4⟩
    refine ⟨?_, ?_⟩
    · intro gate hgt e he
      simp only [configure, mem_cons, not_mem_nil, or_false] at hgt
      rcases hgt with rfl | rfl | rfl | rfl | rfl | rfl | rfl
      all_goals
        rw [mem_singleton] at he
        subst he
      · exact vanishes_scaled_zero _ _ _
      · exact hm.mpr h1
      · exact hn.mpr h2
      · exact vanishes_scaled_zero _ _ _
      · exact vanishes_scaled_zero _ _ _
      · exact hv.mpr h3
      · exact vanishes_scaled_zero _ _ _
    · intro c hc
      obtain rfl := mem_singleton.mp hc
      exact h4

section Honest

variable {G : Type} [AddCommGroup G] [Module Fq G] (K : PedersenGroup G)
  (poseidonHash : List Fp → Fp)

theorem publicInputs_eq_some {circuit : ActionCircuit} {inputs : PublicInputs}
    (h : publicInputs K poseidonHash circuit = some inputs) :
    K.coords (commit K circuit.note) = some (inputs.commitX, inputs.commitY) ∧ inputs.nullifier =
      bytes32ToFp (nullifier poseidonHash circuit.note circuit.spendKey) ∧
    inputs.merkleRoot = circuit.merkleRoot ∧ inputs.fee = (circuit.fee.toNat : Fp) := by
  unfold publicInputs at h
  split at h
  · rename_i x y ox oy hn _
    obtain rfl := some.inj h
    exact ⟨hn, rfl, rfl, rfl⟩
  · exact absurd h nofun

/-- An honest prover is accepted: a circuit whose path checks off circuit and
whose values balance satisfies its own constraints. -/
theorem honest_satisfies {circuit : ActionCircuit} {inputs : PublicInputs}
    {layout : Layout ActionAdvice ActionInstance ActionSelector} {advice : ActionAdvice → Nat → Fp}
    (hi : publicInputs K poseidonHash circuit = some inputs)
    (hs : synthesize K poseidonHash circuit = some (layout, advice))
    (hp : verifyMerklePathOffCircuit K poseidonHash circuit = true)
    (hb : circuit.note.value.toNat = circuit.outputNote.value.toNat + circuit.fee.toNat) :
    Satisfies configure layout ⟨advice, instanceOf inputs⟩ := by
  obtain ⟨hc, hn, hr, hfee⟩ :=
    publicInputs_eq_some K poseidonHash hi
  unfold synthesize at hs
  split at hs
  · exact absurd hs nofun
  split at hs
  · exact absurd hs nofun
  rw [hi] at hs
  obtain ⟨rfl, rfl⟩ := Prod.mk.inj (some.inj hs)
  have hw : hashPath poseidonHash circuit.merkleProof.index 0
      (poseidonHash [inputs.commitX, inputs.commitY])
      circuit.merkleProof.siblings = circuit.merkleRoot := by
    simpa [verifyMerklePathOffCircuit, hc] using hp
  rw [satisfies_iff]
  refine ⟨?_, ?_, ?_, ?_⟩
  · simp only [assignAdvice, finalHash, instanceOf, if_true, hw, hr]
  · simp only [assignAdvice, instanceOf, hn]
  · simp only [assignAdvice, instanceOf, hfee, hb, Nat.cast_add]
  · simp only [assignAdvice, instanceOf]

end Honest

/-- The assignment that gets any public inputs accepted: it copies the root
and the nullifier into their cells and puts the fee in the input value's. -/
def forged (inputs : PublicInputs) : ActionAssignment where
  input := instanceOf inputs
  advice
    | .noteValue, _ => inputs.fee
    | .computedNullifier, _ => inputs.nullifier
    | .poseidonState _ _, _ => inputs.merkleRoot
    | _, _ => 0

theorem forged_satisfies (inputs : PublicInputs) :
    Satisfies configure actionLayout (forged inputs) := by
  rw [satisfies_iff]
  refine ⟨rfl, rfl, ?_, rfl⟩
  show inputs.fee = 0 + inputs.fee
  rw [zero_add]

/-- The soundness the module documentation states, at a hash, a group and a
notion of which keys may spend. -/
def CircuitSound {G : Type} [AddCommGroup G] [Module Fq G]
    (K : PedersenGroup G) (poseidonHash : List Fp → Fp)
    (authorises : Bytes32 → Bytes32 → Prop) : Prop :=
  ∀ a : ActionAssignment, Satisfies configure actionLayout a →
    ∃ w, ActionRelation K poseidonHash authorises w (exposed a)

def oversizedFee (inputs : PublicInputs) : PublicInputs :=
  { inputs with fee := ((2 ^ 64 : Nat) : Fp) }

theorem val_oversizedFee (inputs : PublicInputs) : (oversizedFee inputs).fee.val = 2 ^ 64 :=
  ZMod.val_natCast_of_lt (by decide)

/-- Every vector of public inputs is exposed by an assignment the constraints
accept, and so the circuit is sound for no hash, group or authority. -/
theorem accepts_every_input {G : Type} [AddCommGroup G] [Module Fq G]
    (K : PedersenGroup G) (poseidonHash : List Fp → Fp) (authorises : Bytes32 → Bytes32 → Prop) :
    (∀ inputs, ∃ a : ActionAssignment, Satisfies configure actionLayout a ∧ exposed a = inputs) ∧
    ¬ CircuitSound K poseidonHash authorises := by
  refine ⟨fun inputs => ⟨forged inputs, forged_satisfies inputs, rfl⟩, ?_⟩
  intro hs
  let inputs : PublicInputs := oversizedFee ⟨0, 0, 0, 0, 0, 0, 0⟩
  obtain ⟨w, hw⟩ := hs (forged inputs) (forged_satisfies inputs)
  have hb : _ = _ + (oversizedFee _).fee.val := hw.balance
  rw [val_oversizedFee] at hb
  have hv := w.note.value.toNat_lt
  omega

/-- A toy commitment group: the scalars themselves, with every element on the
line `y = 0`. -/
def lineGroup : PedersenGroup Fq where
  gV := 1
  gO := 1
  gR := 1
  gRho := 1
  coords g := some ((g.val : Fp), 0)

/-- A note of one that is spent whole, into another one. -/
def wholeSpend : ActionCircuit :=
  ⟨⟨1, default, 0, 0⟩, default, ⟨0, replicate 32 0⟩, 0, ⟨1, default, 0, 0⟩, 0, 32⟩

theorem wholeSpend_accepted : ∃ inputs layout advice,
    synthesize lineGroup (fun _ => 0) wholeSpend = some (layout, advice) ∧
      Satisfies configure layout ⟨advice, instanceOf inputs⟩ :=
  ⟨_, _, _, rfl, honest_satisfies lineGroup _ (rfl : publicInputs _ _ wholeSpend = _) rfl
    (by decide +kernel) rfl⟩

/-- A fee of zero and a commitment off the line: no note opens it. -/
def offLineInputs : PublicInputs := ⟨0, 0, 1, 0, 0, 0, 0⟩

/-- The constraints accept a spend of a commitment that no note opens. -/
theorem unopened_commitment_accepted : Satisfies configure actionLayout (forged offLineInputs) ∧
    ¬ ∃ w, ActionRelation lineGroup (fun _ => 0) (fun _ _ => True) w
      (exposed (forged offLineInputs)) := by
  refine ⟨forged_satisfies offLineInputs, ?_⟩
  rintro ⟨w, hw⟩
  have hy : (0 : Fp) = 1 := congrArg Prod.snd (some.inj hw.commit_eq)
  exact absurd hy (by decide)

end Pneumatic
