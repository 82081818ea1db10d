import Pneumatic.Lib.Plonkish
import Pneumatic.Shielded.Note
import Pneumatic.Shielded.Tree

/-!
# The Action circuit

`circuit.rs`: the columns, the seven gates of `configure` and the two regions
of `synthesize`. The gates are written down as the polynomials they are, the
four that the source scales by zero included. No gate queries a fixed column
and no rotation is other than the current row, so fixed columns are left out.

`synthesize` lays out two regions. The first takes row zero, enables the seven
selectors there and assigns every witness cell. The second assigns one cell of
the nullifier column, which the simple floor planner puts on the next free row
of that column, and copies the public nullifier to it.

`ActionRelation` is the statement the module sets out to prove in the circuit:
the witness behind the seven public inputs.
-/

namespace Pneumatic

open Plonkish

def poseidonT : Nat := 5

/-- `POSEIDON_TOTAL_ROUNDS`: eight full and forty-six partial rounds. -/
def poseidonTotalRounds : Nat := 8 + 46

/-- The advice columns of `ActionCircuitConfig`. -/
inductive ActionAdvice where
  | noteValue
  | noteOwnerPk
  | noteRho
  | noteRcm
  | noteCommitX
  | noteCommitY
  | merkleSiblings (level : Fin defaultDepth)
  | merkleIndexBits (level : Fin defaultDepth)
  | spendKeyFp
  | rhoFp
  | computedNullifier
  | outputValue
  | outputOwnerPk
  | outputRho
  | outputRcm
  | outputCommitX
  | outputCommitY
  | poseidonState (round : Fin poseidonTotalRounds) (lane : Fin poseidonT)
  | sboxX2 (round : Fin poseidonTotalRounds)
  | sboxX4 (round : Fin poseidonTotalRounds)
  | mdsProducts (round : Fin poseidonTotalRounds) (idx : Fin (poseidonT * poseidonT))
deriving DecidableEq

inductive ActionInstance where
  | publicNullifier
  | publicCommitX
  | publicCommitY
  | publicMerkleRoot
  | publicOutputCommitX
  | publicOutputCommitY
  | publicFee
deriving DecidableEq

inductive ActionSelector where
  | poseidon
  | merkle
  | nullifier
  | pedersen
  | output
  | valueBalance
  | spendAuth
deriving DecidableEq

abbrev ActionExpression :=
  Expression Fp ActionAdvice ActionInstance ActionSelector

abbrev ActionAssignment := Assignment Fp ActionAdvice ActionInstance

/-- The last lane of the last round, where the path's root is kept. -/
def finalHash : ActionAdvice :=
  .poseidonState ⟨poseidonTotalRounds - 1, by decide⟩ ⟨poseidonT - 1, by decide⟩

/-- `ActionCircuit::configure`: the gates in order. -/
def configure : List (List ActionExpression) :=
  [ -- poseidon_sponge
   [.scaled (.selector .poseidon) 0],
   -- merkle_path
   [.product (.selector .merkle)
      (.sum (.advice finalHash 0) (.negated (.input .publicMerkleRoot 0)))],
   -- nullifier_derivation
   [.product (.selector .nullifier) (.sum (.advice .computedNullifier 0)
        (.negated (.input .publicNullifier 0)))],
   -- pedersen_commitment
   [.scaled (.selector .pedersen) 0],
   -- output_well_formed
   [.scaled (.selector .output) 0],
   -- value_balance
   [.product (.selector .valueBalance)
      (.sum (.sum (.advice .noteValue 0) (.negated (.advice .outputValue 0)))
        (.negated (.input .publicFee 0)))],
   -- spend_auth_binding
   [.scaled (.selector .spendAuth) 0]]

/-- What `synthesize` fixes at `K = 10`: every selector on row zero, and the
nullifier cell of the second region copied from the instance. -/
def actionLayout : Layout ActionAdvice ActionInstance ActionSelector where
  rows := 2 ^ 10
  enabled _ row := row = 0
  copies := [(.advice .computedNullifier 1, .input .publicNullifier 0)]

structure ActionCircuit where
  note : ShieldedNote
  spendKey : Bytes32
  merkleProof : MembershipProof
  merkleRoot : Fp
  outputNote : ShieldedNote
  fee : UInt64
  treeDepth : Nat

/-- The path loop of `synthesize` and `verify_merkle_path_off_circuit`, from
level `i` on. -/
def hashPath (poseidonHash : List Fp → Fp) (index i : Nat) (current : Fp)
    (siblings : List Fp) : Fp :=
  IncrementalMerkleTree.walkUp poseidonHash (index >>> ·) i current siblings

section Group

variable {G : Type} [AddCommGroup G] [Module Fq G] (K : PedersenGroup G)
  (poseidonHash : List Fp → Fp)

/-- `ActionCircuit::verify_merkle_path_off_circuit`, for a commitment with
coordinates. -/
def verifyMerklePathOffCircuit (circuit : ActionCircuit) : Bool :=
  match K.coords (commit K circuit.note) with
  | none => false
  | some (x, y) =>
    hashPath poseidonHash circuit.merkleProof.index 0 (poseidonHash [x, y])
      circuit.merkleProof.siblings = circuit.merkleRoot

/-- `ActionCircuit::public_inputs`; `none` is the panic at infinity. -/
def publicInputs (circuit : ActionCircuit) : Option PublicInputs :=
  match K.coords (commit K circuit.note), K.coords (commit K circuit.outputNote) with
  | some (x, y), some (ox, oy) =>
    some
      { nullifier :=
          bytes32ToFp (nullifier poseidonHash circuit.note circuit.spendKey)
        commitX := x
        commitY := y
        merkleRoot := circuit.merkleRoot
        outputCommitX := ox
        outputCommitY := oy
        fee := (circuit.fee.toNat : Fp) }
  | _, _ => none

/-- A scalar as a field element, zero where its encoding is not canonical. -/
def scalarAsFp (x : Fq) : Fp := (fromRepr (scalarToRepr x)).getD 0

/-- The witness cells `synthesize` assigns. -/
def assignAdvice (circuit : ActionCircuit) (inputs : PublicInputs) : ActionAdvice → Nat → Fp
  | column, 0 =>
    match column with
    | .noteValue => (circuit.note.value.toNat : Fp)
    | .noteOwnerPk => scalarAsFp (ownerPkToScalar circuit.note.ownerPk)
    | .noteRho => scalarAsFp circuit.note.rho
    | .noteRcm => scalarAsFp circuit.note.rcm
    | .noteCommitX => inputs.commitX
    | .noteCommitY => inputs.commitY
    | .merkleSiblings level => circuit.merkleProof.siblings.getD level 0
    | .merkleIndexBits level =>
      if (circuit.merkleProof.index >>> level.val) &&& 1 = 1 then 1 else 0
    | .spendKeyFp => bytes32ToFp circuit.spendKey
    | .rhoFp => scalarAsFp circuit.note.rho
    | .computedNullifier =>
      bytes32ToFp (nullifier poseidonHash circuit.note circuit.spendKey)
    | .outputValue => (circuit.outputNote.value.toNat : Fp)
    | .outputOwnerPk => scalarAsFp (ownerPkToScalar circuit.outputNote.ownerPk)
    | .outputRho => scalarAsFp circuit.outputNote.rho
    | .outputRcm => scalarAsFp circuit.outputNote.rcm
    | .outputCommitX => inputs.outputCommitX
    | .outputCommitY => inputs.outputCommitY
    | .poseidonState round lane =>
      if ActionAdvice.poseidonState round lane = finalHash then
        hashPath poseidonHash circuit.merkleProof.index 0
          (poseidonHash [inputs.commitX, inputs.commitY])
          circuit.merkleProof.siblings
      else 0
    | .sboxX2 _ => 0
    | .sboxX4 _ => 0
    | .mdsProducts _ _ => 0
  | .computedNullifier, 1 => inputs.nullifier
  | _, _ => 0

/-- `ActionCircuit::synthesize`: refuses a wrong depth or path length, and
otherwise gives the layout and the witness. -/
def synthesize (circuit : ActionCircuit) :
    Option (Layout ActionAdvice ActionInstance ActionSelector × (ActionAdvice → Nat → Fp)) :=
  if circuit.treeDepth ≠ defaultDepth then none
  else if circuit.merkleProof.siblings.length ≠ defaultDepth then none
  else
    (publicInputs K poseidonHash circuit).map fun inputs =>
      (actionLayout, assignAdvice poseidonHash circuit inputs)

/-- What the prover of an action knows. -/
structure ActionWitness where
  note : ShieldedNote
  spendKey : Bytes32
  index : Nat
  siblings : List Fp
  outputNote : ShieldedNote

/-- The statement behind the public inputs: the spent note opens the
commitment, its key is authorised and derives the nullifier, its leaf is in
the tree, the output note opens the output commitment, and the values balance
as integers. -/
structure ActionRelation (authorises : Bytes32 → Bytes32 → Prop)
    (w : ActionWitness) (inputs : PublicInputs) : Prop where
  authorised : authorises w.spendKey w.note.ownerPk
  nullifier_eq : inputs.nullifier = bytes32ToFp (nullifier poseidonHash w.note w.spendKey)
  commit_eq : K.coords (commit K w.note) = some (inputs.commitX, inputs.commitY)
  siblings_length : w.siblings.length = defaultDepth
  path_eq : hashPath poseidonHash w.index 0
    (poseidonHash [inputs.commitX, inputs.commitY]) w.siblings = inputs.merkleRoot
  output_eq : K.coords (commit K w.outputNote) = some (inputs.outputCommitX, inputs.outputCommitY)
  balance : w.note.value.toNat = w.outputNote.value.toNat + inputs.fee.val

end Group

/-- The public inputs an assignment exposes: the instance columns on row
zero. -/
def exposed (a : ActionAssignment) : PublicInputs where
  nullifier := a.input .publicNullifier 0
  commitX := a.input .publicCommitX 0
  commitY := a.input .publicCommitY 0
  merkleRoot := a.input .publicMerkleRoot 0
  outputCommitX := a.input .publicOutputCommitX 0
  outputCommitY := a.input .publicOutputCommitY 0
  fee := a.input .publicFee 0

/-- The instance columns that expose given public inputs. -/
def instanceOf (inputs : PublicInputs) : ActionInstance → Nat → Fp
  | .publicNullifier, 0 => inputs.nullifier
  | .publicCommitX, 0 => inputs.commitX
  | .publicCommitY, 0 => inputs.commitY
  | .publicMerkleRoot, 0 => inputs.merkleRoot
  | .publicOutputCommitX, 0 => inputs.outputCommitX
  | .publicOutputCommitY, 0 => inputs.outputCommitY
  | .publicFee, 0 => inputs.fee
  | _, _ => 0

end Pneumatic
