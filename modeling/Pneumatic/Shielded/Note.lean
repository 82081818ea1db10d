import Pneumatic.Shielded.Validation
import Mathlib.Algebra.Module.Defs

/-!
# Notes

`note.rs`: a note, its Pedersen commitment and its nullifier. The curve is an
abstract group with a scalar action of the Pallas scalar field, four generators
and a coordinate map that is undefined at infinity; the hash is an abstract
Poseidon. The two scalars the source derives from bytes, the owner's key and
the note's randomness, are reduced the way the source reduces them.
-/

namespace Pneumatic

open LittleEndian

/-- The order of the Pallas scalar field. -/
def pallasScalarModulus : Nat :=
  0x40000000000000000000000000000000224698fc0994a8dd8c46eb2100000001

instance : NeZero pallasScalarModulus := ⟨by decide⟩

/-- `pasta_curves::pallas::Scalar`. -/
abbrev Fq := ZMod pallasScalarModulus

structure ShieldedNote where
  value : UInt64
  ownerPk : Bytes32
  rho : Fq
  rcm : Fq

/-- The commitment group: the four generators and the affine coordinates of an
element, absent at infinity. -/
structure PedersenGroup (G : Type) where
  gV : G
  gO : G
  gR : G
  gRho : G
  coords : G → Option (Fp × Fp)

def ownerPkToScalar (pk : Bytes32) : Fq :=
  (leNat (pk.bytes ++ List.replicate 32 0) : Fq)

/-- `Fq::to_repr`. -/
def scalarToRepr (x : Fq) : Bytes32 := Bytes32.ofNat x.val

def commit {G : Type} [AddCommGroup G] [Module Fq G] (K : PedersenGroup G)
    (note : ShieldedNote) : G :=
  (note.value.toNat : Fq) • K.gV + ownerPkToScalar note.ownerPk • K.gO +
    note.rcm • K.gR + note.rho • K.gRho

def nullifier (poseidonHash : List Fp → Fp) (note : ShieldedNote) (spendKey : Bytes32) : Bytes32 :=
  toRepr (poseidonHash [1, bytes32ToFp spendKey, bytes32ToFp (scalarToRepr note.rho)])

end Pneumatic
