import Pneumatic.Lib.LittleEndian
import Mathlib.Data.ZMod.Basic

/-!
# Byte strings and the Pallas base field

The wire speaks bytes and the proof system speaks `Fp`, the Pallas base field.
Two translations run between them and they are not inverse to each other.
`toRepr` and `fromRepr` are the canonical encoding: thirty-two little-endian
bytes, refused at or above the modulus. `bytes32ToFp` is the wide reduction,
which accepts every string and takes the residue. The roots travel by the
first and the nullifiers by the second.
-/

namespace Pneumatic

open LittleEndian

abbrev Bytes := List UInt8

/-- `[u8; 32]`. -/
structure Bytes32 where
  bytes : List UInt8
  length_eq : bytes.length = 32
deriving DecidableEq

namespace Bytes32

@[ext]
theorem ext {a b : Bytes32} (h : a.bytes = b.bytes) : a = b := by
  cases a; cases b; cases h; rfl

/-- The number the thirty-two bytes denote, least significant first. -/
def toNat (b : Bytes32) : Nat := leNat b.bytes

def ofNat (n : Nat) : Bytes32 := ⟨leBytes 32 n, leBytes_length 32 n⟩

instance : Inhabited Bytes32 := ⟨ofNat 0⟩

theorem toNat_ofNat {n : Nat} (h : n < 256 ^ 32) : (ofNat n).toNat = n :=
  leNat_leBytes h

theorem toNat_inj {a b : Bytes32} (h : a.toNat = b.toNat) : a = b :=
  ext (leNat_inj (a.length_eq.trans b.length_eq.symm) h)

end Bytes32

/-- The order of the Pallas base field. -/
def pallasModulus : Nat :=
  0x40000000000000000000000000000000224698fc094cf91b992d30ed00000001

instance : NeZero pallasModulus := ⟨by decide⟩

theorem pallasModulus_lt : pallasModulus < 256 ^ 32 := by decide

/-- `pasta_curves::pallas::Base`. -/
abbrev Fp := ZMod pallasModulus

/-- `Fp::to_repr`, and so `root_to_bytes`: the canonical encoding. -/
def toRepr (x : Fp) : Bytes32 := Bytes32.ofNat x.val

/-- `Fp::from_repr`, and so `bytes_to_root`: refuses a value at or above the
modulus. -/
def fromRepr (b : Bytes32) : Option Fp :=
  if b.toNat < pallasModulus then some (b.toNat : Fp) else none

/-- `Fp::from_uniform_bytes`: reduction of a sixty-four byte number. -/
def fromUniformBytes (wide : Bytes) : Fp := (leNat wide : Fp)

/-- `bytes32_to_fp`: the thirty-two bytes fill the low half of the wide array,
the high half stays zero. -/
def bytes32ToFp (b : Bytes32) : Fp :=
  fromUniformBytes (b.bytes ++ List.replicate 32 0)

theorem toNat_toRepr (x : Fp) : (toRepr x).toNat = x.val :=
  Bytes32.toNat_ofNat (lt_trans (ZMod.val_lt x) pallasModulus_lt)

theorem toRepr_injective : Function.Injective toRepr := by
  intro x y h
  apply ZMod.val_injective
  rw [← toNat_toRepr x, ← toNat_toRepr y, h]

@[simp]
theorem fromRepr_toRepr (x : Fp) : fromRepr (toRepr x) = some x := by
  simp [fromRepr, toNat_toRepr, ZMod.val_lt]

theorem toRepr_of_fromRepr {b : Bytes32} {x : Fp} (h : fromRepr b = some x) : toRepr x = b := by
  unfold fromRepr at h
  split at h
  · next hlt =>
    cases h
    apply Bytes32.toNat_inj
    rw [toNat_toRepr, ZMod.val_natCast, Nat.mod_eq_of_lt hlt]
  · cases h

theorem bytes32ToFp_eq (b : Bytes32) : bytes32ToFp b = (b.toNat : Fp) := by
  simp only [bytes32ToFp, fromUniformBytes, leNat_append_zeros, Bytes32.toNat]

/-- A canonical nullifier: the byte string denotes a number below the modulus,
so that it is the encoding of the residue it reduces to. -/
def Canonical (b : Bytes32) : Prop := b.toNat < pallasModulus

instance (b : Bytes32) : Decidable (Canonical b) :=
  inferInstanceAs (Decidable (b.toNat < pallasModulus))

/-- Reduction tells two strings apart exactly when their numbers differ modulo
the field order. -/
theorem bytes32ToFp_eq_iff (a b : Bytes32) : bytes32ToFp a = bytes32ToFp b ↔
      a.toNat % pallasModulus = b.toNat % pallasModulus := by
  rw [bytes32ToFp_eq, bytes32ToFp_eq, ZMod.natCast_eq_natCast_iff']

theorem bytes32ToFp_inj {a b : Bytes32} (ha : Canonical a) (hb : Canonical b)
    (h : bytes32ToFp a = bytes32ToFp b) : a = b := by
  rw [bytes32ToFp_eq_iff, Nat.mod_eq_of_lt ha, Nat.mod_eq_of_lt hb] at h
  exact Bytes32.toNat_inj h

/-- The numbers a machine word counts. -/
def wordSize : Nat := 2 ^ 64

instance : NeZero wordSize := ⟨by decide⟩

/-- `usize`, with the wrapping addition of a release build. -/
abbrev Usize := Fin wordSize

def Usize.max : Usize := ⟨2 ^ 64 - 1, by decide⟩

/-- The successor wraps to zero at `usize::MAX` and nowhere else. -/
theorem Usize.add_one_eq_zero_iff (k : Usize) : (k + 1).val = 0 ↔ k = Usize.max := by
  have hk : k.val < 2 ^ 64 := k.isLt
  rw [Fin.val_add, Fin.ext_iff]
  show (k.val + 1) % 2 ^ 64 = 0 ↔ k.val = 2 ^ 64 - 1
  omega

end Pneumatic
