import Mathlib.Data.Nat.Basic
import Mathlib.Tactic.Ring

/-!
# Little-endian byte strings

The positional reading of a byte string, least significant byte first, and the
fixed-width writing that inverts it. A width is a number of bytes. Reading is
injective at a width, and writing inverts it below `256 ^ width`; those two
facts are all a wire format built on such strings ever needs.
-/

namespace LittleEndian

open List

/-- The number a byte string denotes, least significant byte first. -/
def leNat : List UInt8 → Nat
  | [] => 0
  | b :: bs => b.toNat + 256 * leNat bs

/-- The `width` low bytes of `n`, least significant byte first. -/
def leBytes : (width : Nat) → Nat → List UInt8
  | 0, _ => []
  | width + 1, n => UInt8.ofNat (n % 256) :: leBytes width (n / 256)

@[simp]
theorem leBytes_length (width n : Nat) : (leBytes width n).length = width := by
  induction width generalizing n with
  | zero => rfl
  | succ width ih => simp [leBytes, ih]

theorem leNat_leBytes {width n : Nat} (h : n < 256 ^ width) : leNat (leBytes width n) = n := by
  induction width generalizing n with
  | zero => simp only [Nat.pow_zero] at h; simp only [leBytes, leNat]; omega
  | succ width ih =>
    have hdiv : n / 256 < 256 ^ width := by
      omega
    have hb : (UInt8.ofNat (n % 256)).toNat = n % 256 := by
      simp
    simp only [leBytes, leNat, ih hdiv, hb]
    omega

/-- The number at a width is the residue below `256 ^ width`. -/
theorem leNat_leBytes_mod (width n : Nat) : leNat (leBytes width n) = n % 256 ^ width := by
  induction width generalizing n with
  | zero => rw [Nat.pow_zero, Nat.mod_one]; rfl
  | succ width ih =>
    have hb : (UInt8.ofNat (n % 256)).toNat = n % 256 := by
      simp
    rw [leBytes, leNat, ih, hb, Nat.pow_succ, Nat.mul_comm (256 ^ width) 256, Nat.mod_mul]

theorem leBytes_leNat (bs : List UInt8) : leBytes bs.length (leNat bs) = bs := by
  induction bs with
  | nil => rfl
  | cons b bs ih =>
    have hb : b.toNat < 256 := b.toNat_lt
    have hmod : (b.toNat + 256 * leNat bs) % 256 = b.toNat := by omega
    have hdiv : (b.toNat + 256 * leNat bs) / 256 = leNat bs := by omega
    simp only [length_cons, leBytes, leNat, hmod, hdiv, ih]
    simp

theorem leNat_inj {as bs : List UInt8} (hlen : as.length = bs.length)
    (h : leNat as = leNat bs) : as = bs := by
  rw [← leBytes_leNat as, ← leBytes_leNat bs, h, hlen]

theorem leNat_append_zeros (bs : List UInt8) (k : Nat) :
    leNat (bs ++ replicate k 0) = leNat bs := by
  induction bs with
  | nil =>
    induction k with
    | zero => rfl
    | succ k ih =>
      simp only [nil_append, replicate_succ, leNat] at ih ⊢
      simp [ih]
  | cons b bs ih => simp only [cons_append, leNat, ih]

end LittleEndian
