import Mathlib.Data.ZMod.Basic

/-!
# Plonkish constraint systems

A table of advice and instance columns, gates that are polynomials in its
cells, selectors that switch a gate on row by row, and copy constraints between
cells. An assignment satisfies the system when every gate polynomial vanishes
on every row and every copied pair of cells agrees.

A gate is nearly always a selector times a body. `vanishes_selector_iff` reads
such a gate for what it says: the body vanishes on the rows the selector is
enabled on. A gate scaled by zero says nothing at all.
-/

namespace Plonkish

variable {F A I S : Type*}

/-- A gate polynomial over advice columns `A`, instance columns `I` and
selectors `S`. A query names a column and a row relative to the current one. -/
inductive Expression (F A I S : Type*) where
  | constant (c : F)
  | selector (s : S)
  | advice (column : A) (rotation : Int)
  | input (column : I) (rotation : Int)
  | negated (e : Expression F A I S)
  | sum (a b : Expression F A I S)
  | product (a b : Expression F A I S)
  | scaled (e : Expression F A I S) (c : F)

inductive Cell (A I : Type*) where
  | advice (column : A) (row : Nat)
  | input (column : I) (row : Nat)

/-- The values of the advice and instance columns. -/
structure Assignment (F A I : Type*) where
  advice : A → Nat → F
  input : I → Nat → F

/-- What synthesis fixes: the rows, the rows each selector is enabled on, and
the copied cells. -/
structure Layout (A I S : Type*) where
  rows : Nat
  enabled : S → Nat → Bool
  copies : List (Cell A I × Cell A I)

/-- The row a rotated query reads; rows wrap around. -/
def rotate (rows row : Nat) (rotation : Int) : Nat :=
  ((row + rotation) % rows).toNat

def Assignment.cell (a : Assignment F A I) : Cell A I → F
  | .advice column row => a.advice column row
  | .input column row => a.input column row

section Semantics

variable [CommRing F]

def Expression.eval (layout : Layout A I S) (a : Assignment F A I) (row : Nat) :
    Expression F A I S → F
  | .constant c => c
  | .selector s => if layout.enabled s row then 1 else 0
  | .advice column rotation => a.advice column (rotate layout.rows row rotation)
  | .input column rotation => a.input column (rotate layout.rows row rotation)
  | .negated e => -e.eval layout a row
  | .sum x y => x.eval layout a row + y.eval layout a row
  | .product x y => x.eval layout a row * y.eval layout a row
  | .scaled e c => e.eval layout a row * c

/-- The expression is zero on every row. -/
def Vanishes (layout : Layout A I S) (a : Assignment F A I) (e : Expression F A I S) : Prop :=
  ∀ row < layout.rows, e.eval layout a row = 0

/-- An assignment satisfies the gates and the copy constraints. -/
structure Satisfies (gates : List (List (Expression F A I S)))
    (layout : Layout A I S) (a : Assignment F A I) : Prop where
  gates : ∀ gate ∈ gates, ∀ e ∈ gate, Vanishes layout a e
  copies : ∀ c ∈ layout.copies, a.cell c.1 = a.cell c.2

theorem rotate_cur {rows row : Nat} (h : row < rows) : rotate rows row 0 = row := by
  rw [rotate, Int.add_zero, ← Int.natCast_emod, Int.toNat_natCast, Nat.mod_eq_of_lt h]

theorem vanishes_selector_iff {layout : Layout A I S} {a : Assignment F A I}
    {s : S} {e : Expression F A I S} : Vanishes layout a (.product (.selector s) e) ↔
      ∀ row < layout.rows, layout.enabled s row = true → e.eval layout a row = 0 := by
  refine forall₂_congr fun row hrow => ?_
  simp only [Expression.eval]
  cases layout.enabled s row <;> simp

theorem vanishes_scaled_zero (layout : Layout A I S) (a : Assignment F A I)
    (e : Expression F A I S) : Vanishes layout a (.scaled e 0) := by
  intro row _
  simp [Expression.eval]

end Semantics

end Plonkish
