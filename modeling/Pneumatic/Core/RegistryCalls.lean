import Mathlib.Logic.Function.Basic
import Pneumatic.Core.Transactions

/-!
# Registry calls one map operation at a time

The registries are concurrent maps, and one operation on one key of such a map is all that
is atomic. Here are `mark_many_atomic` and `register_shielded` step by step, so that calls
can be interleaved.
-/

namespace Pneumatic

open Function

namespace NullifierRegistry

/-- Where a call of `mark_many_atomic` is. -/
inductive MarkPhase where
  | checking (rest : List Bytes32)
  | inserting (rest inserted : List Bytes32)
  | undoing (rest : List Bytes32)
  | returned (ok : Bool)

/-- The calls, and the keys of the map, each with the call whose insert found it absent;
a key that was there before the calls has none. -/
structure MarkState where
  spent : Bytes32 → Option (Option Nat)
  phase : Nat → MarkPhase

/-- The next step of a call, with one operation of the map at most. -/
def markStep (batches : Nat → List Bytes32) (s : MarkState) (i : Nat) : MarkState :=
  let goto := update s.phase i
  match s.phase i with
  | .checking [] => ⟨s.spent, goto (.inserting (batches i) [])⟩
  | .checking (key :: rest) =>
    ⟨s.spent, goto (if (s.spent key).isSome then .returned false else .checking rest)⟩
  | .inserting [] _ => ⟨s.spent, goto (.returned true)⟩
  | .inserting (key :: rest) inserted =>
    if (s.spent key).isSome then ⟨s.spent, goto (.undoing inserted)⟩
    else ⟨update s.spent key (some (some i)), goto (.inserting rest (inserted ++ [key]))⟩
  | .undoing [] => ⟨s.spent, goto (.returned false)⟩
  | .undoing (key :: rest) => ⟨update s.spent key none, goto (.undoing rest)⟩
  | .returned _ => s

end NullifierRegistry

/-- Where a call of `register_shielded` is: it has yet to write, or to put back what it
found. -/
inductive RegisterPhase where
  | waiting
  | restoring (old : ShieldedTransaction)
  | returned (ok : Bool)

/-- The entry of one id, and the calls for it. -/
structure RegisterState where
  entry : Option ShieldedTransaction
  phase : Nat → RegisterPhase

def registerStep (payloads : Nat → ShieldedTransaction) (s : RegisterState) (i : Nat) :
    RegisterState :=
  match s.phase i, s.entry with
  | .waiting, none => ⟨some (payloads i), update s.phase i (.returned true)⟩
  | .waiting, some old => ⟨some (payloads i), update s.phase i (.restoring old)⟩
  | .restoring old, _ => ⟨some old, update s.phase i (.returned false)⟩
  | .returned _, _ => s

end Pneumatic
