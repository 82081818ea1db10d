import Pneumatic.Core.Errors
import Mathlib.Data.Finset.Union

/-!
# The root history and the spent nullifiers

`roots.rs` and `nullifiers.rs`: the two registries shielded validation reads.
The root history keeps the newest `window + 1` roots under heights that never
repeat. The addition is the machine's: a window of `usize::MAX` wraps to a
retention of none, and a history that retained nothing has no tip. The source
reads the tip with an `expect`, so `currentRoot` answers `none` there.

The nullifier registry is a set of raw byte strings. Marking a batch checks all
of it, then inserts one by one and takes its own inserts back if the batch
repeats a member.
-/

namespace Pneumatic

open List

structure RootSnapshot where
  root : Bytes32
  height : Nat
deriving DecidableEq

structure MerkleRootState where
  window : Usize
  nextHeight : Nat
  roots : List RootSnapshot
deriving DecidableEq

namespace MerkleRootState

def new (recencyWindow : Usize) : MerkleRootState where
  window := recencyWindow
  nextHeight := 1
  roots := [{ root := toRepr 0, height := 0 }]

/-- How many roots `push` retains: `self.window + 1` on `usize`. -/
def keep (recencyWindow : Usize) : Nat := (recencyWindow + 1).val

/-- `MerkleRootState::push`, for its effect on the state. -/
def push (state : MerkleRootState) (root : Bytes32) : MerkleRootState :=
  let roots := state.roots ++ [{ root := root, height := state.nextHeight }]
  { state with
    nextHeight := state.nextHeight + 1
    roots :=
      if roots.length > keep state.window then
        roots.drop (roots.length - keep state.window)
      else roots }

/-- `MerkleRootState::current_root`; `none` is the panic of its `expect`. -/
def currentRoot (state : MerkleRootState) : Option Bytes32 :=
  state.roots.getLast?.map RootSnapshot.root

theorem keep_eq_zero_iff (recencyWindow : Usize) :
    keep recencyWindow = 0 ↔ recencyWindow = Usize.max :=
  Usize.add_one_eq_zero_iff recencyWindow

section

variable (root : Bytes32)

include root

@[simp]
theorem push_window (state : MerkleRootState) : (state.push root).window = state.window := rfl

@[simp]
theorem push_nextHeight (state : MerkleRootState) :
    (state.push root).nextHeight = state.nextHeight + 1 := rfl

theorem push_roots (state : MerkleRootState) : (state.push root).roots =
      (state.roots ++ [RootSnapshot.mk root state.nextHeight]).drop
        (state.roots.length + 1 - keep state.window) := by
  simp only [push, length_append, length_singleton]
  split
  · rfl
  · next hle => rw [Nat.sub_eq_zero_of_le (by omega), drop_zero]

theorem currentRoot_push {state : MerkleRootState}
    (hk : keep state.window ≠ 0) : (state.push root).currentRoot = some root := by
  rw [currentRoot, push_roots, getLast?_drop, if_neg]
  · simp
  · rw [length_append, length_singleton]
    omega

theorem push_roots_of_keep_eq_zero {state : MerkleRootState}
    (hk : keep state.window = 0) : (state.push root).roots = [] := by
  rw [push_roots, hk]
  simp

end

end MerkleRootState

namespace NullifierRegistry

/-- Phase 2 of `mark_many_atomic`: insert in order, tracking this call's own
inserts; a member that is already there takes them back. -/
def insertAll (inserted : List Bytes32) : Finset Bytes32 → List Bytes32 →
      Finset Bytes32 × Except PneumaticError Unit
  | spent, [] => (spent, .ok ())
  | spent, nullifier :: rest =>
    if nullifier ∈ spent then
      (spent \ inserted.toFinset, .error (.validation [.staleNullifier]))
    else insertAll (inserted ++ [nullifier]) (insert nullifier spent) rest

def markManyAtomic (spent : Finset Bytes32) (nullifiers : List Bytes32) :
    Finset Bytes32 × Except PneumaticError Unit :=
  if nullifiers.any (fun nullifier => nullifier ∈ spent) then
    (spent, .error (.validation [.staleNullifier]))
  else insertAll [] spent nullifiers

def unmarkMany (spent : Finset Bytes32) (nullifiers : List Bytes32) : Finset Bytes32 :=
  spent \ nullifiers.toFinset

variable {inserted nullifiers : List Bytes32} {spent spent' : Finset Bytes32}

/-- Phase 2 succeeds exactly on a batch without repeats that is new to the set,
and inserts it. -/
theorem insertAll_ok (hn : nullifiers.Nodup) (hnew : ∀ n ∈ nullifiers, n ∉ spent) :
    insertAll inserted spent nullifiers = (spent ∪ nullifiers.toFinset, .ok ()) := by
  induction nullifiers generalizing inserted spent with
  | nil => simp [insertAll]
  | cons n rest ih =>
    rw [nodup_cons] at hn
    have hf : ∀ m ∈ rest, m ∉ insert n spent := by
      intro m hm
      rw [Finset.mem_insert, not_or]
      exact ⟨fun h => hn.1 (h ▸ hm), hnew m (mem_cons_of_mem n hm)⟩
    rw [insertAll, if_neg (hnew n (mem_cons_self ..)), ih hn.2 hf]
    simp [Finset.insert_union, Finset.union_insert]

theorem nodup_of_insertAll (h : insertAll inserted spent nullifiers = (spent', .ok ())) :
    nullifiers.Nodup ∧ ∀ n ∈ nullifiers, n ∉ spent := by
  induction nullifiers generalizing inserted spent with
  | nil => exact ⟨nodup_nil, fun n hn => absurd hn not_mem_nil⟩
  | cons n rest ih =>
    rw [insertAll] at h
    split at h
    · cases h
    · next hn =>
      obtain ⟨hnd, hnew⟩ := ih h
      constructor
      · refine nodup_cons.mpr ⟨fun hmem => ?_, hnd⟩
        exact hnew n hmem (Finset.mem_insert_self n spent)
      · intro m hm
        rcases mem_cons.mp hm with rfl | hm
        · exact hn
        · exact fun hs =>
            hnew m hm (Finset.mem_insert_of_mem hs)

theorem markManyAtomic_ok_iff : markManyAtomic spent nullifiers = (spent', .ok ()) ↔
      nullifiers.Nodup ∧ (∀ n ∈ nullifiers, n ∉ spent) ∧ spent' = spent ∪ nullifiers.toFinset := by
  constructor
  · intro h
    rw [markManyAtomic] at h
    split at h
    · cases h
    · obtain ⟨hn, hnew⟩ := nodup_of_insertAll h
      rw [insertAll_ok hn hnew] at h
      exact ⟨hn, hnew, (Prod.mk.inj h).1.symm⟩
  · rintro ⟨hn, hnew, rfl⟩
    have hany : ¬ nullifiers.any (fun nl => nl ∈ spent) = true := by
      simpa using hnew
    rw [markManyAtomic, if_neg hany, insertAll_ok hn hnew]

end NullifierRegistry

end Pneumatic
