import Pneumatic.Contracts.Engine

/-!
# The size of a storage under a delta

What one entry of a delta does to the bytes a storage holds depends on what stands
under its key and on nothing else. So a delta changes two storages that agree on its
keys by the same number of bytes, and never adds more than what it writes.
-/

namespace Pneumatic

open Finmap List Finset

variable {storage storage' : ContractStorage}

variable {key : Bytes}

namespace ContractStorage

/-- The bytes under a key, its own included. -/
def weight (storage : ContractStorage) (key : Bytes) : Nat :=
  match storage.lookup key with
  | none => 0
  | some value => key.length + value.length

/-- The bytes under the other keys. -/
def restSize (storage : ContractStorage) (key : Bytes) : Nat :=
  ∑ other ∈ storage.keys.erase key, storage.weight other

theorem weight_of_mem (h : key ∈ storage.keys) :
    key.length + ((storage.lookup key).getD []).length = storage.weight key := by
  obtain ⟨value, hv⟩ := mem_iff.mp (Finmap.mem_keys.mp h)
  rw [weight, hv]
  rfl

theorem weight_of_notMem (h : key ∉ storage.keys) : storage.weight key = 0 := by
  have hn : storage.lookup key = none :=
    lookup_eq_none.mpr fun hmem => h (Finmap.mem_keys.mpr hmem)
  rw [weight, hn]

theorem size_eq (storage : ContractStorage) (key : Bytes) :
    storage.size = storage.weight key + storage.restSize key := by
  have hs : storage.size = ∑ other ∈ storage.keys, storage.weight other :=
    sum_congr rfl fun other ho => weight_of_mem ho
  rw [hs, restSize]
  by_cases hkey : key ∈ storage.keys
  · exact (add_sum_erase _ _ hkey).symm
  · rw [weight_of_notMem hkey, Nat.zero_add, erase_eq_of_notMem hkey]

theorem restSize_congr (h : ∀ other, other ≠ key → storage.lookup other = storage'.lookup other) :
    storage.restSize key = storage'.restSize key := by
  have hk : storage.keys.erase key = storage'.keys.erase key := by
    ext other
    rw [Finset.mem_erase, Finset.mem_erase]
    refine and_congr_right fun ho => ?_
    rw [Finmap.mem_keys, Finmap.mem_keys, mem_iff, mem_iff, h other ho]
  unfold restSize
  rw [hk]
  refine sum_congr rfl fun other ho => ?_
  rw [weight, weight, h other (ne_of_mem_erase ho)]

end ContractStorage

open ContractStorage

/-- What one entry of a delta does. -/
def writeEntry (storage : ContractStorage) (entry : Bytes × Option Bytes) : ContractStorage :=
  match entry.2 with
  | some value => storage.insert entry.1 value
  | none => storage.erase entry.1

def entryBytes (entry : Bytes × Option Bytes) : Nat :=
  match entry.2 with
  | some value => entry.1.length + value.length
  | none => 0

def deltaBytes (delta : List (Bytes × Option Bytes)) : Nat := (delta.map entryBytes).sum

theorem applyStorage_cons (storage : ContractStorage) (entry : Bytes × Option Bytes)
    (delta : List (Bytes × Option Bytes)) :
    applyStorage storage (entry :: delta) = applyStorage (writeEntry storage entry) delta :=
  rfl

theorem lookup_writeEntry_self (storage : ContractStorage) (entry : Bytes × Option Bytes) :
    (writeEntry storage entry).lookup entry.1 = entry.2 := by
  unfold writeEntry
  split
  · next value hv => rw [lookup_insert, hv]
  · next hv => rw [lookup_erase, hv]

theorem lookup_writeEntry_of_ne (entry : Bytes × Option Bytes)
    (h : key ≠ entry.1) : (writeEntry storage entry).lookup key = storage.lookup key := by
  unfold writeEntry
  split
  · exact lookup_insert_of_ne _ h
  · exact lookup_erase_ne h

theorem size_writeEntry (storage : ContractStorage) (entry : Bytes × Option Bytes) :
    (writeEntry storage entry).size + storage.weight entry.1 = storage.size + entryBytes entry := by
  have hw : (writeEntry storage entry).weight entry.1 = entryBytes entry := by
    rw [weight, lookup_writeEntry_self, entryBytes]
    cases entry.2 with
    | none => rfl
    | some value => rfl
  have hr : (writeEntry storage entry).restSize entry.1 = storage.restSize entry.1 :=
    restSize_congr fun other ho => lookup_writeEntry_of_ne entry ho
  rw [size_eq (writeEntry storage entry) entry.1, size_eq storage entry.1, hw, hr]
  omega

theorem size_applyStorage_le (delta : List (Bytes × Option Bytes)) (storage : ContractStorage) :
    size (applyStorage storage delta) ≤ storage.size + deltaBytes delta := by
  induction delta generalizing storage with
  | nil => exact le_rfl
  | cons entry delta ih =>
    have he := size_writeEntry storage entry
    have hr := ih (writeEntry storage entry)
    have hb : deltaBytes (entry :: delta) = entryBytes entry + deltaBytes delta :=
      sum_cons
    rw [applyStorage_cons]
    omega

theorem size_applyStorage_shift (delta : List (Bytes × Option Bytes))
    {storage storage' : ContractStorage}
    (h : ∀ entry ∈ delta, storage.lookup entry.1 = storage'.lookup entry.1) :
    size (applyStorage storage delta) + storage'.size =
      size (applyStorage storage' delta) + storage.size := by
  induction delta generalizing storage storage' with
  | nil => exact Nat.add_comm _ _
  | cons entry delta ih =>
    have he := size_writeEntry storage entry
    have he' := size_writeEntry storage' entry
    have hw : storage.weight entry.1 = storage'.weight entry.1 := by
      rw [weight, weight, h entry mem_cons_self]
    have ha : ∀ later ∈ delta, (writeEntry storage entry).lookup later.1 =
          (writeEntry storage' entry).lookup later.1 := by
      intro later hl
      by_cases hkey : later.1 = entry.1
      · rw [hkey, lookup_writeEntry_self, lookup_writeEntry_self]
      · rw [lookup_writeEntry_of_ne entry hkey, lookup_writeEntry_of_ne entry hkey]
        exact h later (mem_cons_of_mem _ hl)
    have hr := ih ha
    rw [applyStorage_cons, applyStorage_cons]
    omega

theorem StorageDelta.mem_orderedKeys {delta : StorageDelta} :
    key ∈ delta.orderedKeys ↔ key ∈ delta.keys := by
  rw [← mem_val]
  unfold StorageDelta.orderedKeys
  induction delta.keys.val using Quotient.inductionOn with
  | h keys => exact mem_insertionSort _

theorem StorageDelta.lookup_of_mem_entries {delta : StorageDelta}
    {entry : Bytes × Option Bytes} (h : entry ∈ delta.entriesInOrder) :
    delta.lookup entry.1 ≠ none := by
  obtain ⟨key, hkey, rfl⟩ := mem_map.mp h
  have hmem := Finmap.mem_keys.mp (StorageDelta.mem_orderedKeys.mp hkey)
  obtain ⟨value, hv⟩ := mem_iff.mp hmem
  rw [hv]
  exact Option.some_ne_none value

end Pneumatic
