import Mathlib.Data.Finmap

/-!
# Entries of finite maps

What is found in a map after one entry was put there.
-/

namespace Finmap

variable {α β : Type*} [DecidableEq α] {m : Finmap (fun _ : α => β)} {key : α} {value : β}

theorem lookup_insert_cases {other : α} {value' : β}
    (h : (m.insert key value).lookup other = some value') :
    (key = other ∧ value = value') ∨ m.lookup other = some value' := by
  by_cases heq : other = key
  · rw [heq, lookup_insert] at h
    exact .inl ⟨heq.symm, Option.some.inj h⟩
  · rw [lookup_insert_of_ne _ heq] at h
    exact .inr h

theorem insert_eq_self_iff : m.insert key value = m ↔ m.lookup key = some value := by
  constructor
  · intro h
    rw [← h, lookup_insert]
  · intro h
    refine ext_lookup fun other => ?_
    by_cases heq : other = key
    · rw [heq, lookup_insert, h]
    · rw [lookup_insert_of_ne _ heq]

/-- A map that has one entry with a new one has no other. -/
theorem eq_empty_of_card_insert (hn : key ∉ m) (h : (m.insert key value).keys.card = 1) :
    m = ∅ := by
  obtain ⟨only, ho⟩ := Finset.card_eq_one.mp h
  have hmem : ∀ other ∈ m.insert key value, other = only := by
    intro other hother
    rwa [← mem_keys, ho, Finset.mem_singleton] at hother
  refine ext_lookup fun other => ?_
  rw [lookup_empty, lookup_eq_none]
  intro hother
  obtain rfl := hmem other (mem_insert.mpr (.inr hother))
  obtain rfl := hmem key (mem_insert.mpr (.inl rfl))
  exact hn hother

end Finmap
