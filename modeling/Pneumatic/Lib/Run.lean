import Mathlib.Data.List.Induction

/-!
# Guarded runs of a deterministic machine

A machine is a step function on states and inputs, a run is the state after a
list of inputs. Most of what is worth saying about a run holds only when its
inputs were acceptable in the states that met them, so a run carries a guard:
`Meets` says that every input of the run satisfied the guard in the state just
before it. A guard that always holds gives the unconditional runs back.

One induction serves every invariant: `run_invariant`. A statement about the
end of every run is a statement about every state a run passes through, since
each prefix of a guarded run is one.
-/

namespace Run

open List

variable {S A : Type*}

/-- The state a machine reaches on a list of inputs. -/
def run (step : S → A → S) (s : S) (inputs : List A) : S :=
  inputs.foldl step s

/-- Every input satisfied the guard in the state it met. -/
def Meets (step : S → A → S) (guard : S → A → Prop) : S → List A → Prop
  | _, [] => True
  | s, a :: inputs => guard s a ∧ Meets step guard (step s a) inputs

/-- A guarded run can be checked by running it. -/
instance decidableMeets (step : S → A → S) (guard : S → A → Prop)
    [∀ s a, Decidable (guard s a)] : ∀ s inputs, Decidable (Meets step guard s inputs)
  | _, [] => isTrue trivial
  | s, a :: inputs =>
    have : Decidable (Meets step guard (step s a) inputs) :=
      decidableMeets step guard (step s a) inputs
    inferInstanceAs (Decidable (guard s a ∧ Meets step guard (step s a) inputs))

variable {step : S → A → S} {guard : S → A → Prop} {Inv : S → Prop} {s : S} {inputs : List A}

/-- An invariant that every guarded step keeps holds at the end of every
guarded run. -/
theorem run_invariant (hst : ∀ s a, Inv s → guard s a → Inv (step s a)) (hs : Inv s)
    (hm : Meets step guard s inputs) : Inv (run step s inputs) := by
  induction inputs generalizing s with
  | nil => exact hs
  | cons a inputs ih => exact ih (hst s a hs hm.1) hm.2

variable {guard' : S → A → Prop}

/-- A guard that follows from another one where an invariant holds. -/
theorem Meets.of_invariant (hst : ∀ s a, Inv s → guard s a → Inv (step s a))
    (hg : ∀ s a, Inv s → guard s a → guard' s a) (hs : Inv s)
    (hm : Meets step guard s inputs) : Meets step guard' s inputs := by
  induction inputs generalizing s with
  | nil => trivial
  | cons a inputs ih =>
    exact ⟨hg s a hs hm.1, ih (hst s a hs hm.1) hm.2⟩

theorem run_invariant_of_step
    (hst : ∀ s a, Inv s → Inv (step s a)) (inputs : List A) (hs : Inv s) : Inv
    (run step s inputs) := by
  induction inputs generalizing s with
  | nil => exact hs
  | cons a inputs ih => exact ih (hst s a hs)

theorem run_append (step : S → A → S) (s : S) (inputs later : List A) :
    run step s (inputs ++ later) = run step (run step s inputs) later :=
  foldl_append

theorem meets_of_forall {guard : A → Prop} (h : ∀ a ∈ inputs, guard a) : Meets step
    (fun _ => guard) s inputs := by
  induction inputs generalizing s with
  | nil => trivial
  | cons a inputs ih =>
    exact ⟨h a mem_cons_self, ih fun b hb => h b (mem_cons_of_mem a hb)⟩

theorem Meets.imp (hg : ∀ s a, guard s a → guard' s a)
    (hm : Meets step guard s inputs) : Meets step guard' s inputs := by
  induction inputs generalizing s with
  | nil => trivial
  | cons a inputs ih => exact ⟨hg s a hm.1, ih hm.2⟩

theorem Meets.and (h : Meets step guard s inputs) (h' : Meets step guard' s inputs) :
    Meets step (fun s a => guard s a ∧ guard' s a) s inputs := by
  induction inputs generalizing s with
  | nil => trivial
  | cons a inputs ih => exact ⟨⟨h.1, h'.1⟩, ih h.2 h'.2⟩

theorem meets_append {later : List A} : Meets step guard s (inputs ++ later) ↔
      Meets step guard s inputs ∧ Meets step guard (run step s inputs) later := by
  induction inputs generalizing s with
  | nil => exact ⟨fun h => ⟨trivial, h⟩, And.right⟩
  | cons a inputs ih =>
    show guard s a ∧ Meets step guard (step s a) (inputs ++ later) ↔
      (guard s a ∧ Meets step guard (step s a) inputs) ∧
        Meets step guard (run step (step s a) inputs) later
    rw [ih, and_assoc]

/-- A guard is met when every input satisfied it where the run had come to. -/
theorem meets_iff_forall : Meets step guard s inputs ↔
      ∀ pre a post, inputs = pre ++ a :: post → guard (run step s pre) a := by
  induction inputs generalizing s with
  | nil =>
    refine ⟨fun _ pre a post h => ?_, fun _ => trivial⟩
    cases pre <;> cases h
  | cons b inputs ih =>
    constructor
    · rintro ⟨hb, hr⟩ pre a post h
      cases pre with
      | nil =>
        cases h
        exact hb
      | cons c pre =>
        obtain ⟨rfl, rfl⟩ := h
        exact ih.mp hr pre a post rfl
    · intro h
      refine ⟨h [] b inputs rfl, ih.mpr fun pre a post hs => ?_⟩
      exact h (b :: pre) a post (by rw [hs, cons_append])

/-- What holds at the end of a run and did not hold at its start came about at
some input and has held ever since. -/
theorem exists_last_entry {P : S → Prop} (hst : ¬ P s) (hend : P (run step s inputs)) :
    ∃ pre a post, inputs = pre ++ a :: post ∧ ¬ P (run step s pre) ∧
      ∀ r, r <+: post → P (run step s (pre ++ a :: r)) := by
  induction inputs using reverseRecOn with
  | nil => exact absurd hend hst
  | append_singleton inputs b ih =>
    by_cases hb : P (run step s inputs)
    · obtain ⟨pre, a, post, rfl, hpre, hs⟩ := ih hb
      refine ⟨pre, a, post ++ [b], by simp, hpre, fun r hr => ?_⟩
      rcases prefix_concat_iff.mp hr with rfl | hr
      · simpa using hend
      · exact hs r hr
    · refine ⟨inputs, b, [], rfl, hb, fun r hr => ?_⟩
      rw [prefix_nil.mp hr]
      exact hend

end Run
