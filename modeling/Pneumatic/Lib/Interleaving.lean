import Mathlib.Logic.Function.Basic
import Pneumatic.Lib.Run

/-!
# Calls that interleave

Any number of calls work on one shared state. A call is a value that says where it is
and what it has in hand; one step of it takes the shared state and gives it back, with
the rest of the call or with none. Calls are numbered, and a machine's turn is the start
of a call or one step of one, in any order. What the surroundings answer comes with each
turn.

A turn moves one call and leaves the others where they are (`turn_rule`).
-/

namespace Interleaving

open List Function

variable {σ π ι α : Type*}

structure State (σ π : Type*) where
  shared : σ
  calls : Nat → Option π

inductive Turn (ι α : Type*) where
  | start (i : Nat) (input : ι)
  | advance (i : Nat) (answers : α)

def Turn.number : Turn ι α → Nat
  | .start i _ => i
  | .advance i _ => i

section Machine

variable (start : ι → σ → σ × Option π) (advance : α → π → σ → σ × Option π)

def State.moved (m : State σ π) (i : Nat) (r : σ × Option π) : State σ π :=
  ⟨r.1, Function.update m.calls i r.2⟩

/-- One turn. A number whose call is under way cannot start another, and one without a
call has no step to make. -/
def turn (m : State σ π) : Turn ι α → State σ π
  | .start i input =>
    match m.calls i with
    | some _ => m
    | none => m.moved i (start input m.shared)
  | .advance i answers =>
    match m.calls i with
    | none => m
    | some call => m.moved i (advance answers call m.shared)

/-- A call to its end, or for so many steps, with nothing in between. -/
def alone (answers : α) : Nat → σ × Option π → σ × Option π
  | 0, r => r
  | n + 1, r =>
    match r.2 with
    | none => r
    | some call => alone answers n (advance answers call r.1)

end Machine

variable {start : ι → σ → σ × Option π} {advance : α → π → σ → σ × Option π} {m : State σ π}

@[simp]
theorem State.moved_shared (i : Nat) (r : σ × Option π) : (m.moved i r).shared = r.1 := rfl

@[simp]
theorem State.moved_calls (i : Nat) (r : σ × Option π) : (m.moved i r).calls i = r.2 :=
  update_self _ _ _

theorem State.moved_calls_of_ne {i j : Nat} (h : j ≠ i) (r : σ × Option π) :
    (m.moved i r).calls j = m.calls j :=
  update_of_ne h _ _

/-- What a turn can do: nothing, the start of a call or a step of one. -/
theorem turn_rule {p : State σ π → Prop} {t : Turn ι α} (hs : p m)
    (hst : ∀ i input, t = .start i input → m.calls i = none → p (m.moved i (start input m.shared)))
    (ha : ∀ i a call, t = .advance i a → m.calls i = some call →
      p (m.moved i (advance a call m.shared))) : p (turn start advance m t) := by
  cases t with
  | start i input =>
    simp only [turn]
    split
    · exact hs
    · next hi => exact hst i input rfl hi
  | advance i a =>
    simp only [turn]
    split
    · exact hs
    · next call hc => exact ha i a call rfl hc

theorem turn_calls_of_ne {t : Turn ι α} {j : Nat} (h : j ≠ t.number) :
    (turn start advance m t).calls j = m.calls j := by
  refine turn_rule (p := fun m' => m'.calls j = m.calls j) rfl (fun i input ht _ => ?_)
    fun i a call ht _ => ?_
  · subst ht
    exact State.moved_calls_of_ne h _
  · subst ht
    exact State.moved_calls_of_ne h _

theorem run_calls_of_notMem {turns : List (Turn ι α)} {j : Nat} (h : j ∉ turns.map Turn.number) :
    (Run.run (turn start advance) m turns).calls j = m.calls j := by
  induction turns generalizing m with
  | nil => rfl
  | cons t turns ih =>
    rw [map_cons, mem_cons, not_or] at h
    exact (ih h.2).trans (turn_calls_of_ne h.1)

@[simp]
theorem alone_ended (answers : α) (n : Nat) (s : σ) :
    alone advance answers n (s, none) = (s, none) := by
  cases n <;> rfl

theorem alone_succ (answers : α) (n : Nat) (s : σ) (call : π) :
    alone advance answers (n + 1) (s, some call) =
      alone advance answers n (advance answers call s) := rfl

end Interleaving
