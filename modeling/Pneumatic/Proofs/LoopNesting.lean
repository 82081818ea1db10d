import Pneumatic.Contracts.Scan

/-!
# How deep the scanner finds loops nested

`walk_function_body` counts up at a `loop` and down at every `end`, whatever it ends. Here
the count is compared with the stack of the constructs that are open. While no loop is open
the count is zero and an `end` does no harm. Inside of a loop the end of a block takes a
level away, and from there on the count is too small until the outermost loop has ended. So
the nesting is measured exactly if a loop of the deepest level is opened before that.
-/

namespace Pneumatic

/-- What an `end` can be for; a `block` here is also an `if`. -/
inductive Construct where
  | block
  | loop
deriving DecidableEq

/-- An operator of a body. An `else` is a plain one: it opens and ends nothing. -/
inductive WasmInstruction where
  | enter (construct : Construct)
  | leave
  | plain (op : WasmOperator) (h : op ≠ .loop ∧ op ≠ .endBlock)

def WasmInstruction.operator : WasmInstruction → WasmOperator
  | .enter .block => .other
  | .enter .loop => .loop
  | .leave => .endBlock
  | .plain op _ => op

/-- Where the walk is: the open constructs, innermost first, whether no block has ended
since the outermost open loop was opened, and how many loops have been open at once, at all
and while that was so. -/
structure Nesting where
  stack : List Construct
  clean : Bool
  deepest : Nat
  deepestClean : Nat

namespace Nesting

def depth (s : Nesting) : Nat := s.stack.count .loop

def step (s : Nesting) : WasmInstruction → Nesting
  | .enter .block => { s with stack := .block :: s.stack }
  | .enter .loop =>
    { s with
      stack := .loop :: s.stack
      deepest := max s.deepest (s.depth + 1)
      deepestClean := if s.clean then max s.deepestClean (s.depth + 1) else s.deepestClean }
  | .leave =>
    match s.stack with
    | [] => s
    | .block :: rest => { s with stack := rest, clean := s.clean && rest.count .loop == 0 }
    | .loop :: rest => { s with stack := rest, clean := s.clean || rest.count .loop == 0 }
  | .plain _ _ => s

/-- A body of any length; one that is well formed ends with the stack empty. -/
def ofBody (body : List WasmInstruction) : Nesting := body.foldl step ⟨[], true, 0, 0⟩

end Nesting

/-- What an operator does to the count and to the largest one so far. -/
def countStep (n m : Nat) : WasmOperator → Nat × Nat
  | .loop => (n + 1, max (n + 1) m)
  | .endBlock => (n - 1, m)
  | _ => (n, m)

theorem walkOperators_cons (op : WasmOperator) (rest : List WasmOperator) (n : Nat)
    (s : WasmWalkState) : ∃ s', WasmWalkState.walkOperators (op :: rest) n s =
        WasmWalkState.walkOperators rest (countStep n s.maxLoopNesting op).1 s' ∧
      s'.maxLoopNesting = (countStep n s.maxLoopNesting op).2 := by
  cases op <;> exact ⟨_, rfl, rfl⟩

/-- The count is that of the open loops or, after a block has ended in a loop, below it. -/
structure Counted (n m : Nat) (s : Nesting) : Prop where
  exact : s.clean = true → n = s.depth
  below : s.clean = false → n < s.depth
  clean_le : s.deepestClean ≤ m
  le_deepest : m ≤ s.deepest
  lt_deepest : s.deepestClean < s.deepest → m < s.deepest

namespace Counted

variable {n m : Nat} {s : Nesting}

theorem enterLoop (h : Counted n m s) :
    Counted (n + 1) (max (n + 1) m) (s.step (.enter .loop)) := by
  obtain ⟨stack, clean, deepest, deepestClean⟩ := s
  obtain ⟨he, hb, hc, hl, hlt⟩ := h
  cases clean with
  | true =>
    have hn := he rfl
    refine ⟨fun _ => (congrArg (· + 1) hn).trans List.count_cons_self.symm,
      fun h => (nomatch h), ?_, ?_, fun hlt' => ?_⟩ <;>
      simp only [Nesting.step, Nesting.depth, if_true] at * <;> omega
  | false =>
    have hn := hb rfl
    refine ⟨fun h => (nomatch h), fun _ => (Nat.succ_lt_succ hn).trans_eq
      List.count_cons_self.symm, ?_, ?_, fun hlt' => ?_⟩ <;>
      simp only [Nesting.step, Nesting.depth, Bool.false_eq_true, if_false] at * <;> omega

theorem leave (h : Counted n m s) : Counted (n - 1) m (s.step .leave) := by
  obtain ⟨stack, clean, deepest, deepestClean⟩ := s
  obtain ⟨he, hb, hc, hl, hlt⟩ := h
  cases stack with
  | nil =>
    refine ⟨fun hcl => ?_, fun hcl => ?_, hc, hl, hlt⟩
    · rw [he hcl]
      rfl
    · exact absurd (hb hcl) (Nat.not_lt_zero n)
  | cons construct rest =>
    cases construct with
    | block =>
      have hd : (Construct.block :: rest).count .loop = rest.count .loop := rfl
      refine ⟨fun hcl => ?_, fun hcl => ?_, hc, hl, hlt⟩ <;> cases clean <;>
        simp [Nesting.step, Nesting.depth] at * <;> omega
    | loop =>
      refine ⟨fun hcl => ?_, fun hcl => ?_, hc, hl, hlt⟩ <;> cases clean <;>
        simp [Nesting.step, Nesting.depth] at * <;> omega

theorem step (h : Counted n m s) (i : WasmInstruction) :
    Counted (countStep n m i.operator).1 (countStep n m i.operator).2 (s.step i) := by
  cases i with
  | enter construct =>
    cases construct with
    | block => exact ⟨h.exact, h.below, h.clean_le, h.le_deepest, h.lt_deepest⟩
    | loop => exact h.enterLoop
  | leave => exact h.leave
  | plain op hop =>
    have hs : countStep n m op = (n, m) := by
      cases op with
      | loop => exact absurd rfl hop.1
      | endBlock => exact absurd rfl hop.2
      | float | memoryGrow | other => rfl
    rw [WasmInstruction.operator, hs]
    exact h

theorem walk {walked : WasmWalkState} (h : Counted n walked.maxLoopNesting s)
    (body : List WasmInstruction) : ∃ n', Counted n'
      (WasmWalkState.walkOperators (body.map (·.operator)) n walked).maxLoopNesting
      (body.foldl Nesting.step s) := by
  induction body generalizing n s walked with
  | nil => exact ⟨n, h⟩
  | cons i body ih =>
    obtain ⟨walked', hw, hm⟩ := walkOperators_cons i.operator (body.map (·.operator)) n walked
    rw [List.map_cons, hw]
    exact ih (hm ▸ h.step i)

end Counted

/-- The nesting that the scanner finds in a module with one function. -/
def measuredNesting (body : List WasmInstruction) : Nat :=
  (WasmWalkState.start.walkPayload
    (.codeSectionEntry (some (body.map (·.operator))))).maxLoopNesting

theorem loop_nesting_exact_iff (body : List WasmInstruction) :
    measuredNesting body = (Nesting.ofBody body).deepest ↔
      (Nesting.ofBody body).deepestClean = (Nesting.ofBody body).deepest := by
  have hstart : Counted 0 0 ⟨[], true, 0, 0⟩ :=
    ⟨fun _ => rfl, fun h => (nomatch h), Nat.le_refl 0, Nat.le_refl 0, id⟩
  obtain ⟨n, hend⟩ : ∃ n, Counted n (measuredNesting body) (Nesting.ofBody body) :=
    @Counted.walk 0 _ { WasmWalkState.start with totalFunctions := 1 } hstart body
  have hc := hend.clean_le
  have hl := hend.le_deepest
  have hlt := hend.lt_deepest
  omega

/-- The first block in the outer loop ends before the inner loop is opened. -/
theorem loop_after_block_missed :
    let body := [.enter .loop, .enter .block, .leave, .enter .loop, .leave, .leave,
      WasmInstruction.leave]
    measuredNesting body = 1 ∧ (Nesting.ofBody body).deepest = 2 :=
  ⟨rfl, rfl⟩

end Pneumatic
