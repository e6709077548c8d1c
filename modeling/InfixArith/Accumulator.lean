import InfixArith.Number.Numeric

/-!
# Accumulators

A value is changed step by step, by one operation of its type at a time.  A step that fails
leaves it as it was (`accumulate_of_error`), so at the end it is what the last step that did not
fail has given (`accumulate_snd`).
-/

namespace InfixArith

/-- One operation on an accumulator. -/
inductive Step (α : Type) where
  /-- The accumulator is the left operand. -/
  | left (op : BinaryOp) (b : α)
  /-- The accumulator is the right operand. -/
  | right (op : BinaryOp) (b : α)
  /-- The accumulator is both operands. -/
  | both (op : BinaryOp)
  | negate

variable {α : Type} [Numeric α]

/-- The accumulator after a step. -/
def Step.run (a : α) : Step α → Except Fault α
  | .left op b => Numeric.combine op a b
  | .right op b => Numeric.combine op b a
  | .both op => Numeric.combine op a a
  | .negate => Numeric.negate a

/-- What each step gives, and the accumulator at the end. -/
def accumulate (a : α) : List (Step α) → List (Except Fault α) × α
  | [] => ([], a)
  | s :: ss =>
    let state := s.run a
    let (states, final) := accumulate (state.toOption.getD a) ss
    (state :: states, final)

variable {a b : α} {e : Fault} {s : Step α}

theorem accumulate_of_ok (h : s.run a = .ok b) (ss : List (Step α)) :
    accumulate a (s :: ss) = (.ok b :: (accumulate b ss).1, (accumulate b ss).2) := by
  rw [accumulate, h]
  rfl

/-- A step that fails leaves the accumulator as it was. -/
theorem accumulate_of_error (h : s.run a = .error e) (ss : List (Step α)) :
    accumulate a (s :: ss) = (.error e :: (accumulate a ss).1, (accumulate a ss).2) := by
  rw [accumulate, h]
  rfl

/-- **The accumulator at the end is the last value that a step has given**, and the first one if
all steps fail. -/
theorem accumulate_snd (a : α) (ss : List (Step α)) :
    (accumulate a ss).2 = ((accumulate a ss).1.filterMap Except.toOption).getLastD a := by
  induction ss generalizing a with
  | nil => rfl
  | cons s ss ih =>
    cases h : s.run a with
    | ok b =>
      have hvalue : (Except.ok b : Except Fault α).toOption = some b := rfl
      rw [accumulate_of_ok h, List.filterMap_cons_some hvalue, List.getLastD_cons]
      exact ih b
    | error e =>
      have hvalue : (Except.error e : Except Fault α).toOption = none := rfl
      rw [accumulate_of_error h, List.filterMap_cons_none hvalue]
      exact ih a

end InfixArith
