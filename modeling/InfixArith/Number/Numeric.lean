import InfixArith.Number.Literal

/-!
# Numeric types

What a calculation needs from the type of its values: a reader, the four binary operations, the
negation and a printer (`Numeric`).  An operation may fail, by dividing by zero or by leaving the
type's range (`Fault`).  A literal must stand for a finite value (`Numeric.parse`).
-/

namespace InfixArith

/-- The binary operations. -/
inductive BinaryOp where
  | add
  | subtract
  | multiply
  | divide
  deriving DecidableEq, Repr

/-- How an operation fails. -/
inductive Fault where
  | divisionByZero
  | overflow
  deriving DecidableEq, Repr

/-- The wording of a fault. -/
def Fault.message : Fault → String
  | .divisionByZero => "division by zero"
  | .overflow => "numeric overflow"

/-- The values of one kind of number. -/
class Numeric (α : Type) where
  /-- The kind the type stands for. -/
  kind : Kind
  /-- Reads a value, be it finite or not. -/
  read : List Char → Except Reason α
  /-- Whether a value may be written as a literal. -/
  isFinite : α → Bool
  /-- Applies a binary operation to its left and its right operand. -/
  combine : BinaryOp → α → α → Except Fault α
  /-- The value of opposite sign. -/
  negate : α → Except Fault α
  /-- The text of a value. -/
  render : α → String

namespace Numeric

variable {α : Type} [Numeric α]

/-- The finite value that a text stands for. -/
def readFinite (s : List Char) : Except Reason α := do
  let v ← read s
  if isFinite v then return v else throw .outOfRange

/-- The value of a literal. -/
def parse (text : String) : Except Unreadable α :=
  (readFinite text.toList).mapError fun reason => ⟨text, kind α, reason⟩

end Numeric

end InfixArith
