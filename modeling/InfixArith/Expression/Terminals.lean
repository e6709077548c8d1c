import InfixArith.Error

/-!
# The tokens of terminals

The format knows which minus negates and which subtracts, so each of its terminals stands for one
token, whatever comes before it.
-/

namespace InfixArith

namespace Terminal

variable {α : Type} [Numeric α]

/-- The operator of a terminal, unless it is a number. -/
def operator? : Terminal → Option Operator
  | .number _ => none
  | .negation => some .negate
  | .opening => some .opening
  | .closing => some .closing
  | .binary op => some (.binary op)

/-- The token of a terminal, or why its literal is unreadable. -/
def token : Terminal → Except Unreadable (Token α)
  | .number s => (Numeric.parse (String.ofList s)).map Token.operand
  | .negation => .ok (.ofOperator .negate)
  | .opening => .ok (.ofOperator .opening)
  | .closing => .ok (.ofOperator .closing)
  | .binary op => .ok (.ofOperator (.binary op))

/-- The literals among terminals. -/
def literals (ts : List Terminal) : List String :=
  ts.filterMap fun
    | .number s => some (String.ofList s)
    | _ => none

end Terminal

end InfixArith
