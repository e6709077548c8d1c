import InfixArith.Token.Basic

/-!
# Expression trees

A tree says what an expression means: `eval` computes it from the leaves up, left before right,
and stops at the first operation that fails.  `postorder` lists it as tokens, operands before
their operator.  The leaves of a tree may also be literals still to be read (`read`).
-/

namespace InfixArith

/-- An expression over values. -/
inductive Tree (α : Type) where
  | value (v : α)
  | negate (t : Tree α)
  | binary (op : BinaryOp) (l r : Tree α)
  deriving DecidableEq, Repr

namespace Tree

variable {α : Type}

/-- The value of a tree, or the fault met first. -/
def eval [Numeric α] : Tree α → Except Fault α
  | .value v => .ok v
  | .negate t => do
    let v ← eval t
    Numeric.negate v
  | .binary op l r => do
    let a ← eval l
    let b ← eval r
    Numeric.combine op a b

/-- The tokens of a tree, each operator after its operands and with its own rank. -/
def postorder : Tree α → List (Token α)
  | .value v => [.operand v]
  | .negate t => postorder t ++ [.ofOperator .negate]
  | .binary op l r => postorder l ++ postorder r ++ [.ofOperator (.binary op)]

/-- The tree with its literals read, or the leftmost one that is unreadable. -/
def read [Numeric α] : Tree (List Char) → Except Unreadable (Tree α)
  | .value s => (Numeric.parse (String.ofList s)).map .value
  | .negate t => (read t).map .negate
  | .binary op l r => do
    let l ← read l
    let r ← read r
    return .binary op l r

end Tree

end InfixArith
