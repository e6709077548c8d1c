import InfixArith.Error

/-!
# The value of tokens in postfix order

An operand is put on a stack of values; an operator replaces its operands there, the right one on
top, by its result.  One value must be left.  The ranks of operators play no part.
-/

namespace InfixArith

variable {α : Type} [Numeric α]

namespace Token

/-- The stack after a token. -/
def apply (stack : List α) : Token α → Except Error (List α)
  | .operand v => .ok (v :: stack)
  | .operator .negate _ =>
    match stack with
    | v :: below => ((Numeric.negate v).mapError Error.arithmetic).map (· :: below)
    | [] => .error (.malformed .negationAlone)
  | .operator (.binary op) _ =>
    match stack with
    | r :: l :: below => ((Numeric.combine op l r).mapError Error.arithmetic).map (· :: below)
    | _ => .error (.malformed .binaryAlone)
  | .operator .opening _ | .operator .closing _ => .error (.malformed .parenthesis)

/-- The stack after tokens, unless one of them cannot be applied. -/
def applyAll (stack : List α) : List (Token α) → Except Error (List α)
  | [] => .ok stack
  | t :: ts => do
    let stack ← apply stack t
    applyAll stack ts

/-- The values that tokens put on the stack, in order, up to the first token that cannot be
applied. -/
def trail (stack : List α) : List (Token α) → List α
  | [] => []
  | t :: ts =>
    match apply stack t with
    | .ok (v :: below) => v :: trail (v :: below) ts
    | .ok [] | .error _ => []

/-- The only value of a stack. -/
def single : List α → Except Error α
  | [] => .error (.malformed .noValue)
  | [v] => .ok v
  | _ :: _ :: _ => .error (.malformed .manyValues)

end Token

/-- The value of tokens in postfix order. -/
def evaluatePostfix (ts : List (Token α)) : Except Error α := do
  let stack ← Token.applyAll [] ts
  Token.single stack

end InfixArith
