import InfixArith.Error

/-!
# Postfix order

Tokens are brought from the order in which an expression is written into the order in which it is
computed, by a stack of operators that wait for their right operand.  An operator first releases
those at the top that bind at least as tightly, so equal ranks group to the left.  A closing
parenthesis releases the operators down to its opening one, and removes it.

`readAll` gives what is released while tokens are read, and the stack after them; `flush` gives
what is released at the end.
-/

namespace InfixArith

/-- An operator on the stack, with the rank it came with. -/
structure Waiting where
  op : Operator
  rank : Rank
  deriving DecidableEq, Repr

namespace Waiting

variable {α : Type}

/-- The token it was. -/
def token (w : Waiting) : Token α :=
  .operator w.op w.rank

/-- Anything but an opening parenthesis. -/
def isInner (w : Waiting) : Bool :=
  w.op != .opening

/-- It binds at least as tightly as an operator of the given rank. -/
def yields (rank : Rank) (w : Waiting) : Bool :=
  decide (rank ≤ w.rank)

end Waiting

namespace Token

variable {α : Type}

/-- Reads one token: what it releases, and the stack after it.  A closing parenthesis needs an
opening one on the stack. -/
def read (stack : List Waiting) : Token α → Option (List (Token α) × List Waiting)
  | .operand v => some ([.operand v], stack)
  | .operator .opening rank => some ([], ⟨.opening, rank⟩ :: stack)
  | .operator .closing _ =>
    match stack.dropWhile Waiting.isInner with
    | [] => none
    | _ :: below => some ((stack.takeWhile Waiting.isInner).map Waiting.token, below)
  | .operator op rank =>
    some ((stack.takeWhile (Waiting.yields rank)).map Waiting.token,
      ⟨op, rank⟩ :: stack.dropWhile (Waiting.yields rank))

/-- Reads tokens in order: all they release, and the stack after them. -/
def readAll (stack : List Waiting) : List (Token α) → Option (List (Token α) × List Waiting)
  | [] => some ([], stack)
  | t :: ts => do
    let (out, stack) ← read stack t
    let (rest, stack) ← readAll stack ts
    return (out ++ rest, stack)

/-- What is left at the end, if no parenthesis is still open. -/
def flush (stack : List Waiting) : Option (List (Token α)) :=
  if stack.all Waiting.isInner then some (stack.map Waiting.token) else none

/-- The tokens in postfix order, if the parentheses match. -/
def reorder? (ts : List (Token α)) : Option (List (Token α)) := do
  let (out, stack) ← readAll [] ts
  let rest ← flush stack
  return out ++ rest

end Token

/-- The tokens in postfix order. -/
def toPostfix {α : Type} (ts : List (Token α)) : Except Error (List (Token α)) :=
  match Token.reorder? ts with
  | some out => .ok out
  | none => .error .unbalanced

end InfixArith
