import InfixArith.Lexeme.Tokenize

/-!
# The tokens of lexemes

A symbol is an operator and a numeral an operand.  A minus negates what follows it when nothing
stands before it, or an opening parenthesis does; elsewhere it subtracts.
-/

namespace InfixArith

variable {α : Type}

namespace Token

/-- Whether a minus after the given token negates. -/
def startsGroup : Option (Token α) → Bool
  | none => true
  | some t => t.isOpening

/-- The operator of a symbol that follows the given token. -/
def operator? (previous : Option (Token α)) : List Char → Option Operator
  | ['('] => some .opening
  | [')'] => some .closing
  | ['+'] => some (.binary .add)
  | ['*'] => some (.binary .multiply)
  | ['/'] => some (.binary .divide)
  | ['-'] => some (if startsGroup previous then .negate else .binary .subtract)
  | _ => none

variable [Numeric α]

/-- The token of a lexeme that follows the given token.  What starts with a digit is read as a
literal. -/
def classify (previous : Option (Token α)) (lexeme : Lexeme) : Except Error (Token α) :=
  match operator? previous lexeme.text.toList with
  | some op => .ok (ofOperator op)
  | none =>
    if lexeme.text.toList.head?.any Char.isDigit then
      ((Numeric.parse lexeme.text).mapError Error.unreadable).map operand
    else .error (.unexpected lexeme.start lexeme.text)

/-- The tokens of lexemes that follow the given token. -/
def classifyAfter (previous : Option (Token α)) : List Lexeme → Except Error (List (Token α))
  | [] => .ok []
  | l :: ls => do
    let t ← classify previous l
    let ts ← classifyAfter (some t) ls
    return t :: ts

end Token

/-- The tokens of lexemes. -/
def classifyAll [Numeric α] (lexemes : List Lexeme) : Except Error (List (Token α)) :=
  Token.classifyAfter none lexemes

end InfixArith
