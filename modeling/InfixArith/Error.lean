import InfixArith.Format

/-!
# Errors

Every way in which a calculation can fail, with its cause and its wording.
-/

namespace InfixArith

/-- Why a list of tokens is not the listing of an expression in postfix order. -/
inductive Malformed where
  | negationAlone
  | parenthesis
  | binaryAlone
  | noValue
  | manyValues
  deriving DecidableEq, Repr

/-- The wording of a cause. -/
def Malformed.message : Malformed → String
  | .negationAlone => "negation without an operand"
  | .parenthesis => "parenthesis in postfix sequence"
  | .binaryAlone => "binary operator without two operands"
  | .noValue => "no value left on the stack"
  | .manyValues => "more than one value left on the stack"

/-- Why a calculation fails. -/
inductive Error where
  /-- The text violates the format. -/
  | format (e : FormatError)
  /-- A literal is unreadable in the kind of the calculation. -/
  | unreadable (e : Unreadable)
  /-- The parentheses do not match. -/
  | unbalanced
  /-- The tokens list no expression. -/
  | malformed (cause : Malformed)
  /-- An operation fails. -/
  | arithmetic (fault : Fault)
  /-- A piece of the text is no lexeme. -/
  | unexpected (offset : Nat) (text : String)
  deriving DecidableEq, Repr

/-- The wording of an error. -/
def Error.message : Error → String
  | .format e => "malformed expression: " ++ e.report
  | .unreadable e => e.message
  | .unbalanced => "unbalanced parentheses"
  | .malformed cause => "malformed postfix expression: " ++ cause.message
  | .arithmetic fault => fault.message
  | .unexpected offset text =>
    "unexpected text at offset " ++ offset.repr ++ ": " ++ Text.quoted text

end InfixArith
