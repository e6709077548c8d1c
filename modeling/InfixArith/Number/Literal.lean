import InfixArith.Number.Kind

/-!
# Literals that cannot be read

A literal may be refused by the kind it is to be read in.  The reason depends on the kind alone;
the message shows the literal as well (`Unreadable.message`).
-/

namespace InfixArith

/-- Why a text stands for no number of a kind. -/
inductive Reason where
  | emptyInteger
  | invalidDigit
  | tooLarge
  | tooSmall
  | emptyFloat
  | invalidFloat
  | outOfRange
  deriving DecidableEq, Repr

/-- The wording of a reason. -/
def Reason.message : Reason → String
  | .emptyInteger => "cannot parse integer from empty string"
  | .invalidDigit => "invalid digit found in string"
  | .tooLarge => "number too large to fit in target type"
  | .tooSmall => "number too small to fit in target type"
  | .emptyFloat => "cannot parse float from empty string"
  | .invalidFloat => "invalid float literal"
  | .outOfRange => "out of range"

/-- A literal, the kind that cannot read it, and why. -/
structure Unreadable where
  text : String
  kind : Kind
  reason : Reason
  deriving DecidableEq, Repr

/-- The wording of a refusal. -/
def Unreadable.message (u : Unreadable) : String :=
  "cannot read " ++ Text.quoted u.text ++ " as " ++ u.kind.name ++ ": " ++ u.reason.message

end InfixArith
