/-!
# Balance

A list is balanced when its opening and its closing parentheses match: no part at the start closes
more than it opens, and in all there are as many of the one kind as of the other.
-/

namespace InfixArith

/-- The parentheses of a list match. -/
structure Balanced {α : Type} (opens closes : α → Bool) (l : List α) : Prop where
  /-- What is closed was opened before. -/
  sound : ∀ p, p <+: l → p.countP closes ≤ p.countP opens
  /-- What is opened is closed in the end. -/
  settled : l.countP closes = l.countP opens

namespace Balanced

/-- A text whose round parentheses match. -/
abbrev Text (s : List Char) : Prop :=
  Balanced (· == '(') (· == ')') s

end Balanced

end InfixArith
