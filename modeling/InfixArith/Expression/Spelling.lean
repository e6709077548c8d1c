import InfixArith.Lexeme.Basic

/-!
# Spellings

What counts as a numeral (`IsNumeral`) and as a lexeme (`IsLexeme`), said of the characters alone
and not through the reader; and the texts in which given words stand in order with blanks before,
between and after them (`Spaced`).
-/

namespace InfixArith

/-- Decimal digits, one at least. -/
def IsDigits (s : List Char) : Prop :=
  s ≠ [] ∧ ∀ c ∈ s, c.isDigit = true

/-- Digits, or digits with a point between them. -/
inductive IsNumeral : List Char → Prop where
  | whole {s : List Char} (h : IsDigits s) : IsNumeral s
  | fraction {s t : List Char} (hs : IsDigits s) (ht : IsDigits t) : IsNumeral (s ++ '.' :: t)

/-- A symbol or a numeral. -/
inductive IsLexeme : List Char → Prop where
  | symbol {c : Char} (h : Lexeme.isSymbol c = true) : IsLexeme [c]
  | numeral {s : List Char} (h : IsNumeral s) : IsLexeme s

/-- Spaces and tabs only. -/
def IsBlanks (s : List Char) : Prop :=
  ∀ c ∈ s, Text.isBlank c = true

/-- `s` holds the words `ts` in order, and blanks around them. -/
inductive Spaced : List (List Char) → List Char → Prop where
  | blanks {s : List Char} (h : IsBlanks s) : Spaced [] s
  | word {b t s : List Char} {ts : List (List Char)} (h : IsBlanks b) (hs : Spaced ts s) :
      Spaced (t :: ts) (b ++ t ++ s)

end InfixArith
