import InfixArith.Error

/-!
# Cutting a text into lexemes

The blanks of a text are left out, wherever they stand, and places are counted in what is left.
-/

namespace InfixArith

namespace Lexeme

/-- The text in front of the next lexeme. -/
def gap (s : List Char) : List Char :=
  s.takeWhile fun c => !isStart c

/-- The lexemes of a text without blanks; or the first piece of it that is none. -/
def ofCompact (s : List Char) : Except Error (List Lexeme) :=
  if (split s).2 = [] then .ok (tile 0 (split s).1)
  else .error (.unexpected (Text.byteSize (split s).1.flatten) (String.ofList (gap (split s).2)))

end Lexeme

/-- The lexemes of a text. -/
def tokenize (text : String) : Except Error (List Lexeme) :=
  Lexeme.ofCompact (Text.compact text.toList)

end InfixArith
