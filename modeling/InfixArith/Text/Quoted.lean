import InfixArith.Text.Visible

/-!
# Quoted text

A text between double quotes, as messages show it.  The quote, the backslash and four controls
have an escape of their own; a character that does not show is written by its code point, in
lower-case hexadecimal without leading zeros.  All else stands as it is, the apostrophe included.
-/

namespace InfixArith.Text

/-- A character by its code point. -/
def codePoint (c : Char) : List Char :=
  ['\\', 'u', '\x7b'] ++ Nat.toDigits 16 c.toNat ++ ['\x7d']

/-- A character as it stands between quotes. -/
def escape (c : Char) : List Char :=
  match c with
  | '"' => ['\\', '"']
  | '\\' => ['\\', '\\']
  | '\n' => ['\\', 'n']
  | '\r' => ['\\', 'r']
  | '\t' => ['\\', 't']
  | '\x00' => ['\\', '0']
  | c => if shows c then [c] else codePoint c

/-- A text between quotes. -/
def quoted (s : String) : String :=
  String.ofList ('"' :: s.toList.flatMap escape ++ ['"'])

end InfixArith.Text
