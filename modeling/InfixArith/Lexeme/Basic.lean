import InfixArith.Text.Basic

/-!
# Lexemes

An expression is written with six symbols and with numerals: digits and, if digits follow it, a
point with those digits.  `split` cuts a text without blanks into lexemes, each as long as
possible, and stops where none can be read.
-/

namespace InfixArith

/-- A piece of a text without blanks, and the bytes at which it starts and stops. -/
structure Lexeme where
  text : String
  start : Nat
  stop : Nat
  deriving DecidableEq, Repr

namespace Lexeme

/-- The characters that are a lexeme each. -/
def isSymbol (c : Char) : Bool :=
  c == '(' || c == ')' || c == '+' || c == '-' || c == '*' || c == '/'

/-- The characters that a lexeme can start with. -/
def isStart (c : Char) : Bool :=
  isSymbol c || c.isDigit

/-- The numeral at the start of a text, as long as possible, and the text after it.  A point
without a digit after it is no part of a numeral. -/
def numeral? (s : List Char) : Option (List Char × List Char) :=
  if s.takeWhile Char.isDigit = [] then none
  else
    match s.dropWhile Char.isDigit with
    | '.' :: r =>
      if r.takeWhile Char.isDigit = [] then some (s.takeWhile Char.isDigit, '.' :: r)
      else some (s.takeWhile Char.isDigit ++ '.' :: r.takeWhile Char.isDigit,
        r.dropWhile Char.isDigit)
    | r => some (s.takeWhile Char.isDigit, r)

/-- The lexeme at the start of a text, and the text after it. -/
def munch? : List Char → Option (List Char × List Char)
  | [] => none
  | c :: s => if isSymbol c then some ([c], s) else numeral? (c :: s)

theorem append_of_numeral? {s t r : List Char} (h : numeral? s = some (t, r)) : s = t ++ r := by
  have key := List.takeWhile_append_dropWhile (p := Char.isDigit) (l := s)
  unfold numeral? at h
  split at h
  · cases h
  · split at h
    · next r' hr =>
      split at h
      · cases h; rw [← hr, key]
      · cases h
        rw [List.append_assoc, List.cons_append, List.takeWhile_append_dropWhile, ← hr, key]
    · cases h; exact key.symm

theorem ne_nil_of_numeral? {s t r : List Char} (h : numeral? s = some (t, r)) : t ≠ [] := by
  unfold numeral? at h
  split at h
  · cases h
  · split at h
    · split at h <;> cases h <;> simp_all
    · cases h; assumption

theorem append_of_munch? {s t r : List Char} (h : munch? s = some (t, r)) : s = t ++ r := by
  unfold munch? at h
  split at h
  · cases h
  · split at h
    · cases h; rfl
    · exact append_of_numeral? h

theorem ne_nil_of_munch? {s t r : List Char} (h : munch? s = some (t, r)) : t ≠ [] := by
  unfold munch? at h
  split at h
  · cases h
  · split at h
    · cases h; simp
    · exact ne_nil_of_numeral? h

theorem length_lt_of_munch? {s t r : List Char} (h : munch? s = some (t, r)) :
    r.length < s.length := by
  have := List.length_pos_iff.2 (ne_nil_of_munch? h)
  rw [append_of_munch? h, List.length_append]
  omega

/-- The lexemes at the start of a text, and the text after the last of them. -/
def split (s : List Char) : List (List Char) × List Char :=
  match _h : munch? s with
  | none => ([], s)
  | some (t, r) => (t :: (split r).1, (split r).2)
termination_by s.length
decreasing_by all_goals exact length_lt_of_munch? _h

theorem split_of_munch?_none {s : List Char} (h : munch? s = none) : split s = ([], s) := by
  rw [split]; split <;> simp_all

theorem split_of_munch?_some {s t r : List Char} (h : munch? s = some (t, r)) :
    split s = (t :: (split r).1, (split r).2) := by
  rw [split]; split <;> simp_all

/-- Texts side by side, each with its place, the first one at `start`. -/
def tile (start : Nat) : List (List Char) → List Lexeme
  | [] => []
  | t :: ts =>
    ⟨String.ofList t, start, start + Text.byteSize t⟩ :: tile (start + Text.byteSize t) ts

end Lexeme

end InfixArith
