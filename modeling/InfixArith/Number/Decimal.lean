import InfixArith.Number.Integer

/-!
# Decimal numbers

A number `digits · 10^exponent`, from zero on.  It is read from a text that may have a point and
an exponent (`ofChars?`), and written in positional notation, without one (`positional`).
-/

namespace InfixArith

/-- The number `digits · 10^exponent`. -/
structure Decimal where
  digits : Nat
  exponent : Int
  deriving DecidableEq, Repr

namespace Decimal

/-- The same number, as a numerator and a denominator. -/
def ratio (d : Decimal) : Nat × Nat :=
  (d.digits * Nat.pow 10 d.exponent.toNat, Nat.pow 10 (-d.exponent).toNat)

/-- The number of digits of a natural number; zero has one. -/
def length (n : Nat) : Nat :=
  (Nat.toDigits 10 n).length

/-- The number lies below `10^top`, and from `10^(top-1)` on unless it is zero. -/
def top (d : Decimal) : Int :=
  length d.digits + d.exponent

/-! ### Reading -/

/-- An exponent: nothing, or the letter, a sign if need be, and digits. -/
def exponent? : List Char → Option Int
  | [] => some 0
  | c :: s =>
    if c == 'e' || c == 'E' then
      match s with
      | '-' :: s => (magnitude? s).map fun n => -(n : Int)
      | '+' :: s => (magnitude? s).map Int.ofNat
      | s => (magnitude? s).map Int.ofNat
    else none
where
  magnitude? (s : List Char) : Option Nat :=
    if s ≠ [] ∧ s.all Char.isDigit then some (Integer.ofDigits s) else none

/-- A digit must stand before the point or after it. -/
def ofParts? (whole fraction rest : List Char) : Option Decimal :=
  if whole = [] ∧ fraction = [] then none
  else (exponent? rest).map fun e =>
    ⟨Integer.ofDigits (whole ++ fraction), e - fraction.length⟩

/-- The number that a text stands for. -/
def ofChars? (s : List Char) : Option Decimal :=
  match s.dropWhile Char.isDigit with
  | '.' :: r => ofParts? (s.takeWhile Char.isDigit) (r.takeWhile Char.isDigit)
      (r.dropWhile Char.isDigit)
  | rest => ofParts? (s.takeWhile Char.isDigit) [] rest

/-! ### Writing -/

/-- The same number without zeros at the end of its digits. -/
def trim (d : Decimal) : Decimal :=
  if d.digits ≠ 0 ∧ d.digits % 10 = 0 then trim ⟨d.digits / 10, d.exponent + 1⟩ else d
termination_by d.digits
decreasing_by grind

/-- The digits padded with zeros, on the right up to the units or on the left so that one stands
before the point. -/
def positional (d : Decimal) : List Char :=
  let digits := Nat.toDigits 10 d.digits ++ List.replicate d.exponent.toNat '0'
  let places := (-d.exponent).toNat
  let padded := List.replicate (places + 1 - digits.length) '0' ++ digits
  let whole := padded.length - places
  if places = 0 then padded else padded.take whole ++ '.' :: padded.drop whole

end Decimal

end InfixArith
