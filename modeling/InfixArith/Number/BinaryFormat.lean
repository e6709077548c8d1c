import InfixArith.Number.Decimal

/-!
# Binary floating-point formats

A format of IEEE 754 is given by the bits of its significand and of its exponent.  The bit
pattern of a value without its sign is a natural number, its *magnitude*; magnitudes grow with
the values they stand for, and each finite one is a whole multiple of the least positive value
(`units`).  A fraction is rounded once, to the nearest value of the format, and a half goes to
the even magnitude (`nearest`).
-/

namespace InfixArith

/-- A format: the bits of the significand, the leading one included, and those of the
exponent. -/
structure BinaryFormat where
  precision : Nat
  exponentBits : Nat
  deriving DecidableEq, Repr

/-- The quotient rounded to the nearest integer; a half goes to the even one. -/
def roundDiv (num den : Nat) : Nat :=
  let q := num / den
  let r := num % den
  if 2 * r < den then q else if den < 2 * r then q + 1 else q + q % 2

namespace BinaryFormat

/-- Single precision. -/
def single : BinaryFormat := ⟨24, 8⟩

/-- Double precision. -/
def double : BinaryFormat := ⟨53, 11⟩

variable (f : BinaryFormat)

/-- The magnitudes that share an exponent. -/
def binade : Nat := Nat.pow 2 (f.precision - 1)

/-- The least positive value is `2^(-scale)`. -/
def scale : Nat := Nat.pow 2 (f.exponentBits - 1) + f.precision - 3

/-- The magnitude of infinity; above it stand those of no number. -/
def infinity : Nat := (Nat.pow 2 f.exponentBits - 1) * f.binade

/-- A magnitude that stands for no number. -/
def undefined : Nat := f.infinity + f.binade / 2

/-- The bit that makes a magnitude negative. -/
def signBit : Nat := Nat.pow 2 f.exponentBits * f.binade

/-- A finite magnitude as a multiple of the least positive value. -/
def units (magnitude : Nat) : Nat :=
  let exponent := magnitude / f.binade
  let fraction := magnitude % f.binade
  if exponent = 0 then fraction else (f.binade + fraction) * Nat.pow 2 (exponent - 1)

/-- The magnitude nearest to a fraction. -/
def nearest (num den : Nat) : Nat :=
  let n := num * Nat.pow 2 f.scale
  let shift := (n / den).log2 + 1 - f.precision
  min (shift * f.binade + roundDiv n (den * Nat.pow 2 shift)) f.infinity

/-- The magnitude nearest to a decimal number.  One too large for the format, or too small, is
told by the place of its first digit. -/
def ofDecimal (d : Decimal) : Nat :=
  if d.digits = 0 ∨ d.top < -(f.scale : Int) then 0
  else if Nat.pow 2 (f.exponentBits - 1) < d.top then f.infinity
  else f.nearest d.ratio.1 d.ratio.2

end BinaryFormat

end InfixArith
