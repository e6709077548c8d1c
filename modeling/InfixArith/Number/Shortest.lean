import InfixArith.Number.BinaryFormat

/-!
# The shortest decimal of a binary value

Of the decimal numbers that read back as a value of the format, `shortest` takes one with the
fewest digits; of those the nearest to the value, and of two equally near the larger.
-/

namespace InfixArith.BinaryFormat

variable (f : BinaryFormat)

/-- The place of the first digit of a positive fraction: it lies from `10^place` on, and below
`10^(place+1)`. -/
def place (num den : Nat) : Int :=
  if den ≤ num then (Decimal.length (num / den) : Int) - 1
  else -(Decimal.length ((den - 1) / num) : Int)

/-- The multiple of `10^k` nearest to a value, of those that read back as it. -/
def onGrid? (magnitude : Nat) (k : Int) : Option Decimal :=
  let num := f.units magnitude * Nat.pow 10 (-k).toNat
  let den := Nat.pow 2 f.scale * Nat.pow 10 k.toNat
  let below : Decimal := ⟨num / den, k⟩
  let above : Decimal := ⟨num / den + 1, k⟩
  match f.ofDecimal below == magnitude, f.ofDecimal above == magnitude with
  | true, true => some (if 2 * (num % den) < den then below else above)
  | true, false => some below
  | false, true => some above
  | false, false => none

/-- The value itself, with all its digits. -/
def exact (magnitude : Nat) : Decimal :=
  ⟨f.units magnitude * Nat.pow 5 f.scale, -(f.scale : Int)⟩

/-- The decimal of a positive finite value with the fewest digits.  A significand of `p` bits
needs no more than `p` of them. -/
def shortest (magnitude : Nat) : Decimal :=
  let first := place (f.units magnitude) (Nat.pow 2 f.scale)
  let found := (List.range f.precision).findSome? fun (n : Nat) =>
    f.onGrid? magnitude (first - n)
  (found.getD (f.exact magnitude)).trim

end InfixArith.BinaryFormat
