import InfixArith.Number.Floating
import InfixArith.Number.Signed

/-!
# Numbers

Each kind has its type of values (`Kind.Value`), and a `Number` is a value together with its
kind.  Two numbers are equal when they are of one kind and their values are; floating-point
values compare as IEEE 754 says, so that zero equals its negation and what is no number does not
equal itself.
-/

namespace InfixArith

namespace Kind

/-- The values of a kind. -/
@[reducible] def Value : Kind → Type
  | .int32 => Signed 32
  | .int64 => Signed 64
  | .bigint => Int
  | .float32 => Float32
  | .float64 => Float

instance numeric : (k : Kind) → Numeric k.Value
  | .int32 => inferInstanceAs (Numeric (Signed 32))
  | .int64 => inferInstanceAs (Numeric (Signed 64))
  | .bigint => inferInstanceAs (Numeric Int)
  | .float32 => inferInstanceAs (Numeric Float32)
  | .float64 => inferInstanceAs (Numeric Float)

instance equality : (k : Kind) → BEq k.Value
  | .int32 => inferInstanceAs (BEq (Signed 32))
  | .int64 => inferInstanceAs (BEq (Signed 64))
  | .bigint => inferInstanceAs (BEq Int)
  | .float32 => inferInstanceAs (BEq Float32)
  | .float64 => inferInstanceAs (BEq Float)

/-- A kind's values stand for that kind. -/
theorem kind_value (k : Kind) : Numeric.kind k.Value = k := by
  cases k <;> rfl

end Kind

/-- A value and its kind. -/
structure Number where
  kind : Kind
  value : kind.Value

namespace Number

/-- The text of a number, which does not name its kind. -/
def render (n : Number) : String :=
  Numeric.render n.value

instance : BEq Number where
  beq
    | ⟨k, a⟩, ⟨l, b⟩ => if h : k = l then h ▸ a == b else false

end Number

end InfixArith
