import InfixArith.Number.Shortest

/-!
# Floating-point numbers

The text of a floating-point value is read and written by its bits, in single precision and in
double precision alike.  Operations are those of IEEE 754 and never fail.
-/

namespace InfixArith

namespace BinaryFormat

variable (f : BinaryFormat)

/-- A magnitude by name, in any case of letters, or by its decimal. -/
def readMagnitude (s : List Char) : Except Reason Nat :=
  match String.ofList (s.map Char.toLower) with
  | "inf" | "infinity" => .ok f.infinity
  | "nan" => .ok f.undefined
  | _ =>
    match Decimal.ofChars? s with
    | some d => .ok (f.ofDecimal d)
    | none => .error .invalidFloat

/-- The bits of the value that a text stands for. -/
def read : List Char → Except Reason Nat
  | [] => .error .emptyFloat
  | '-' :: s => (f.readMagnitude s).map (f.signBit + ·)
  | '+' :: s => f.readMagnitude s
  | s => f.readMagnitude s

/-- The text of a magnitude. -/
def renderMagnitude (magnitude : Nat) : List Char :=
  if magnitude = 0 then ['0']
  else if magnitude = f.infinity then ['i', 'n', 'f']
  else (f.shortest magnitude).positional

/-- The text of the value with the given bits.  What is no number has no sign. -/
def render (bits : Nat) : String :=
  let magnitude := bits % f.signBit
  if f.infinity < magnitude then "NaN"
  else if f.signBit ≤ bits then String.ofList ('-' :: f.renderMagnitude magnitude)
  else String.ofList (f.renderMagnitude magnitude)

end BinaryFormat

instance : Numeric Float32 where
  kind := .float32
  read s := (BinaryFormat.single.read s).map fun bits => Float32.ofBits (UInt32.ofNat bits)
  isFinite := Float32.isFinite
  combine
    | .add, a, b => .ok (a + b)
    | .subtract, a, b => .ok (a - b)
    | .multiply, a, b => .ok (a * b)
    | .divide, a, b => .ok (a / b)
  negate a := .ok (-a)
  render a := BinaryFormat.single.render a.toBits.toNat

instance : Numeric Float where
  kind := .float64
  read s := (BinaryFormat.double.read s).map fun bits => Float.ofBits (UInt64.ofNat bits)
  isFinite := Float.isFinite
  combine
    | .add, a, b => .ok (a + b)
    | .subtract, a, b => .ok (a - b)
    | .multiply, a, b => .ok (a * b)
    | .divide, a, b => .ok (a / b)
  negate a := .ok (-a)
  render a := BinaryFormat.double.render a.toBits.toNat

end InfixArith
