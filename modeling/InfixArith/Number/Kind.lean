import InfixArith.Text.Quoted

/-!
# Numeric kinds

Every calculation works in one kind of number, chosen by name: integers of 32 bits, of 64 bits
or of any size, and binary floating point in single or double precision.
-/

namespace InfixArith

/-- A kind of number. -/
inductive Kind where
  | int32
  | int64
  | bigint
  | float32
  | float64
  deriving DecidableEq, Repr

namespace Kind

/-- All kinds, in the order in which they are listed to a user. -/
def all : List Kind := [.int32, .int64, .bigint, .float32, .float64]

/-- The name a user gives a kind. -/
def name : Kind → String
  | .int32 => "i32"
  | .int64 => "i64"
  | .bigint => "bigint"
  | .float32 => "f32"
  | .float64 => "f64"

/-- The kind of a given name. -/
def ofName? (s : String) : Option Kind :=
  all.find? fun k => k.name == s

/-- Integer kinds divide with truncation; the others divide as IEEE 754 says. -/
def isInteger : Kind → Bool
  | .int32 | .int64 | .bigint => true
  | .float32 | .float64 => false

/-- What is said of a name that no kind has. -/
def unknownMessage (s : String) : String :=
  "unknown numeric kind " ++ Text.quoted s ++ ", expected one of " ++
    ", ".intercalate (all.map name)

theorem mem_all (k : Kind) : k ∈ all := by
  cases k <;> decide

/-- A kind is found by its name. -/
theorem ofName?_name (k : Kind) : ofName? k.name = some k := by
  cases k <;> decide

end Kind

end InfixArith
