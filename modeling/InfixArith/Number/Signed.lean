import InfixArith.Number.Integer

/-!
# Integers of a fixed width

`Signed bits` holds the integers of two's complement: from `-2^(bits-1)` up to, but without,
`2^(bits-1)`.  An operation takes the exact result and fails when that is not one of them
(`ofInt?`).  Main statements: `ofInt?_eq_some_iff`, `ofInt?_eq_none_iff`.
-/

namespace InfixArith

/-- The number of integers of `bits` bits below zero, and of those from zero on. -/
def half (bits : Nat) : Nat := Nat.pow 2 (bits - 1)

theorem half_pos (bits : Nat) : 0 < half bits :=
  Nat.two_pow_pos _

/-- An integer of `bits` bits. -/
structure Signed (bits : Nat) where
  /-- The integer itself. -/
  val : Int
  /-- It is not below the least one. -/
  least : -(half bits : Int) ≤ val
  /-- It is below the bound. -/
  bound : val < (half bits : Int)
  deriving DecidableEq, Repr

namespace Signed

variable {bits : Nat}

theorem ext {a b : Signed bits} (h : a.val = b.val) : a = b := by
  cases a; cases b; cases h; rfl

/-- An integer fits in `bits` bits. -/
def Fits (bits : Nat) (n : Int) : Prop :=
  -(half bits : Int) ≤ n ∧ n < (half bits : Int)

instance (n : Int) : Decidable (Fits bits n) :=
  inferInstanceAs (Decidable (_ ∧ _))

/-- The integer of `bits` bits, if it fits. -/
def ofInt? (bits : Nat) (n : Int) : Option (Signed bits) :=
  if h : Fits bits n then some ⟨n, h.1, h.2⟩ else none

theorem fits (a : Signed bits) : Fits bits a.val := ⟨a.least, a.bound⟩

theorem ofInt?_eq_some_iff {n : Int} {a : Signed bits} : ofInt? bits n = some a ↔ a.val = n := by
  unfold ofInt?
  split
  · exact ⟨fun h => by cases h; rfl, fun h => congrArg some (ext h.symm)⟩
  · next h => exact ⟨nofun, fun e => absurd (e ▸ a.fits) h⟩

theorem ofInt?_eq_none_iff {n : Int} : ofInt? bits n = none ↔ ¬ Fits bits n := by
  unfold ofInt?
  split <;> simp_all

theorem ofInt?_val (a : Signed bits) : ofInt? bits a.val = some a :=
  ofInt?_eq_some_iff.2 rfl

/-- Zero has every width. -/
def zero (bits : Nat) : Signed bits :=
  ⟨0, by have := half_pos bits; omega, by have := half_pos bits; omega⟩

/-! ### Reading -/

/-- The digits are read from the left.  Each one must leave the value, of the sign given, within
the width; what is no digit is refused before the width is asked. -/
def readDigits (negative : Bool) (v : Signed bits) : List Char → Except Reason (Signed bits)
  | [] => .ok v
  | c :: s =>
    if c.isDigit then
      let d : Int := Integer.ofDigits [c]
      match ofInt? bits (if negative then v.val * 10 - d else v.val * 10 + d) with
      | some w => readDigits negative w s
      | none => .error (if negative then .tooSmall else .tooLarge)
    else .error .invalidDigit

/-- A sign may stand in front of the digits, but not alone. -/
def read (bits : Nat) : List Char → Except Reason (Signed bits)
  | [] => .error .emptyInteger
  | ['+'] | ['-'] => .error .invalidDigit
  | '+' :: s => readDigits false (zero bits) s
  | '-' :: s => readDigits true (zero bits) s
  | s => readDigits false (zero bits) s

/-! ### Arithmetic -/

/-- The exact result, if it fits. -/
def checked (n : Int) : Except Fault (Signed bits) :=
  match ofInt? bits n with
  | some a => .ok a
  | none => .error .overflow

/-- The operation on the integers themselves, if its result fits. -/
def combine (op : BinaryOp) (a b : Signed bits) : Except Fault (Signed bits) :=
  Integer.combine op a.val b.val >>= checked

/-- The negation, which the least integer does not have. -/
def negate (a : Signed bits) : Except Fault (Signed bits) :=
  checked (-a.val)

/-- The integers of one width, under the name of a kind. -/
@[reducible] def numeric (bits : Nat) (kind : Kind) : Numeric (Signed bits) where
  kind := kind
  read := read bits
  isFinite _ := true
  combine := combine
  negate := negate
  render a := a.val.repr

end Signed

instance : Numeric (Signed 32) := Signed.numeric 32 .int32

instance : Numeric (Signed 64) := Signed.numeric 64 .int64

end InfixArith
