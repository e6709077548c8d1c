import InfixArith.Number.Numeric

/-!
# Integers of any size

An integer is written with a sign and digits; an underscore may stand anywhere but in front of
the first digit.  Sums, differences and products are exact, and a quotient is rounded toward zero
(`combine_divide_eq_ok_iff`).
-/

namespace InfixArith

namespace Integer

/-- The number that decimal digits stand for. -/
def ofDigits (digits : List Char) : Nat :=
  Nat.ofDigitChars 10 digits 0

/-- Digits, with underscores between or after them. -/
def readMagnitude : List Char → Except Reason Nat
  | [] => .error .emptyInteger
  | '_' :: _ => .error .invalidDigit
  | s =>
    if s.all fun c => c.isDigit || c == '_' then .ok (ofDigits (s.filter Char.isDigit))
    else .error .invalidDigit

/-- A sign may stand in front of the digits, but not two of them. -/
def read : List Char → Except Reason Int
  | '-' :: '+' :: _ => .error .invalidDigit
  | '-' :: s => (readMagnitude s).map fun n => -(n : Int)
  | '+' :: '+' :: _ => .error .invalidDigit
  | '+' :: s => (readMagnitude s).map Int.ofNat
  | s => (readMagnitude s).map Int.ofNat

/-- The exact result of an operation; a quotient is truncated. -/
def combine : BinaryOp → Int → Int → Except Fault Int
  | .add, a, b => .ok (a + b)
  | .subtract, a, b => .ok (a - b)
  | .multiply, a, b => .ok (a * b)
  | .divide, a, b => if b = 0 then .error .divisionByZero else .ok (a.tdiv b)

/-- **A quotient is rounded toward zero**: what is left of the dividend is smaller than the divisor,
and it is on the dividend's side of zero. -/
theorem combine_divide_eq_ok_iff {a b q : Int} : combine .divide a b = .ok q ↔
    b ≠ 0 ∧ (a - b * q).natAbs < b.natAbs ∧ (0 ≤ a → 0 ≤ a - b * q) ∧ (a ≤ 0 → a - b * q ≤ 0) := by
  by_cases hb : b = 0
  · simp [combine, hb]
  have hdivide : combine .divide a b = .ok q ↔ a.tdiv b = q := by simp [combine, hb]
  rw [hdivide]
  constructor
  · rintro rfl
    -- what is left is the remainder, whose sign is the dividend's
    have hrest : a - b * a.tdiv b = a.tmod b := by
      have := Int.mul_tdiv_add_tmod a b
      omega
    have hsize := Int.natAbs_tmod a b
    have hlt := Nat.mod_lt a.natAbs (Int.natAbs_pos.2 hb)
    rw [hrest]
    refine ⟨hb, by omega, Int.tmod_nonneg b, fun ha => ?_⟩
    have hneg := Int.tmod_nonneg b (Int.neg_nonneg_of_nonpos ha)
    rw [Int.neg_tmod] at hneg
    omega
  · rintro ⟨-, hsize, hpos, hneg⟩
    -- on each side of zero there is one remainder, and with it one quotient
    rcases Int.le_total 0 a with ha | ha
    · have hrest := hpos ha
      have hunique : a.tdiv b = q ∧ a.tmod b = a - b * q :=
        (Int.tdiv_tmod_unique ha hb).2 ⟨by omega, hrest, by omega⟩
      exact hunique.1
    · have hrest := hneg ha
      have hunique : a.tdiv b = q ∧ a.tmod b = a - b * q :=
        (Int.tdiv_tmod_unique' ha hb).2 ⟨by omega, by omega, hrest⟩
      exact hunique.1

end Integer

instance : Numeric Int where
  kind := .bigint
  read := Integer.read
  isFinite _ := true
  combine := Integer.combine
  negate a := .ok (-a)
  render a := a.repr

end InfixArith
