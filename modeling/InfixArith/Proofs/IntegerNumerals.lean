import InfixArith.Number.Signed
import InfixArith.Proofs.Outcome
import InfixArith.Proofs.Spelling

/-!
# Numerals read as integers

A numeral without a point stands for an integer, and one with a point for none.  In a fixed width
the digits are read one by one, and the first that takes the value out of the width stops the
reading.  Digits never make a value smaller, so it is stopped exactly when the integer does not
fit (`Signed.readDigits_append`), and a point behind them is met only if it does.  Hence the widths
differ in the range alone (`IsNumeral.read_cases`).
-/

namespace InfixArith

/-! ### Any size -/

namespace Integer

/-- Without a sign in front, only the magnitude is read. -/
theorem read_of_isDigit {c : Char} (hc : c.isDigit = true) (s : List Char) :
    read (c :: s) = (readMagnitude (c :: s)).map Int.ofNat := by
  unfold read
  split
  · next h => cases h; cases hc
  · next h => cases h; cases hc
  · next h => cases h; cases hc
  · next h => cases h; cases hc
  · rfl

theorem readMagnitude_of_isDigit {c : Char} (hc : c.isDigit = true) (s : List Char) :
    readMagnitude (c :: s) =
      if (c :: s).all fun c => c.isDigit || c == '_' then
        .ok (ofDigits ((c :: s).filter Char.isDigit))
      else .error .invalidDigit := by
  unfold readMagnitude
  split
  · next h => cases h
  · next h => cases h; cases hc
  · rfl

/-- Digits stand for a natural number. -/
theorem read_digits {s : List Char} (h : IsDigits s) : read s = .ok (ofDigits s : Int) := by
  obtain ⟨hne, hd⟩ := h
  cases s with
  | nil => exact absurd rfl hne
  | cons c s =>
    have hc : c.isDigit = true := hd c (by simp)
    have hall : ((c :: s).all fun c => c.isDigit || c == '_') = true :=
      List.all_eq_true.2 fun d hmem => by simp [hd d hmem]
    rw [read_of_isDigit hc, readMagnitude_of_isDigit hc, if_pos hall, List.filter_eq_self.2 hd]
    rfl

/-- Behind a minus the digits stand for the negation. -/
theorem read_minus_digits {s : List Char} (h : IsDigits s) :
    read ('-' :: s) = .ok (-(ofDigits s : Int)) := by
  have hread := read_digits h
  obtain ⟨hne, hd⟩ := h
  cases s with
  | nil => exact absurd rfl hne
  | cons c s =>
    have hc : c.isDigit = true := hd c (by simp)
    rw [read_of_isDigit hc] at hread
    obtain ⟨n, hn, he⟩ := Outcome.map_eq_ok_iff.1 hread
    obtain rfl : n = ofDigits (c :: s) := Int.ofNat_inj.1 he
    unfold read
    split
    · next h => cases h; cases hc
    · next h => cases h; rw [hn]; rfl
    · next h => cases h
    · next h => cases h
    · next hminus _ _ => exact absurd rfl (hminus _)

/-- A point is no digit. -/
theorem read_fraction {s t : List Char} (h : IsDigits s) :
    read (s ++ '.' :: t) = .error .invalidDigit := by
  obtain ⟨hne, hd⟩ := h
  cases s with
  | nil => exact absurd rfl hne
  | cons c s =>
    have hc : c.isDigit = true := hd c (by simp)
    have hall : ¬ ((c :: (s ++ '.' :: t)).all fun c => c.isDigit || c == '_') = true := by
      intro ha
      have := List.all_eq_true.1 ha '.' (by simp)
      exact absurd this (by decide)
    rw [List.cons_append, read_of_isDigit hc, readMagnitude_of_isDigit hc, if_neg hall]
    rfl

theorem ofDigitChars_cons_eq (c : Char) (s : List Char) (m : Nat) :
    Nat.ofDigitChars 10 (c :: s) m = Nat.ofDigitChars 10 s (m * 10 + ofDigits [c]) := by
  simp [ofDigits, Nat.ofDigitChars_cons, Nat.mul_comm]

/-- Digits never make a value smaller. -/
theorem le_ofDigitChars (s : List Char) (m : Nat) : m ≤ Nat.ofDigitChars 10 s m := by
  rw [Nat.ofDigitChars_eq_ofDigitChars_zero]
  have : m ≤ 10 ^ s.length * m := Nat.le_mul_of_pos_left m (Nat.pow_pos (by decide))
  omega

end Integer

/-! ### A fixed width -/

namespace Signed

variable {bits : Nat}

/-- An integer read in a width it may be too large for. -/
def fitted (bits : Nat) (n : Int) : Except Reason (Signed bits) :=
  match ofInt? bits n with
  | some a => .ok a
  | none => .error .tooLarge

theorem fitted_eq_ok_iff {n : Int} {a : Signed bits} : fitted bits n = .ok a ↔ a.val = n := by
  rw [← ofInt?_eq_some_iff, fitted]
  cases ofInt? bits n <;> simp

theorem fitted_of_not_fits {n : Int} (h : ¬ Fits bits n) : fitted bits n = .error .tooLarge := by
  rw [fitted, ofInt?_eq_none_iff.2 h]

/-- The integer with a magnitude and a sign. -/
def ofMagnitude (negative : Bool) (n : Nat) : Int :=
  if negative then -n else n

/-- An integer read by its sign and its magnitude, in a width that it may leave on its side. -/
def fittedOnSide (bits : Nat) (negative : Bool) (n : Nat) : Except Reason (Signed bits) :=
  match ofInt? bits (ofMagnitude negative n) with
  | some a => .ok a
  | none => .error (if negative then .tooSmall else .tooLarge)

theorem fittedOnSide_of_eq {negative : Bool} {n : Nat} {a : Signed bits}
    (h : a.val = ofMagnitude negative n) : fittedOnSide bits negative n = .ok a := by
  rw [fittedOnSide, ofInt?_eq_some_iff.2 h]

/-- An integer that is no smaller than one that does not fit does not fit either. -/
theorem ofInt?_ofMagnitude_mono {negative : Bool} {m n : Nat} (hle : m ≤ n)
    (h : ofInt? bits (ofMagnitude negative m) = none) :
    ofInt? bits (ofMagnitude negative n) = none := by
  rw [ofInt?_eq_none_iff] at h ⊢
  rintro ⟨hleast, hbound⟩
  refine h ⟨?_, ?_⟩
  all_goals
    have := half_pos bits
    cases negative <;> simp only [ofMagnitude, if_true, Bool.false_eq_true, if_false] at * <;> omega

/-- **Digits in front of a text are read exactly when the integer they stand for, after those
before, fits**, and then the text is read. -/
theorem readDigits_append {s : List Char} (hs : ∀ c ∈ s, c.isDigit = true) {negative : Bool}
    {v : Signed bits} {m : Nat} (hv : v.val = ofMagnitude negative m) (r : List Char) :
    readDigits negative v (s ++ r) = fittedOnSide bits negative (Nat.ofDigitChars 10 s m) >>=
      fun w => readDigits negative w r := by
  induction s generalizing v m with
  | nil => rw [Nat.ofDigitChars_nil, fittedOnSide_of_eq hv]; rfl
  | cons c s ih =>
    obtain ⟨hc, hs⟩ := List.forall_mem_cons.1 hs
    have hd : (if negative then v.val * 10 - (Integer.ofDigits [c] : Int)
        else v.val * 10 + (Integer.ofDigits [c] : Int)) =
          ofMagnitude negative (m * 10 + Integer.ofDigits [c]) := by
      cases negative <;>
        simp only [ofMagnitude, if_true, Bool.false_eq_true, if_false] at hv ⊢ <;> omega
    rw [Integer.ofDigitChars_cons_eq, List.cons_append, readDigits, if_pos hc]
    simp only [hd]
    cases hw : ofInt? bits (ofMagnitude negative (m * 10 + Integer.ofDigits [c])) with
    | some w => exact ih hs (ofInt?_eq_some_iff.1 hw)
    | none =>
      -- what comes after does not bring it back
      have hle := Integer.le_ofDigitChars s (m * 10 + Integer.ofDigits [c])
      rw [fittedOnSide, ofInt?_ofMagnitude_mono hle hw]
      rfl

theorem read_of_isDigit {c : Char} (hc : c.isDigit = true) (s : List Char) :
    read bits (c :: s) = readDigits false (zero bits) (c :: s) := by
  unfold read
  split
  · next h => cases h
  · next h => cases h; cases hc
  · next h => cases h; cases hc
  · next h => cases h; cases hc
  · next h => cases h; cases hc
  · rfl

/-- Without a sign in front, the digits decide first. -/
theorem read_digits_append {s : List Char} (h : IsDigits s) (r : List Char) :
    read bits (s ++ r) =
      fitted bits (Integer.ofDigits s) >>= fun w => readDigits false w r := by
  obtain ⟨hne, hd⟩ := h
  cases s with
  | nil => exact absurd rfl hne
  | cons c s =>
    have hc : c.isDigit = true := hd c (by simp)
    have hzero : (zero bits).val = ofMagnitude false 0 := rfl
    rw [List.cons_append, read_of_isDigit hc, ← List.cons_append, readDigits_append hd hzero]
    rfl

theorem read_digits {s : List Char} (h : IsDigits s) :
    read bits s = fitted bits (Integer.ofDigits s) := by
  have happend : read bits (s ++ []) = _ := read_digits_append h []
  rw [List.append_nil] at happend
  rw [happend]
  cases fitted bits (Integer.ofDigits s) <;> rfl

/-- A point is no digit, but it is met behind the digits. -/
theorem read_fraction {s : List Char} (h : IsDigits s) (t : List Char) :
    read bits (s ++ '.' :: t) =
      fitted bits (Integer.ofDigits s) >>= fun _ => .error .invalidDigit :=
  read_digits_append h ('.' :: t)

/-- Behind a minus the digits stand for the negation. -/
theorem read_minus_digits {s : List Char} (h : IsDigits s) :
    read bits ('-' :: s) = fittedOnSide bits true (Integer.ofDigits s) := by
  obtain ⟨hne, hd⟩ := h
  cases s with
  | nil => exact absurd rfl hne
  | cons c s =>
    have hread : read bits ('-' :: c :: s) = readDigits true (zero bits) (c :: s) := rfl
    have hzero : (zero bits).val = ofMagnitude true 0 := rfl
    have hdigits := readDigits_append hd hzero []
    rw [List.append_nil] at hdigits
    rw [hread, hdigits]
    show _ = fittedOnSide bits true (Nat.ofDigitChars 10 (c :: s) 0)
    cases fittedOnSide bits true (Nat.ofDigitChars 10 (c :: s) 0) <;> rfl

end Signed

/-- **Numerals differ in the range alone.**  A numeral stands for an integer, and is read in a
fixed width as far as it fits; or it stands for no integer, and is read in no width. -/
theorem IsNumeral.read_cases (bits : Nat) {s : List Char} (h : IsNumeral s) :
    (∃ n : Int, Integer.read s = .ok n ∧ Signed.read bits s = Signed.fitted bits n) ∨
    ∃ e e', Integer.read s = .error e ∧ Signed.read bits s = .error e' := by
  cases h with
  | whole hs => exact .inl ⟨_, Integer.read_digits hs, Signed.read_digits hs⟩
  | @fraction s t hs _ =>
    rw [Integer.read_fraction hs, Signed.read_fraction hs]
    cases Signed.fitted bits (Integer.ofDigits s) with
    | error e => exact .inr ⟨_, e, rfl, rfl⟩
    | ok _ => exact .inr ⟨_, .invalidDigit, rfl, rfl⟩

/-- The first integer above the range of 32 bits. -/
example : Signed.read 32 "2147483648".toList = .error .tooLarge := rfl

end InfixArith
