import InfixArith.Proofs.Classification
import InfixArith.Proofs.FixedWidth

/-!
# Printed integers

An integer is printed as its digits, behind a minus if it is below zero (`repr_cases`).  There are
two ways to read this again.  The reader of the kind takes the minus for a part of the number, and
gives the integer back (`Signed.read_repr`).  A calculation takes it for an operation on what the
digits stand for.  That is the same, unless the digits alone stand for an integer that the kind does
not have; and there is one such integer in each width, the least one (`readsBack`).
-/

namespace InfixArith

/-! ### The digits of a number -/

theorem isDigits_toDigits (n : Nat) : IsDigits (Nat.toDigits 10 n) :=
  ⟨Nat.toDigits_ne_nil, fun _ hc => Nat.isDigit_of_mem_toDigits (by decide) (by decide) hc⟩

theorem ofDigits_toDigits (n : Nat) : Integer.ofDigits (Nat.toDigits 10 n) = n :=
  Nat.ofDigitChars_ten_toDigits

/-- An integer is printed as its digits, behind a minus if it is below zero. -/
theorem repr_cases (n : Int) :
    (∃ m : Nat, n = m ∧ n.repr = String.ofList (Nat.toDigits 10 m)) ∨
    ∃ m : Nat, 0 < m ∧ n = -(m : Int) ∧ n.repr = String.ofList ('-' :: Nat.toDigits 10 m) := by
  rw [Int.repr_eq_if]
  split
  · next h =>
    exact .inl ⟨n.toNat, by omega, Nat.repr_eq_ofList_toDigits⟩
  · next h =>
    refine .inr ⟨(-n).toNat, by omega, by omega, ?_⟩
    rw [Nat.repr_eq_ofList_toDigits, String.ofList_cons]
    rfl

/-! ### Reading -/

/-- Any integer is read from its text. -/
theorem Integer.read_repr (n : Int) : read n.repr.toList = .ok n := by
  rcases repr_cases n with ⟨m, rfl, htext⟩ | ⟨m, -, rfl, htext⟩
  · rw [htext, String.toList_ofList, read_digits (isDigits_toDigits m), ofDigits_toDigits]
  · rw [htext, String.toList_ofList, read_minus_digits (isDigits_toDigits m), ofDigits_toDigits]

/-- An integer of a width is read from its text, the least one as well. -/
theorem Signed.read_repr {bits : Nat} (a : Signed bits) : read bits a.val.repr.toList = .ok a := by
  rcases repr_cases a.val with ⟨m, hm, htext⟩ | ⟨m, -, hm, htext⟩
  · rw [htext, String.toList_ofList, read_digits (isDigits_toDigits m), ofDigits_toDigits]
    exact fitted_eq_ok_iff.2 hm
  · rw [htext, String.toList_ofList, read_minus_digits (isDigits_toDigits m), ofDigits_toDigits]
    exact fittedOnSide_of_eq hm

/-! ### Calculating -/

section

variable {α : Type} [Numeric α] {s : List Char}

/-- A numeral alone has the value that is read from it. -/
theorem evaluate_numeral (hs : IsNumeral s) {v : α}
    (hv : Numeric.parse (String.ofList s) = .ok v) : evaluate (String.ofList s) = .ok v := by
  have hd : Derives (.sum true) [.number s] (.value s) := .product (.factor true (.number hs))
  have hf : format (String.ofList s) = .ok [.number s] := by
    refine format_eq_ok_iff.2 ⟨hd.follows, ?_⟩
    rw [String.toList_ofList]
    exact Spaced.singleton s
  exact evaluate_of_derives hf hd (Outcome.map_eq_ok_iff.2 ⟨v, hv, rfl⟩)

/-- The format takes a minus in front of a numeral for a negation. -/
theorem format_minus_numeral (hs : IsNumeral s) :
    format (String.ofList ('-' :: s)) = .ok [.negation, .number s] := by
  refine format_eq_ok_iff.2 ⟨.step .negation (.step (.number (by decide) hs) .done), ?_⟩
  rw [String.toList_ofList]
  exact (Spaced.singleton ['-']).append (Spaced.singleton s)

/-- The value of the numeral is negated, if it has one. -/
theorem evaluate_minus_numeral (hs : IsNumeral s) {v : α}
    (hv : Numeric.parse (String.ofList s) = .ok v) :
    evaluate (String.ofList ('-' :: s)) = (Numeric.negate v).mapError Error.arithmetic := by
  have hd : Derives (.sum true) [.negation, .number s] (.negate (.value s)) :=
    .product (.minus (.number hs))
  have hread : (Tree.negate (.value s)).read = .ok (Tree.negate (.value v)) :=
    Outcome.map_eq_ok_iff.2 ⟨_, Outcome.map_eq_ok_iff.2 ⟨v, hv, rfl⟩, rfl⟩
  exact evaluate_of_derives (format_minus_numeral hs) hd hread

theorem evaluate_minus_unreadable (hs : IsNumeral s) {e : Unreadable}
    (he : Numeric.parse (α := α) (String.ofList s) = .error e) :
    evaluate (α := α) (String.ofList ('-' :: s)) = .error (.unreadable e) := by
  have hl : Terminal.literals [.negation, .number s] = [] ++ String.ofList s :: [] := rfl
  exact evaluate_of_postfixOf_eq_error
    (postfixOf_of_unreadable (format_minus_numeral hs) hl nofun he)

end

/-! ### Printing and reading back -/

/-- The text of an integer has the value of its digits, or this is negated. -/
theorem evaluate_repr_of_parse {α : Type} [Numeric α] {n : Int} {v : α}
    (hdigits : ∀ m : Nat, n = m → Numeric.parse (String.ofList (Nat.toDigits 10 m)) = .ok v)
    (hminus : ∀ m : Nat, n = -(m : Int) → ∃ u : α,
      Numeric.parse (String.ofList (Nat.toDigits 10 m)) = .ok u ∧ Numeric.negate u = .ok v) :
    evaluate n.repr = .ok v := by
  rcases repr_cases n with ⟨m, hm, htext⟩ | ⟨m, -, hm, htext⟩
  · rw [htext]
    exact evaluate_numeral (.whole (isDigits_toDigits m)) (hdigits m hm)
  · obtain ⟨u, hu, hv⟩ := hminus m hm
    rw [htext, evaluate_minus_numeral (.whole (isDigits_toDigits m)) hu, hv]
    rfl

theorem evaluate_repr (n : Int) : evaluate n.repr = .ok n := by
  have hparse : ∀ m : Nat, Numeric.parse (String.ofList (Nat.toDigits 10 m)) = .ok (m : Int) := by
    intro m
    rw [parse_eq_mapError_read fun _ => rfl, String.toList_ofList]
    show (Integer.read _).mapError _ = _
    rw [Integer.read_digits (isDigits_toDigits m), ofDigits_toDigits]
    rfl
  refine evaluate_repr_of_parse ?_ ?_
  · rintro m rfl
    exact hparse m
  · rintro m rfl
    exact ⟨m, hparse m, rfl⟩

/-- The printed integers of a width read back, in both ways; but the least of them does not as a
calculation, because its digits alone stand for an integer that is too large. -/
structure ReadsBack (bits : Nat) [Numeric (Signed bits)] (least : Int) : Prop where
  parse_render : ∀ a : Signed bits, Numeric.parse (Numeric.render a) = .ok a
  evaluate_render : ∀ a : Signed bits, a.val ≠ least → evaluate (Numeric.render a) = .ok a
  evaluate_least : ∀ a : Signed bits, a.val = least → ∃ digits e,
    Numeric.render a = "-" ++ digits ∧
    evaluate (α := Signed bits) (Numeric.render a) = .error (.unreadable e) ∧
    e.text = digits ∧ e.kind = Numeric.kind (Signed bits) ∧
    e.reason.message = "number too large to fit in target type"

section

variable {bits : Nat} [Numeric (Signed bits)] [HasWidth bits]

/-- Digits are read as an integer of the width, or are too large for it. -/
theorem parse_toDigits (m : Nat) : Numeric.parse (String.ofList (Nat.toDigits 10 m)) =
    (Signed.fitted bits m).mapError fun reason =>
      ⟨String.ofList (Nat.toDigits 10 m), Numeric.kind (Signed bits), reason⟩ := by
  rw [parse_eq_mapError_read HasWidth.isFinite_eq, String.toList_ofList, HasWidth.read_eq,
    Signed.read_digits (isDigits_toDigits m), ofDigits_toDigits]

theorem parse_repr (a : Signed bits) : Numeric.parse a.val.repr = .ok a := by
  rw [parse_eq_mapError_read HasWidth.isFinite_eq, HasWidth.read_eq, Signed.read_repr]
  rfl

theorem parse_toDigits_of_eq {a : Signed bits} {m : Nat} (h : a.val = m) :
    Numeric.parse (String.ofList (Nat.toDigits 10 m)) = .ok a := by
  rw [parse_toDigits, Signed.fitted_eq_ok_iff.2 h]
  rfl

theorem evaluate_repr_of_ne_least {a : Signed bits} (h : a.val ≠ -(half bits : Int)) :
    evaluate a.val.repr = .ok a := by
  refine evaluate_repr_of_parse (fun m hm => parse_toDigits_of_eq hm) fun m hm => ?_
  -- the digits alone stand for an integer of the width, and so does its negation
  have hleast := a.least
  obtain ⟨b, hb⟩ : ∃ b : Signed bits, b.val = m := ⟨⟨m, by omega, by omega⟩, rfl⟩
  have hval : -b.val = a.val := by omega
  refine ⟨b, parse_toDigits_of_eq hb, ?_⟩
  rw [HasWidth.negate_eq]
  show Signed.checked (-b.val) = _
  rw [hval, Signed.checked_val]

/-- The digits of the least integer are those of the first one that is too large. -/
theorem evaluate_repr_least {a : Signed bits} (h : a.val = -(half bits : Int)) : ∃ s : List Char,
    a.val.repr = String.ofList ('-' :: s) ∧ evaluate (α := Signed bits) a.val.repr =
      .error (.unreadable ⟨String.ofList s, Numeric.kind (Signed bits), .tooLarge⟩) := by
  have hpos := half_pos bits
  rcases repr_cases a.val with ⟨m, hm, -⟩ | ⟨m, -, hm, htext⟩
  · omega
  · refine ⟨Nat.toDigits 10 m, htext, ?_⟩
    have hnot : ¬ Signed.Fits bits m := fun hfits => by
      have := hfits.2
      omega
    rw [htext]
    refine evaluate_minus_unreadable (.whole (isDigits_toDigits m)) ?_
    rw [parse_toDigits, Signed.fitted_of_not_fits hnot]
    rfl

/-- **Printed integers of a width read back.** -/
theorem readsBack (hrender : ∀ a : Signed bits, Numeric.render a = a.val.repr) :
    ReadsBack bits (-(half bits : Int)) where
  parse_render a := by rw [hrender, parse_repr]
  evaluate_render a h := by rw [hrender, evaluate_repr_of_ne_least h]
  evaluate_least a h := by
    obtain ⟨s, htext, heval⟩ := evaluate_repr_least h
    refine ⟨String.ofList s, _, ?_, hrender a ▸ heval, rfl, rfl, rfl⟩
    rw [hrender, htext, String.ofList_cons]
    rfl

end

/-- **Printed integers read back**, by the reader of their kind and as an expression; but the least
integer of a width is no value of its text. -/
theorem integers_read_back :
    (∀ n : Int, Numeric.parse (Numeric.render n) = .ok n ∧ evaluate (Numeric.render n) = .ok n) ∧
    ReadsBack 32 (-2147483648) ∧ ReadsBack 64 (-9223372036854775808) := by
  refine ⟨fun n => ⟨?_, evaluate_repr n⟩, readsBack fun _ => rfl, readsBack fun _ => rfl⟩
  rw [parse_eq_mapError_read fun _ => rfl]
  show (Integer.read n.repr.toList).mapError _ = _
  rw [Integer.read_repr]
  rfl

/-- The least integer of 32 bits, and the one above it. -/
theorem integers_read_back_least :
    (∃ e, evaluate (α := Signed 32) "-2147483648" = .error (.unreadable e) ∧
      e.text = "2147483648") ∧
    evaluate "-2147483647" = .ok (⟨-2147483647, by decide, by decide⟩ : Signed 32) := by
  obtain ⟨-, h32, -⟩ := integers_read_back
  have hleast : Numeric.render (⟨-2147483648, by decide, by decide⟩ : Signed 32) =
      "-" ++ "2147483648" := by decide +kernel
  have hnext : Numeric.render (⟨-2147483647, by decide, by decide⟩ : Signed 32) =
      "-2147483647" := by decide +kernel
  obtain ⟨digits, e, hrender, heval, rfl, -, -⟩ :=
    h32.evaluate_least ⟨-2147483648, by decide, by decide⟩ rfl
  have hdigits : e.text = "2147483648" :=
    (String.append_right_inj "-").1 (hrender.symm.trans hleast)
  rw [hleast] at heval
  rw [← hnext]
  exact ⟨⟨e, heval, hdigits⟩, h32.evaluate_render _ (by decide)⟩

end InfixArith
