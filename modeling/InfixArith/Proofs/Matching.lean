import InfixArith.Expression.Peg

/-!
# Matching one expression

What a parsing expression matches, by the way it is built: one equation for each outcome of its
parts.  A repetition is a first turn and then turn after turn (`Peg.run_many_of_some`); where
nothing is skipped, the first is like the others (`Peg.run_many_eq_iterate`).

Of the words, a symbol is matched by its character (`Peg.run_symbol_cons`), and a number is
matched as the lexer reads it (`Peg.run_number`).
-/

namespace InfixArith

namespace Peg

variable {text s r : List Char} {skip : List Char → List Char} {e f : Peg} {ts us : List Terminal}

/-! ### One expression -/

section

variable {step : List Char → Option (List Terminal × List Char)}

theorem iterate_of_none (h : step s = none) : iterate step s = ([], s) := by
  rw [iterate, h]

theorem iterate_of_some (h : step s = some (ts, r)) (hr : r.length < s.length) :
    iterate step s = (ts ++ (iterate step r).1, (iterate step r).2) := by
  rw [iterate, h]
  exact if_pos hr

end

theorem run_seq_eq_some_iff {p : List Terminal × List Char} :
    (Peg.seq e f).run text skip s = some p ↔ ∃ ts r us r', e.run text skip s = some (ts, r) ∧
      f.run text skip (skip r) = some (us, r') ∧ p = (ts ++ us, r') := by
  constructor
  · intro h
    rw [run_seq] at h
    obtain ⟨⟨ts, r⟩, he, h⟩ := Option.bind_eq_some_iff.1 h
    obtain ⟨⟨us, r'⟩, hf, h⟩ := Option.bind_eq_some_iff.1 h
    cases h
    exact ⟨ts, r, us, r', he, hf, rfl⟩
  · rintro ⟨ts, r, us, r', he, hf, rfl⟩
    rw [run_seq, he, Option.bind_some, hf, Option.bind_some]

theorem run_seq_of_none (h : e.run text skip s = none) : (Peg.seq e f).run text skip s = none := by
  rw [run_seq, h, Option.bind_none]

theorem run_choice_of_some {p : List Terminal × List Char} (h : e.run text skip s = some p) :
    (Peg.choice e f).run text skip s = some p := by
  simp [run_choice, h]

theorem run_choice_of_none (h : e.run text skip s = none) :
    (Peg.choice e f).run text skip s = f.run text skip s := by
  simp [run_choice, h]

theorem run_option_of_some {p : List Terminal × List Char} (h : e.run text skip s = some p) :
    e.option.run text skip s = some p := by
  simp [run_option, h]

theorem run_option_of_none (h : e.run text skip s = none) :
    e.option.run text skip s = some ([], s) := by
  simp [run_option, h]

theorem run_word_of_none {t : List Char → Terminal} (h : e.run text id s = none) :
    (Peg.word t e).run text skip s = none := by
  rw [run_word, h, Option.bind_none]

theorem run_word_of_some {t : List Char → Terminal} (h : e.run text id (s ++ r) = some (ts, r)) :
    (Peg.word t e).run text skip (s ++ r) = some ([t s], r) := by
  simp [run_word, h]

theorem run_many_of_none (h : e.run text skip s = none) :
    e.many.run text skip s = some ([], s) := by
  rw [run_many, h]

theorem run_many_of_some (h : e.run text skip s = some (ts, r)) : e.many.run text skip s =
    some (ts ++ (iterate (fun s => e.run text skip (skip s)) r).1,
      (iterate (fun s => e.run text skip (skip s)) r).2) := by
  rw [run_many, h]

/-- The first turn is like the others where nothing is skipped in front of it. -/
theorem run_many_eq_iterate (hs : skip s = s)
    (h : ∀ ts r, e.run text skip s = some (ts, r) → r.length < s.length) :
    e.many.run text skip s = some (iterate (fun s => e.run text skip (skip s)) s) := by
  cases he : e.run text skip s with
  | none => rw [run_many_of_none he, iterate_of_none (by rw [hs, he])]
  | some p =>
    obtain ⟨ts, r⟩ := p
    rw [run_many_of_some he, iterate_of_some (by rw [hs, he]) (h ts r he)]

/-! ### Words -/

theorem iterate_char (p : Char → Bool) : ∀ s,
    iterate ((Peg.char p).run text skip) s = ([], s.dropWhile p)
  | [] => iterate_of_none rfl
  | c :: s => by
    cases hp : p c with
    | false =>
      rw [iterate_of_none (by simp [hp]), List.dropWhile_cons_of_neg (by simp [hp])]
    | true =>
      have hchar : (Peg.char p).run text skip (c :: s) = some ([], s) := by simp [hp]
      rw [iterate_of_some hchar (by simp), iterate_char p s, List.dropWhile_cons_of_pos hp]
      rfl

theorem length_lt_of_run_char {p : Char → Bool} (h : (Peg.char p).run text skip s = some (ts, r)) :
    r.length < s.length := by
  rcases s with _ | ⟨c, s⟩
  · cases h
  · simp only [run_char_cons, Option.ite_none_right_eq_some] at h
    cases h.2
    simp

theorem run_digits_of_none (h : s.takeWhile Char.isDigit = []) : digits.run text id s = none := by
  refine run_seq_of_none ?_
  rcases s with _ | ⟨c, s⟩
  · rfl
  · cases hc : c.isDigit with
    | false => simp [hc]
    | true => rw [List.takeWhile_cons_of_pos hc] at h; cases h

theorem run_digits_of_some (h : s.takeWhile Char.isDigit ≠ []) :
    digits.run text id s = some ([], s.dropWhile Char.isDigit) := by
  rcases s with _ | ⟨c, s⟩
  · exact absurd rfl h
  cases hc : c.isDigit with
  | false => exact absurd (List.takeWhile_cons_of_neg (by simp [hc])) h
  | true =>
    have hmany : (Peg.char Char.isDigit).many.run text id s =
        some ([], s.dropWhile Char.isDigit) :=
      (run_many_eq_iterate rfl fun _ _ => length_lt_of_run_char).trans (congrArg some (iterate_char _ s))
    rw [List.dropWhile_cons_of_pos hc]
    exact run_seq_eq_some_iff.2 ⟨[], s, [], _, by simp [hc], hmany, rfl⟩

/-- A number is matched as it is read. -/
theorem run_number : number.run text skip s =
    (Lexeme.numeral? s).map fun p => ([Terminal.number p.1], p.2) := by
  unfold Lexeme.numeral?
  by_cases hd : s.takeWhile Char.isDigit = []
  · rw [if_pos hd]
    exact run_word_of_none (run_seq_of_none (run_digits_of_none hd))
  have hdigits : digits.run text id s = some ([], s.dropWhile Char.isDigit) :=
    run_digits_of_some hd
  have hs : s = s.takeWhile Char.isDigit ++ s.dropWhile Char.isDigit :=
    List.takeWhile_append_dropWhile.symm
  -- the text in front of what is left is what was taken
  have word : ∀ {t u r : List Char}, s.dropWhile Char.isDigit = u →
      (Peg.option (.seq (.char (· == '.')) digits)).run text id u = some ([], r) →
      s = t ++ r → number.run text skip s = some ([.number t], r) := by
    rintro t u r rfl h rfl
    exact run_word_of_some (run_seq_eq_some_iff.2 ⟨[], _, [], r, hdigits, h, rfl⟩)
  rw [if_neg hd]
  split
  · next r hr =>
    rw [hr] at hs
    have hpoint : (Peg.char (· == '.')).run text id ('.' :: r) = some ([], r) := rfl
    split
    · next ht =>
      refine word hr (run_option_of_none ?_) hs
      simp [run_seq, run_digits_of_none ht]
    · next ht =>
      refine word hr (run_option_of_some (run_seq_eq_some_iff.2
        ⟨[], r, [], _, hpoint, run_digits_of_some ht, rfl⟩)) ?_
      rwa [List.append_assoc, List.cons_append, List.takeWhile_append_dropWhile]
  · next hne =>
    refine word rfl (run_option_of_none (run_seq_of_none ?_)) hs
    cases hr : s.dropWhile Char.isDigit with
    | nil => rfl
    | cons c r =>
      have hc : c ≠ '.' := fun e => hne r (by rw [hr, e])
      simp [hc]

theorem run_symbol_cons (c : Char) (t : Terminal) :
    (symbol c t).run text skip (c :: s) = some ([t], s) := by
  have hchar : (Peg.char (· == c)).run text id ([c] ++ s) = some ([], s) := by simp
  exact run_word_of_some hchar

theorem run_symbol_of_ne {c : Char} (t : Terminal) (h : s.head? ≠ some c) :
    (symbol c t).run text skip s = none := by
  refine run_word_of_none ?_
  rcases s with _ | ⟨d, s⟩
  · rfl
  · have : d ≠ c := fun e => h (by rw [e]; rfl)
    simp [this]

end Peg

end InfixArith
