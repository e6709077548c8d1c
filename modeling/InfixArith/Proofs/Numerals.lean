import InfixArith.Proofs.Classification
import InfixArith.Proofs.FixedWidth
import InfixArith.Proofs.Unformatted
import Mathlib.Data.Nat.Digits.Defs

/-!
# What numerals stand for

Readers take more than numerals: signs, exponents, underscores, names.  The lexer gives them
numerals only, digits with a point between them or none, and on these a few rules say it all
(`NumeralMeaning`).  An integer of any size is the one that the digits stand for, and a point is
refused.  In a fixed width the integer before the point must fit, and only then the point is met.
A floating-point value is the one nearest to the decimal number, unless that is infinite.

What a reader makes of any other text is never asked: with another reader that reads numerals
alike, each text has the value it had (`evaluate_withRead`).
-/

namespace InfixArith

/-! ### Digits -/

/-- The number that digits stand for, the last of them counting the units. -/
def decimalValue (s : List Char) : Nat :=
  Nat.ofDigits 10 (s.reverse.map fun c => c.toNat - '0'.toNat)

theorem decimalValue_append_singleton (s : List Char) (c : Char) :
    decimalValue (s ++ [c]) = 10 * decimalValue s + (c.toNat - '0'.toNat) := by
  rw [decimalValue, List.reverse_append, List.reverse_singleton, List.singleton_append,
    List.map_cons, Nat.ofDigits_cons, Nat.add_comm]
  rfl

/-- Read from the left, digits stand for the same number. -/
theorem ofDigits_eq_decimalValue (s : List Char) : Integer.ofDigits s = decimalValue s := by
  induction s using List.reverseRecOn with
  | nil => rfl
  | append_singleton s c ih =>
    rw [decimalValue_append_singleton, ← ih, Integer.ofDigits, Nat.ofDigitChars_append,
      Nat.ofDigitChars_cons, Nat.ofDigitChars_nil]
    rfl

/-- The point and the digits behind it, if they are there. -/
def fractionText : Option (List Char) → List Char
  | none => []
  | some t => '.' :: t

/-- The number written with these digits before the point and behind it. -/
def decimalOf (whole : List Char) (fraction : Option (List Char)) : Decimal :=
  ⟨decimalValue (whole ++ fraction.getD []), -((fraction.getD []).length : Int)⟩

theorem isNumeral_iff {s : List Char} : IsNumeral s ↔ ∃ whole fraction,
    s = whole ++ fractionText fraction ∧ IsDigits whole ∧ ∀ t ∈ fraction, IsDigits t := by
  constructor
  · intro h
    cases h with
    | whole hs => exact ⟨s, none, (List.append_nil s).symm, hs, nofun⟩
    | @fraction s t hs ht => exact ⟨s, some t, rfl, hs, fun _ h => Option.mem_some.1 h ▸ ht⟩
  · rintro ⟨whole, _ | t, rfl, hw, ht⟩
    · exact (List.append_nil whole).symm ▸ .whole hw
    · exact .fraction hw (ht t rfl)

/-! ### Floating point -/

theorem toLower_of_isDigit {c : Char} (h : c.isDigit = true) : c.toLower = c := by
  have hlt : ¬ (c.val ≥ 'A'.val ∧ c.val ≤ 'Z'.val) := by
    simp only [Char.isDigit, Bool.and_eq_true, decide_eq_true_eq, UInt32.le_iff_toNat_le] at h ⊢
    rintro ⟨hA, -⟩
    exact absurd (Nat.le_trans hA h.2) (by decide)
  exact dif_neg hlt

namespace Decimal

/-- A numeral is read with its point, and has no exponent. -/
theorem ofChars?_numeral {whole : List Char} {fraction : Option (List Char)}
    (hw : IsDigits whole) (hf : ∀ t ∈ fraction, IsDigits t) :
    ofChars? (whole ++ fractionText fraction) = some (decimalOf whole fraction) := by
  cases fraction with
  | none =>
    have htake := hw.takeWhile_append (r := []) nofun
    have hdrop := hw.dropWhile_append (r := []) nofun
    rw [fractionText, ofChars?, htake, hdrop]
    simp [ofParts?, hw.1, exponent?, decimalOf, ofDigits_eq_decimalValue]
  | some t =>
    have ht := hf t rfl
    have hpoint : ∀ c ∈ ('.' :: t).head?, c.isDigit = false := by
      rintro _ ⟨⟩
      rfl
    have htake := ht.takeWhile_append (r := []) nofun
    have hdrop := ht.dropWhile_append (r := []) nofun
    rw [List.append_nil] at htake hdrop
    rw [fractionText, ofChars?, hw.takeWhile_append hpoint, hw.dropWhile_append hpoint]
    simp [htake, hdrop, ofParts?, hw.1, exponent?, decimalOf, ofDigits_eq_decimalValue]

end Decimal

namespace BinaryFormat

variable (f : BinaryFormat)

/-- A text that starts with a digit is no name. -/
theorem readMagnitude_of_isDigit {c : Char} (hc : c.isDigit = true) (s : List Char) :
    f.readMagnitude (c :: s) = match Decimal.ofChars? (c :: s) with
      | some d => .ok (f.ofDecimal d)
      | none => .error .invalidFloat := by
  have starts : ∀ name : String, String.ofList ((c :: s).map Char.toLower) = name →
      name.toList.head? = some c := by
    rintro _ rfl
    rw [String.toList_ofList, List.map_cons, List.head?_cons, toLower_of_isDigit hc]
  unfold readMagnitude
  split
  · next h => cases starts _ h; cases hc
  · next h => cases starts _ h; cases hc
  · next h => cases starts _ h; cases hc
  · rfl

/-- A numeral is read as the magnitude nearest to its decimal number. -/
theorem read_numeral {whole : List Char} {fraction : Option (List Char)}
    (hw : IsDigits whole) (hf : ∀ t ∈ fraction, IsDigits t) :
    f.read (whole ++ fractionText fraction) = .ok (f.ofDecimal (decimalOf whole fraction)) := by
  obtain ⟨c, s, hcons, hc⟩ :=
    (isNumeral_iff.2 ⟨whole, fraction, rfl, hw, hf⟩ : IsNumeral _).exists_cons
  have hread : f.read (c :: s) = f.readMagnitude (c :: s) := by
    unfold read
    split
    · next h => cases h
    · next h => cases h; cases hc
    · next h => cases h; cases hc
    · rfl
  rw [hcons, hread, readMagnitude_of_isDigit f hc, ← hcons, Decimal.ofChars?_numeral hw hf]

end BinaryFormat

/-! ### Literals -/

namespace Numeric

/-- A type refuses a literal, in these words. -/
def Refuses (α : Type) [Numeric α] (l wording : String) : Prop :=
  ∃ e : Unreadable, parse (α := α) l = .error e ∧ e.text = l ∧ e.kind = kind α ∧
    e.reason.message = wording

/-- A literal is read as a value that it may only have if it is finite. -/
structure ReadsFinite {α : Type} [Numeric α] (l : String) (v : α) : Prop where
  ok : isFinite v = true → parse l = .ok v
  outOfRange : isFinite v = false → Refuses α l "out of range"

theorem readsFinite_of_read {α : Type} [Numeric α] {l : String} {v : α}
    (h : read l.toList = .ok v) : ReadsFinite l v where
  ok hv := by
    rw [parse, readFinite, h, Outcome.ok_bind, if_pos hv]
    rfl
  outOfRange hv := by
    refine ⟨⟨l, kind α, .outOfRange⟩, ?_, rfl, rfl, rfl⟩
    rw [parse, readFinite, h, Outcome.ok_bind, if_neg (by simp [hv])]
    rfl

/-- A literal is read in a width with the given greatest integer, by the integer before the point
and by whether there is a point. -/
structure ReadsInWidth (bits : Nat) [Numeric (Signed bits)] (greatest : Nat) (l : String) (n : Nat)
    (fraction : Option (List Char)) : Prop where
  /-- What is too large is met before the point. -/
  tooLarge : greatest < n → Refuses (Signed bits) l "number too large to fit in target type"
  point : n ≤ greatest → fraction ≠ none →
    Refuses (Signed bits) l "invalid digit found in string"
  whole : n ≤ greatest → fraction = none → ∃ v : Signed bits, parse l = .ok v ∧ v.val = n

end Numeric

open Numeric (Refuses ReadsFinite ReadsInWidth)

/-- What a numeral stands for in each kind: `whole` are its digits before the point, and `fraction`
those behind it, if there is a point. -/
structure NumeralMeaning (l : String) (whole : List Char) (fraction : Option (List Char)) :
    Prop where
  toList_eq : l.toList = whole ++ fractionText fraction
  whole_isDigits : IsDigits whole
  fraction_isDigits : ∀ t ∈ fraction, IsDigits t
  bigint_whole : fraction = none → Numeric.parse l = .ok (decimalValue whole : Int)
  bigint_point : fraction ≠ none → Refuses Int l "invalid digit found in string"
  int32 : ReadsInWidth 32 2147483647 l (decimalValue whole) fraction
  int64 : ReadsInWidth 64 9223372036854775807 l (decimalValue whole) fraction
  float32 : ReadsFinite l
    (Float32.ofBits (UInt32.ofNat (BinaryFormat.single.ofDecimal (decimalOf whole fraction))))
  float64 : ReadsFinite l
    (Float.ofBits (UInt64.ofNat (BinaryFormat.double.ofDecimal (decimalOf whole fraction))))

/-- A reader's error is a refusal, in the words of its reason. -/
theorem refuses_of_read {α : Type} [Numeric α] {l : String} {r : Reason}
    (h : (Numeric.read l.toList : Except Reason α) = .error r) : Refuses α l r.message :=
  ⟨⟨l, Numeric.kind α, r⟩, by rw [Numeric.parse, Numeric.readFinite, h]; rfl, rfl, rfl, rfl⟩

/-- In a fixed width the integer before the point decides, and then the point. -/
theorem readsInWidth {bits greatest : Nat} [Numeric (Signed bits)] [HasWidth bits]
    (hg : half bits = greatest + 1) {l : String} {whole : List Char}
    {fraction : Option (List Char)} (hl : l.toList = whole ++ fractionText fraction)
    (hw : IsDigits whole) : ReadsInWidth bits greatest l (decimalValue whole) fraction := by
  have hread : (Numeric.read l.toList : Except Reason (Signed bits)) =
      Signed.fitted bits (decimalValue whole) >>= fun w =>
        Signed.readDigits false w (fractionText fraction) := by
    rw [HasWidth.read_eq, hl, Signed.read_digits_append hw, ofDigits_eq_decimalValue]
  have hfits : Signed.Fits bits (decimalValue whole) ↔ decimalValue whole ≤ greatest := by
    have := half_pos bits
    constructor
    · rintro ⟨-, hbound⟩
      omega
    · intro hle
      constructor <;> omega
  constructor
  case tooLarge =>
    intro hlt
    refine refuses_of_read (r := .tooLarge) ?_
    rw [hread, Signed.fitted_of_not_fits fun hf => Nat.not_le.2 hlt (hfits.1 hf)]
    rfl
  all_goals intro hle hfraction
  all_goals
    have hf := hfits.2 hle
    have hv : Signed.fitted bits (decimalValue whole) = .ok ⟨_, hf.1, hf.2⟩ :=
      Signed.fitted_eq_ok_iff.2 rfl
    rw [hv, Outcome.ok_bind] at hread
  case point =>
    obtain ⟨t, rfl⟩ := Option.ne_none_iff_exists'.1 hfraction
    exact refuses_of_read (r := .invalidDigit) hread
  case whole =>
    subst hfraction
    refine ⟨⟨_, hf.1, hf.2⟩, ?_, rfl⟩
    rw [parse_eq_mapError_read HasWidth.isFinite_eq, hread]
    rfl

/-- **Numerals have their meaning in each kind.** -/
theorem IsNumeral.exists_meaning {s : List Char} (h : IsNumeral s) :
    ∃ whole fraction, NumeralMeaning (String.ofList s) whole fraction := by
  obtain ⟨whole, fraction, rfl, hw, hf⟩ := isNumeral_iff.1 h
  have hl : (String.ofList (whole ++ fractionText fraction)).toList =
      whole ++ fractionText fraction := String.toList_ofList
  refine ⟨whole, fraction, ?_⟩
  constructor
  case toList_eq => exact hl
  case whole_isDigits => exact hw
  case fraction_isDigits => exact hf
  case int32 | int64 => exact readsInWidth rfl hl hw
  case bigint_whole =>
    rintro rfl
    have hread : Integer.read (whole ++ fractionText none) = .ok (decimalValue whole : Int) := by
      rw [fractionText, List.append_nil, Integer.read_digits hw, ofDigits_eq_decimalValue]
    rw [parse_eq_mapError_read (fun _ => rfl), hl]
    show (Integer.read _).mapError _ = _
    rw [hread]
    rfl
  case bigint_point =>
    intro hne
    obtain ⟨t, rfl⟩ := Option.ne_none_iff_exists'.1 hne
    refine refuses_of_read (r := .invalidDigit) ?_
    rw [hl]
    exact Integer.read_fraction hw
  case float32 =>
    refine Numeric.readsFinite_of_read ?_
    rw [hl]
    show (BinaryFormat.single.read _).map _ = _
    rw [BinaryFormat.read_numeral _ hw hf]
    rfl
  case float64 =>
    refine Numeric.readsFinite_of_read ?_
    rw [hl]
    show (BinaryFormat.double.read _).map _ = _
    rw [BinaryFormat.read_numeral _ hw hf]
    rfl

/-! ### Other readers -/

/-- The type with another reader. -/
@[reducible] def Numeric.withRead {α : Type} [N : Numeric α]
    (read : List Char → Except Reason α) : Numeric α :=
  { N with read := read }

section

variable {α : Type} [Numeric α] {read : List Char → Except Reason α}

theorem parse_withRead {s : List Char} (h : read s = Numeric.read s) :
    @Numeric.parse α (Numeric.withRead read) (String.ofList s) =
      Numeric.parse (String.ofList s) := by
  have hfinite : @Numeric.readFinite α (Numeric.withRead read) s = Numeric.readFinite s := by
    show (read s >>= fun v => if Numeric.isFinite v then return v else throw .outOfRange) = _
    rw [h]
    rfl
  show (@Numeric.readFinite α (Numeric.withRead read) _).mapError _ = _
  rw [Numeric.parse, String.toList_ofList, hfinite]
  rfl

theorem Terminal.Fits.token_withRead {q : Expecting} {t : Terminal} (ht : t.Fits q)
    (h : ∀ s, IsNumeral s → read s = Numeric.read s) :
    @Terminal.token α (Numeric.withRead read) t = t.token := by
  cases ht with
  | number _ hs => exact congrArg (Except.map Token.operand) (parse_withRead (h _ hs))
  | negation | opening | closing | binary => rfl

/-- Terminals that follow one another become the same tokens. -/
theorem Follows.mapM_token_withRead {q : Expecting} {ts : List Terminal} (ht : Follows q ts)
    (h : ∀ s, IsNumeral s → read s = Numeric.read s) :
    ts.mapM (@Terminal.token α (Numeric.withRead read)) = ts.mapM Terminal.token := by
  induction ht with
  | done => rfl
  | step ht _ ih => rw [List.mapM_cons, List.mapM_cons, ht.token_withRead h, ih]

/-- The computation reads nothing. -/
theorem evaluatePostfix_withRead (ts : List (Token α)) :
    @evaluatePostfix α (Numeric.withRead read) ts = evaluatePostfix ts := by
  have key : ∀ stack : List α, @Token.applyAll α (Numeric.withRead read) stack ts =
      Token.applyAll stack ts := by
    induction ts with
    | nil => exact fun _ => rfl
    | cons t ts ih =>
      intro stack
      rw [@Token.applyAll_cons α (Numeric.withRead read), Token.applyAll_cons]
      have happly : @Token.apply α (Numeric.withRead read) stack t = Token.apply stack t := rfl
      rw [happly]
      exact congrArg _ (funext ih)
  rw [@evaluatePostfix.eq_def α (Numeric.withRead read), key]
  rfl

/-- **Only numerals are read.**  A text has the value that it has with any other reader that reads
numerals alike, whatever this makes of other texts. -/
theorem evaluate_withRead (h : ∀ s, IsNumeral s → read s = Numeric.read s) (text : String) :
    @evaluate α (Numeric.withRead read) text = evaluate text := by
  have hpostfix : @postfixOf α (Numeric.withRead read) text = postfixOf text := by
    cases hv : validate text with
    | error e =>
      exact (@postfixOf_of_violation α (Numeric.withRead read) _ _ hv).trans
        (postfixOf_of_violation hv).symm
    | ok _ =>
      obtain ⟨ts, hf⟩ := validate_eq_ok_iff.1 hv
      rw [@postfixOf_of_format α (Numeric.withRead read) _ _ hf, postfixOf_of_format hf,
        (format_eq_ok_iff.1 hf).1.mapM_token_withRead h]
  rw [@evaluate_eq α (Numeric.withRead read), evaluate_eq, hpostfix]
  exact congrArg _ (funext evaluatePostfix_withRead)

end

/-! ### The lexer's numerals -/

/-- What the lexer gives as numerals are numerals. -/
theorem Lexeme.isNumeral_of_mem_numerals {text : String} {ls : List Lexeme}
    (h : tokenize text = .ok ls) {l : String} (hl : l ∈ numerals ls) : IsNumeral l.toList := by
  obtain ⟨ts, hcut, rfl⟩ := tokenize_eq_ok_iff.1 h
  obtain ⟨hmem, hdigit⟩ := List.mem_filter.1 hl
  rw [map_text_tile] at hmem
  obtain ⟨t, ht, rfl⟩ := List.mem_map.1 hmem
  rw [String.toList_ofList] at hdigit ⊢
  cases hcut.separate.isLexeme t ht with
  | symbol hc =>
    have hd : (Option.some _).any Char.isDigit = true := hdigit
    rw [Option.any_some] at hd
    simp [isSymbol_of_isDigit hd] at hc
  | numeral hn => exact hn

/-- Each numeral is one of them. -/
theorem IsNumeral.exists_tokenize {s : List Char} (h : IsNumeral s) :
    ∃ ls, tokenize (String.ofList s) = .ok ls ∧ String.ofList s ∈ Lexeme.numerals ls := by
  have hseparate : Separate [s] := ⟨List.forall_mem_singleton.2 (.numeral h), .singleton s⟩
  have hcut := hseparate.cut_flatten
  rw [← hseparate.compact_flatten, List.flatten_singleton] at hcut
  refine ⟨_, tokenize_of_cut (r := []) (by rwa [String.toList_ofList]), ?_⟩
  obtain ⟨c, u, rfl, hc⟩ := h.exists_cons
  refine List.mem_filter.2 ⟨?_, by simp [hc]⟩
  rw [Lexeme.map_text_tile]
  exact List.mem_cons_self

/-- **What literals mean.**  Each literal that the lexer finds in a text, and that can be any
numeral, has the meaning of its digits in each kind; and the value of a text depends on no other
text's reading. -/
theorem literals_mean :
    (∀ (text : String) (ls : List Lexeme), tokenize text = .ok ls →
      ∀ l ∈ Lexeme.numerals ls, ∃ whole fraction, NumeralMeaning l whole fraction) ∧
    (∀ s, IsNumeral s →
      ∃ ls, tokenize (String.ofList s) = .ok ls ∧ String.ofList s ∈ Lexeme.numerals ls) ∧
    ∀ (α : Type) [Numeric α] (read : List Char → Except Reason α),
      (∀ s, IsNumeral s → read s = Numeric.read s) →
      ∀ text, @evaluate α (Numeric.withRead read) text = evaluate text := by
  refine ⟨fun text ls h l hl => ?_, fun s => IsNumeral.exists_tokenize,
    fun α _ read h => evaluate_withRead h⟩
  have := (Lexeme.isNumeral_of_mem_numerals h hl).exists_meaning
  rwa [String.ofList_toList] at this

/-- A literal with leading zeros, too large for 32 bits, in front of a fraction; and a reader that
takes each text with a sign for zero. -/
theorem literals_mean_zeros :
    tokenize "1 -00002147483648.5" =
      .ok [⟨"1", 0, 1⟩, ⟨"-", 1, 2⟩, ⟨"00002147483648.5", 2, 18⟩] ∧
    (∃ whole fraction, NumeralMeaning "00002147483648.5" whole fraction) ∧
    (∃ ls, tokenize (String.ofList ['0', '7']) = .ok ls ∧
      String.ofList ['0', '7'] ∈ Lexeme.numerals ls) ∧
    @evaluate Int (Numeric.withRead fun s =>
      if s.head? = some '-' then .ok 0 else Integer.read s) "-7" = evaluate "-7" := by
  have ht : tokenize "1 -00002147483648.5" =
      .ok [⟨"1", 0, 1⟩, ⟨"-", 1, 2⟩, ⟨"00002147483648.5", 2, 18⟩] := by decide +kernel
  obtain ⟨hmeaning, htokenize, hreader⟩ := literals_mean
  refine ⟨ht, hmeaning _ _ ht "00002147483648.5" (by decide), ?_, ?_⟩
  · exact htokenize ['0', '7'] (.whole ⟨nofun, by simp⟩)
  · refine hreader Int _ (fun s hs => ?_) "-7"
    obtain ⟨c, u, rfl, hc⟩ := hs.exists_cons
    refine if_neg fun h => ?_
    cases Option.some.inj h
    cases hc

/-- The integer is met before the point. -/
example : Numeric.parse (α := Signed 32) "00002147483648.5" =
    .error ⟨"00002147483648.5", .int32, .tooLarge⟩ := rfl

end InfixArith
