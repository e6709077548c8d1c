import InfixArith.Expression.Grammar
import InfixArith.Proofs.Balance
import InfixArith.Proofs.Spelling
import Mathlib.Data.List.DropRight

/-!
# The format without its reader

A terminal *fits* where the format expects one of its sort (`Terminal.Fits`), and terminals
*follow* an expectation when each fits after the one before it and the last completes an operand
(`Follows`).  Nothing here reads characters.

`terminals_eq_ok_iff`: the reader accepts a text exactly when the text spells terminals that
follow, and these are what it gives.  So a text has at most one list of terminals
(`Follows.unique`), and its parentheses are theirs (`Follows.marks_eq`).
-/

namespace InfixArith

namespace Terminal

/-- A terminal stands where one of its sort may come. -/
inductive Fits : Expecting → Terminal → Prop where
  | negation : Fits .group .negation
  | opening {q : Expecting} (h : q ≠ .continuation) : Fits q .opening
  | number {q : Expecting} (h : q ≠ .continuation) {s : List Char} (hs : IsNumeral s) :
      Fits q (.number s)
  | closing : Fits .continuation .closing
  | binary (op : BinaryOp) : Fits .continuation (.binary op)

/-! ### One terminal -/

theorem isSymbol_symbol (op : BinaryOp) : Lexeme.isSymbol op.symbol = true := by
  cases op <;> rfl

theorem operand?_number {s r : List Char} (h : NumeralEnds s r) :
    operand? (s ++ r) = some (.number s, r) := by
  obtain ⟨c, u, rfl, hc⟩ := h.isNumeral.exists_cons
  have hne : c ≠ '(' := fun e => by subst e; cases hc
  unfold operand?
  split
  · next heq => exact absurd (List.cons.inj heq).1 hne
  · rw [numeral?_eq_some_iff.2 ⟨rfl, h⟩]
    rfl

/-- What is read as an operand, or in front of one, fits where an operand may come. -/
theorem fits_of_operand? {q : Expecting} (hq : q ≠ .continuation) {s r : List Char} {t : Terminal}
    (h : operand? s = some (t, r)) : Fits q t := by
  unfold operand? at h
  split at h
  · cases h
    exact .opening hq
  · obtain ⟨⟨t', r'⟩, hn, he⟩ := Option.map_eq_some_iff.1 h
    cases he
    exact .number hq (isNumeral_of_numeral? hn)

/-- What is read fits. -/
theorem fits_of_read? {q : Expecting} {s r : List Char} {t : Terminal}
    (h : read? q s = some (t, r)) : Fits q t := by
  unfold read? at h
  split at h
  · cases h
    exact .negation
  · exact fits_of_operand? (by decide) h
  · exact fits_of_operand? (by decide) h
  · cases h
    exact .closing
  · obtain ⟨op, -, he⟩ := Option.map_eq_some_iff.1 h
    cases he
    exact .binary op
  · cases h

/-- A number is read as the lexer reads it. -/
theorem numeral?_of_read? {q : Expecting} {s n r : List Char}
    (h : read? q s = some (.number n, r)) : Lexeme.numeral? s = some (n, r) := by
  have operand : ∀ {s : List Char}, operand? s = some (.number n, r) →
      Lexeme.numeral? s = some (n, r) := by
    intro s h
    unfold operand? at h
    split at h
    · cases h
    · obtain ⟨p, hn, he⟩ := Option.map_eq_some_iff.1 h
      cases he
      exact hn
  unfold read? at h
  split at h
  · cases h
  · exact operand h
  · exact operand h
  · cases h
  · obtain ⟨op, -, he⟩ := Option.map_eq_some_iff.1 h
    cases he
  · cases h

/-- A terminal that fits is read back, a number only in front of what cannot make it longer. -/
theorem Fits.read?_append {q : Expecting} {t : Terminal} (h : Fits q t) {r : List Char}
    (hr : ∀ n, t = .number n → NumeralEnds n r) : read? q (t.text ++ r) = some (t, r) := by
  cases h with
  | negation => rfl
  | opening hq => cases q with
    | group | operand => rfl
    | continuation => exact absurd rfl hq
  | @number _ hq s hs =>
    have key := operand?_number (hr s rfl)
    cases q with
    | group =>
      obtain ⟨c, u, rfl, hc⟩ := hs.exists_cons
      have hne : c ≠ '-' := fun e => by subst e; cases hc
      unfold read?
      split
      · next heq => exact absurd (List.cons.inj heq).1 hne
      · exact key
      all_goals contradiction
    | operand => exact key
    | continuation => exact absurd rfl hq
  | closing => rfl
  | binary op => cases op <;> rfl

/-- A number that fits is a numeral. -/
theorem Fits.isNumeral {q : Expecting} {n : List Char} (h : Fits q (.number n)) : IsNumeral n := by
  cases h
  assumption

theorem Fits.text_ne_nil {q : Expecting} {t : Terminal} (h : Fits q t) : t.text ≠ [] := by
  cases h with
  | number _ hs => exact hs.ne_nil
  | negation | opening | closing | binary => exact nofun

/-- No terminal holds a blank. -/
theorem Fits.isBlank_eq_false {q : Expecting} {t : Terminal} (h : Fits q t) {c : Char}
    (hc : c ∈ t.text) : Text.isBlank c = false := by
  cases h with
  | number _ hs =>
    rcases hs.digit_or_point hc with hd | rfl
    · exact isBlank_of_isDigit hd
    · rfl
  | negation | opening | closing =>
    obtain rfl := List.mem_singleton.1 hc
    rfl
  | binary op =>
    obtain rfl := List.mem_singleton.1 hc
    exact isBlank_of_isSymbol (isSymbol_symbol op)

/-- The parentheses of a terminal's text are the terminal itself, if it is one. -/
theorem Fits.marks_text {q : Expecting} {t : Terminal} (h : Fits q t) :
    Balanced.marks (· == '(') (· == ')') t.text =
      Balanced.marks (· == Terminal.opening) (· == Terminal.closing) [t] := by
  cases h with
  | @number _ _ s hs =>
    refine Balanced.marks_nil_of_forall fun c hc => ?_
    rcases hs.digit_or_point hc with hd | rfl
    · constructor <;> refine beq_false_of_ne fun e => ?_ <;> subst e <;> cases hd
    · decide
  | negation | opening | closing => rfl
  | binary op => cases op <;> rfl

end Terminal

/-! ### Terminals in a row -/

/-- Each terminal fits after the one before it, and the last completes an operand. -/
inductive Follows : Expecting → List Terminal → Prop where
  | done : Follows .continuation []
  | step {q : Expecting} {t : Terminal} {ts : List Terminal} (h : t.Fits q)
      (hs : Follows t.follow ts) : Follows q (t :: ts)

theorem terminals_of_read?_some {q : Expecting} {s r : List Char} {t : Terminal}
    (h : Terminal.read? q (skipBlanks s) = some (t, r)) :
    terminals q s = (terminals t.follow r).map (t :: ·) := by
  rw [terminals]
  split <;> simp_all

theorem terminals_of_read?_none {q : Expecting} {s : List Char}
    (h : Terminal.read? q (skipBlanks s) = none) :
    terminals q s =
      if q = .continuation ∧ skipBlanks s = [] then .ok [] else .error (q, skipBlanks s) := by
  rw [terminals]
  split <;> simp_all

theorem skipBlanks_append {b s : List Char} (hb : IsBlanks b)
    (hs : ∀ c ∈ s.head?, Text.isBlank c = false) : skipBlanks (b ++ s) = s := by
  rw [skipBlanks, List.dropWhile_append_of_pos hb]
  cases s with
  | nil => rfl
  | cons c s => simp [hs c rfl]

theorem skipBlanks_idem (s : List Char) : skipBlanks (skipBlanks s) = skipBlanks s :=
  List.dropWhile_idempotent _ _

theorem exists_blanks_append (s : List Char) : ∃ b, IsBlanks b ∧ s = b ++ skipBlanks s :=
  ⟨s.takeWhile Text.isBlank, fun _ hc => List.mem_takeWhile_imp hc,
    List.takeWhile_append_dropWhile.symm⟩

/-- Blanks are skipped as far as the next terminal. -/
theorem Terminal.Fits.skipBlanks_append {q : Expecting} {t : Terminal} (h : t.Fits q)
    {b : List Char} (hb : IsBlanks b) (r : List Char) :
    skipBlanks (b ++ t.text ++ r) = t.text ++ r := by
  rw [List.append_assoc]
  refine InfixArith.skipBlanks_append hb fun c hc => ?_
  obtain ⟨d, u, hd⟩ := List.exists_cons_of_ne_nil h.text_ne_nil
  rw [hd] at hc
  cases hc
  exact h.isBlank_eq_false (by simp [hd])

theorem skipBlanks_eq_nil {s : List Char} (h : IsBlanks s) : skipBlanks s = [] := by
  have := skipBlanks_append (s := []) h nofun
  rwa [List.append_nil] at this

namespace Follows

theorem cons_iff {q : Expecting} {t : Terminal} {ts : List Terminal} :
    Follows q (t :: ts) ↔ t.Fits q ∧ Follows t.follow ts :=
  ⟨fun h => by cases h with | step h hs => exact ⟨h, hs⟩, fun h => .step h.1 h.2⟩

/-- After an operand nothing comes that could make a number longer. -/
theorem stopsNumeral {ts : List Terminal} (h : Follows .continuation ts) {s : List Char}
    (hs : Spaced (ts.map Terminal.text) s) : StopsNumeral s := by
  have blanks : ∀ {b r : List Char}, IsBlanks b → StopsNumeral r → StopsNumeral (b ++ r) := by
    rintro (_ | ⟨c, b⟩) r hb hr
    · exact hr
    · rcases isBlank_iff.1 (hb c (by simp)) with rfl | rfl
      · exact .cons rfl (by decide) _
      · exact .cons rfl (by decide) _
  cases h with
  | done =>
    have := blanks (Spaced.nil_iff.1 hs) stopsNumeral_nil
    rwa [List.append_nil] at this
  | @step _ t ts h _ =>
    obtain ⟨b, r, hb, rfl, -⟩ := Spaced.cons_iff.1 hs
    rw [List.append_assoc]
    refine blanks hb ?_
    cases h with
    | opening hq | number hq => exact absurd rfl hq
    | closing => exact .cons rfl (by decide) _
    | binary op => cases op <;> exact .cons rfl (by decide) _

/-- Behind the blanks the first terminal stands. -/
theorem head?_skipBlanks {q : Expecting} {ts : List Terminal} (h : Follows q ts) {s : List Char}
    (hs : Spaced (ts.map Terminal.text) s) :
    (skipBlanks s).head? = ts.head?.bind fun t => t.text.head? := by
  cases h with
  | done => rw [skipBlanks_eq_nil (Spaced.nil_iff.1 hs)]; rfl
  | @step _ t ts h _ =>
    obtain ⟨b, r, hb, rfl, -⟩ := Spaced.cons_iff.1 hs
    obtain ⟨c, u, hc⟩ := List.exists_cons_of_ne_nil h.text_ne_nil
    rw [h.skipBlanks_append hb]
    simp [hc]

theorem spaced_skipBlanks {q : Expecting} {ts : List Terminal} (h : Follows q ts) {s : List Char}
    (hs : Spaced (ts.map Terminal.text) s) : Spaced (ts.map Terminal.text) (skipBlanks s) := by
  cases h with
  | done => rw [skipBlanks_eq_nil (Spaced.nil_iff.1 hs)]; exact .blanks nofun
  | step h _ =>
    obtain ⟨b, r, hb, rfl, hr⟩ := Spaced.cons_iff.1 hs
    rw [h.skipBlanks_append hb]
    exact (Spaced.singleton _).append hr

/-- The reader gives back terminals that follow, from any text that spells them. -/
theorem terminals_eq {q : Expecting} {ts : List Terminal} (h : Follows q ts) {s : List Char}
    (hs : Spaced (ts.map Terminal.text) s) : terminals q s = .ok ts := by
  induction h generalizing s with
  | done =>
    have : skipBlanks s = [] := skipBlanks_eq_nil (Spaced.nil_iff.1 hs)
    rw [terminals_of_read?_none (by rw [this]; rfl), if_pos ⟨rfl, this⟩]
  | @step q t ts h hts ih =>
    obtain ⟨b, r, hb, rfl, hr⟩ := Spaced.cons_iff.1 hs
    have hread : Terminal.read? q (skipBlanks (b ++ t.text ++ r)) = some (t, r) := by
      rw [h.skipBlanks_append hb]
      refine h.read?_append ?_
      rintro n rfl
      exact h.isNumeral.ends (hts.stopsNumeral hr)
    rw [terminals_of_read?_some hread, ih hr]
    rfl

end Follows

/-- **The format without its reader.** -/
theorem terminals_eq_ok_iff {q : Expecting} {s : List Char} {ts : List Terminal} :
    terminals q s = .ok ts ↔ Follows q ts ∧ Spaced (ts.map Terminal.text) s := by
  refine ⟨fun h => ?_, fun h => h.1.terminals_eq h.2⟩
  -- the reader goes on with a shorter text, not with a part of a list
  induction hn : s.length using Nat.strong_induction_on generalizing q s ts with
  | _ n ih =>
    obtain ⟨b, hb, hs⟩ := exists_blanks_append s
    cases hread : Terminal.read? q (skipBlanks s) with
    | none =>
      rw [terminals_of_read?_none hread] at h
      split at h
      · next hq =>
        cases h
        obtain ⟨rfl, hnil⟩ := hq
        rw [hnil, List.append_nil] at hs
        exact ⟨.done, .blanks (hs ▸ hb)⟩
      · cases h
    | some p =>
      obtain ⟨t, r⟩ := p
      rw [terminals_of_read?_some hread] at h
      have hlt : r.length < n := by
        have := Terminal.length_lt_of_read? hread
        have := length_skipBlanks_le s
        omega
      cases hr : terminals t.follow r with
      | error e => rw [hr] at h; cases h
      | ok us =>
        rw [hr] at h
        cases h
        obtain ⟨hf, hsp⟩ := ih _ hlt hr rfl
        refine ⟨.step (Terminal.fits_of_read? hread) hf, ?_⟩
        rw [hs, Terminal.append_of_read? hread, ← List.append_assoc]
        exact .word hb hsp

namespace Follows

/-- A text spells one list of terminals at most. -/
theorem unique {q : Expecting} {ts us : List Terminal} (ht : Follows q ts) (hu : Follows q us)
    {s : List Char} (hts : Spaced (ts.map Terminal.text) s)
    (hus : Spaced (us.map Terminal.text) s) : ts = us := by
  have := (ht.terminals_eq hts).symm.trans (hu.terminals_eq hus)
  cases this
  rfl

/-- The parentheses of a text are those of the terminals it spells. -/
theorem marks_eq {q : Expecting} {ts : List Terminal} (h : Follows q ts) {s : List Char}
    (hs : Spaced (ts.map Terminal.text) s) : Balanced.marks (· == '(') (· == ')') s =
      Balanced.marks (· == Terminal.opening) (· == Terminal.closing) ts := by
  have blanks : ∀ {b : List Char}, IsBlanks b → Balanced.marks (· == '(') (· == ')') b = [] := by
    intro b hb
    refine Balanced.marks_nil_of_forall fun c hc => ?_
    rcases isBlank_iff.1 (hb c hc) with rfl | rfl <;> decide
  induction h generalizing s with
  | done => exact blanks (Spaced.nil_iff.1 hs)
  | @step q t ts h _ ih =>
    obtain ⟨b, r, hb, rfl, hr⟩ := Spaced.cons_iff.1 hs
    rw [Balanced.marks_append, Balanced.marks_append, blanks hb, h.marks_text, ih hr,
      List.nil_append, ← Balanced.marks_append]
    rfl

/-- A text that spells terminals is balanced when they are. -/
theorem balanced_text_iff {q : Expecting} {ts : List Terminal} (h : Follows q ts) {s : List Char}
    (hs : Spaced (ts.map Terminal.text) s) :
    Balanced.Text s ↔ Balanced (· == Terminal.opening) (· == Terminal.closing) ts :=
  (Balanced.balanced_iff_text (fun t ht => by rw [eq_of_beq ht]; rfl) (h.marks_eq hs).symm).symm

end Follows

theorem format_eq_ok_iff {text : String} {ts : List Terminal} :
    format text = .ok ts ↔ Follows .group ts ∧ Spaced (ts.map Terminal.text) text.toList := by
  rw [← terminals_eq_ok_iff, format]
  cases terminals .group text.toList with
  | ok us => exact ⟨fun h => by cases h; rfl, fun h => by cases h; rfl⟩
  | error e => exact ⟨nofun, nofun⟩

end InfixArith
