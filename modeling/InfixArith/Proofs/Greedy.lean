import InfixArith.Proofs.Alternation
import InfixArith.Proofs.Matching

/-!
# The grammar, matched greedily

A parsing expression takes back nothing, so it might lose texts that its rules describe, or take
more than they say.  The grammar of the format does neither (`match?_eq_some_iff`): it matches the
texts that spell an alternation, blanks between the terminals and not within them, and finds
exactly these terminals.

*Nothing is added.*  An expression *gives* terminals of a shape (`Peg.Gives`) if, whatever it
matches, the terminals have the shape and the text it takes spells them.  This is closed under the
ways to build expressions.

*Nothing is lost.*  An expression *takes* terminals in front of others (`Peg.Takes`) if it matches
them in any text that spells them all, and stops where the others start.  For a repetition this
needs that it has no match there (`Peg.Refuses`), and what may follow an operand tells: neither a
parenthesis nor a minus can be taken for a part of the operand.
-/

namespace InfixArith

namespace Peg

variable {e f : Peg} {P Q R : List Terminal → Prop} {ts us vs : List Terminal}

/-! ### Nothing is added -/

/-- Terminals of the shape `P`, spelled by the text that was taken off `s`. -/
def Spelled (P : List Terminal → Prop) (s : List Char) (p : List Terminal × List Char) : Prop :=
  P p.1 ∧ ∃ c, s = c ++ p.2 ∧ Spaced (p.1.map Terminal.text) c

theorem Spelled.nil (h : P []) (s : List Char) : Spelled P s ([], s) :=
  ⟨h, [], rfl, .blanks nofun⟩

theorem Spelled.of_skipBlanks {s : List Char} {p : List Terminal × List Char}
    (h : Spelled P (skipBlanks s) p) : Spelled P s p := by
  obtain ⟨hp, c, hc, hs⟩ := h
  obtain ⟨b, hb, hsb⟩ := exists_blanks_append s
  exact ⟨hp, b ++ c, by rw [hsb, hc, List.append_assoc], hs.blanks_append hb⟩

theorem Spelled.append {s r r' : List Char} (h : Spelled P s (ts, r)) (hr : Spelled Q r (us, r'))
    (happend : P ts → Q us → R (ts ++ us)) : Spelled R s (ts ++ us, r') := by
  obtain ⟨hp, c, rfl, hc⟩ := h
  obtain ⟨hq, d, hd, hs⟩ := hr
  refine ⟨happend hp hq, c ++ d, by rw [List.append_assoc]; exact congrArg _ hd, ?_⟩
  rw [List.map_append]
  exact hc.append hs

/-- Whatever the expression matches has the shape `P`. -/
def Gives (e : Peg) (P : List Terminal → Prop) : Prop :=
  ∀ text s p, e.run text skipBlanks s = some p → Spelled P s p

theorem Gives.mono (he : Gives e P) (h : ∀ {ts}, P ts → Q ts) : Gives e Q := by
  intro text s p hr
  obtain ⟨hp, hs⟩ := he text s p hr
  exact ⟨h hp, hs⟩

theorem Gives.seq (he : Gives e P) (hf : Gives f Q)
    (happend : ∀ {ts us}, P ts → Q us → R (ts ++ us)) : Gives (.seq e f) R := by
  intro text s p h
  obtain ⟨ts, r, us, r', hr, hr', rfl⟩ := run_seq_eq_some_iff.1 h
  exact (he _ _ _ hr).append (hf _ _ _ hr').of_skipBlanks happend

theorem Gives.choice (he : Gives e P) (hf : Gives f P) : Gives (.choice e f) P := by
  intro text s p h
  cases hr : e.run text skipBlanks s with
  | none => exact hf _ _ _ ((run_choice_of_none hr).symm.trans h)
  | some q => exact he _ _ _ (hr.trans ((run_choice_of_some hr).symm.trans h))

theorem Gives.option (he : Gives e P) (nil : P []) : Gives e.option P := by
  intro text s p h
  cases hr : e.run text skipBlanks s with
  | none =>
    cases (run_option_of_none hr).symm.trans h
    exact .nil nil s
  | some q => exact he _ _ _ (hr.trans ((run_option_of_some hr).symm.trans h))

theorem spelled_iterate {step : List Char → Option (List Terminal × List Char)}
    (h : ∀ {s p}, step s = some p → Spelled P s p) (nil : Q [])
    (cons : ∀ {ts us}, P ts → Q us → Q (ts ++ us)) (s : List Char) :
    Spelled Q s (iterate step s) := by
  fun_induction iterate step s with
  | case1 s _ => exact .nil nil s
  | case2 s ts r hr _ ih => exact (h hr).append ih cons
  | case3 s ts r hr _ =>
    have := (h hr).append (.nil nil r) cons
    rwa [List.append_nil] at this

theorem Gives.many (he : Gives e P) (nil : Q [])
    (cons : ∀ {ts us}, P ts → Q us → Q (ts ++ us)) : Gives e.many Q := by
  intro text s p h
  cases hr : e.run text skipBlanks s with
  | none =>
    cases (run_many_of_none hr).symm.trans h
    exact .nil nil s
  | some q =>
    cases (run_many_of_some hr).symm.trans h
    have hstep : ∀ {s p}, e.run text skipBlanks (skipBlanks s) = some p → Spelled P s p :=
      fun hr => (he _ _ _ hr).of_skipBlanks
    exact (he _ _ _ hr).append (spelled_iterate hstep nil cons _) cons

theorem gives_symbol {c : Char} {t : Terminal} (ht : t.text = [c]) :
    Gives (symbol c t) (· = [t]) := by
  intro text s p h
  by_cases hs : s.head? = some c
  · obtain ⟨r, rfl⟩ := List.head?_eq_some_iff.1 hs
    cases (run_symbol_cons c t).symm.trans h
    exact ⟨rfl, [c], rfl, ht ▸ Spaced.singleton t.text⟩
  · cases (run_symbol_of_ne t hs).symm.trans h

theorem gives_number : Gives number fun ts => ∃ s, IsNumeral s ∧ ts = [.number s] := by
  intro text s p h
  rw [run_number] at h
  obtain ⟨⟨t, r⟩, hn, rfl⟩ := Option.map_eq_some_iff.1 h
  exact ⟨⟨t, isNumeral_of_numeral? hn, rfl⟩, t, Lexeme.append_of_numeral? hn, Spaced.singleton t⟩

theorem gives_negation : Gives negation.option fun ts => ∃ minus, ts = minusSign minus :=
  ((gives_symbol rfl).mono fun h => ⟨true, h⟩).option ⟨false, rfl⟩

theorem gives_opening : Gives (.seq opening negation.option)
    fun ts => ∃ marked, ts = .opening :: minusSign marked := by
  refine (gives_symbol rfl).seq gives_negation ?_
  rintro _ _ rfl ⟨marked, rfl⟩
  exact ⟨marked, rfl⟩

theorem gives_openings : Gives (.many (.seq opening negation.option))
    fun ts => ∃ marks, ts = openings marks := by
  refine gives_opening.many ⟨[], rfl⟩ ?_
  rintro _ _ ⟨marked, rfl⟩ ⟨marks, rfl⟩
  exact ⟨marked :: marks, (openings_cons marked marks).symm⟩

theorem gives_closings : Gives closing.many fun ts => ∃ n, ts = List.replicate n .closing := by
  refine (gives_symbol rfl).many ⟨0, rfl⟩ ?_
  rintro _ _ rfl ⟨n, rfl⟩
  exact ⟨n + 1, rfl⟩

theorem gives_operand : Gives operand IsOperand := by
  refine gives_openings.seq (gives_number.seq gives_closings (R := fun ts =>
    ∃ s n, IsNumeral s ∧ ts = .number s :: List.replicate n .closing) ?_) ?_
  · rintro _ _ ⟨s, hs, rfl⟩ ⟨n, rfl⟩
    exact ⟨s, n, hs, rfl⟩
  · rintro _ _ ⟨marks, rfl⟩ ⟨s, n, hs, rfl⟩
    exact .number marks hs n

theorem gives_binaryOp : Gives binaryOp fun ts => ∃ op, ts = [.binary op] := by
  have hop : ∀ op, Gives (binary op) fun ts => ∃ op, ts = [.binary op] := fun op =>
    (gives_symbol rfl).mono fun h => ⟨op, h⟩
  exact (hop _).choice ((hop _).choice ((hop _).choice (hop _)))

theorem gives_link : Gives (.seq binaryOp operand)
    fun us => ∃ op vs, IsOperand vs ∧ us = .binary op :: vs := by
  refine gives_binaryOp.seq gives_operand ?_
  rintro _ vs ⟨op, rfl⟩ hv
  exact ⟨op, vs, hv, rfl⟩

/-- What the repetition matches makes an alternation of the operand before it. -/
theorem gives_links : Gives (.many (.seq binaryOp operand))
    fun us => ∀ ts, IsOperand ts → IsAlternation (ts ++ us) := by
  refine gives_link.many ?_ ?_
  · intro ts ht
    rw [List.append_nil]
    exact .operand ht
  · rintro _ us ⟨op, vs, hv, rfl⟩ ih ts ht
    exact .binary op ht (ih vs hv)

theorem gives_calculation : Gives calculation Alternates := by
  have hstart : Gives .start (· = []) := by
    intro text s p h
    rw [run_start, Option.ite_none_right_eq_some] at h
    obtain ⟨-, ⟨⟩⟩ := h
    exact .nil rfl s
  have hstop : Gives .stop (· = []) := by
    intro text s p h
    rw [run_stop, Option.ite_none_right_eq_some] at h
    obtain ⟨-, ⟨⟩⟩ := h
    exact .nil rfl s
  have halternation : Gives (.seq operand (.seq (.many (.seq binaryOp operand)) .stop))
      IsAlternation := by
    refine gives_operand.seq (gives_links.seq hstop (R := fun us =>
      ∀ ts, IsOperand ts → IsAlternation (ts ++ us)) ?_) fun ht hu => hu _ ht
    rintro us _ hu rfl
    rwa [List.append_nil]
  refine hstart.seq (gives_negation.seq halternation (R := Alternates) ?_) ?_
  · rintro _ us ⟨minus, rfl⟩ hu
    exact alternates_iff.2 ⟨minus, us, rfl, hu⟩
  · rintro _ us rfl hu
    exact hu

/-! ### Nothing is lost -/

/-- In front of `us` the expression has no match. -/
def Refuses (e : Peg) (us : List Terminal) : Prop :=
  ∀ text s, Spaced (us.map Terminal.text) s → e.run text skipBlanks (skipBlanks s) = none

/-- In front of `us` the expression matches `ts`, and no more. -/
def Takes (e : Peg) (ts us : List Terminal) : Prop :=
  ∀ text s, Spaced ((ts ++ us).map Terminal.text) s →
    ∃ r, e.run text skipBlanks (skipBlanks s) = some (ts, r) ∧ Spaced (us.map Terminal.text) r

/-- In front of `us` the turns of a repetition match `ts`, and no more. -/
def TakesAll (e : Peg) (ts us : List Terminal) : Prop :=
  ∀ text s, Spaced ((ts ++ us).map Terminal.text) s →
    ∃ r, iterate (fun s => e.run text skipBlanks (skipBlanks s)) s = (ts, r) ∧
      Spaced (us.map Terminal.text) r

theorem Refuses.seq (h : Refuses e us) : Refuses (.seq e f) us :=
  fun text s hs => run_seq_of_none (h text s hs)

theorem Takes.seq (he : Takes e ts (us ++ vs)) (hf : Takes f us vs) :
    Takes (.seq e f) (ts ++ us) vs := by
  intro text s hs
  rw [List.append_assoc] at hs
  obtain ⟨r, hr, hs⟩ := he text s hs
  obtain ⟨r', hr', hs⟩ := hf text r hs
  exact ⟨r', run_seq_eq_some_iff.2 ⟨ts, r, us, r', hr, hr', rfl⟩, hs⟩

theorem Takes.option (h : Takes e ts us) : Takes e.option ts us := by
  intro text s hs
  obtain ⟨r, hr, hs⟩ := h text s hs
  exact ⟨r, run_option_of_some hr, hs⟩

theorem Refuses.option (h : Refuses e us) {q : Expecting} (hu : Follows q us) :
    Takes e.option [] us :=
  fun text s hs => ⟨_, run_option_of_none (h text s hs), hu.spaced_skipBlanks hs⟩

/-- What the expression matches makes the text shorter. -/
def Advances (e : Peg) : Prop :=
  ∀ text s ts r, e.run text skipBlanks s = some (ts, r) → r.length < s.length

theorem Gives.advances (he : Gives e P)
    (hne : ∀ {ts}, P ts → (ts.map Terminal.text).flatten ≠ []) : Advances e := by
  intro text s ts r h
  obtain ⟨hp, c, hs, hc⟩ := he _ _ _ h
  have : c ≠ [] := by
    rintro rfl
    exact hne hp hc.flatten_eq_nil
  have := List.length_pos_iff.2 this
  rw [hs, List.length_append]
  show r.length < c.length + r.length
  omega

theorem Refuses.all (h : Refuses e us) : TakesAll e [] us :=
  fun text s hs => ⟨s, iterate_of_none (h text s hs), hs⟩

/-- One turn more. -/
theorem TakesAll.cons (ha : Advances e) (he : Takes e ts (us ++ vs)) (hm : TakesAll e us vs) :
    TakesAll e (ts ++ us) vs := by
  intro text s hs
  rw [List.append_assoc] at hs
  obtain ⟨r, hr, hs⟩ := he text s hs
  obtain ⟨r', hr', hs⟩ := hm text r hs
  have hlt : r.length < s.length :=
    Nat.lt_of_lt_of_le (ha _ _ _ _ hr) (length_skipBlanks_le s)
  exact ⟨r', by rw [iterate_of_some (s := s) hr hlt, hr'], hs⟩

theorem TakesAll.many (ha : Advances e) (h : TakesAll e ts us) {q : Expecting}
    (hf : Follows q (ts ++ us)) : Takes e.many ts us := by
  intro text s hs
  obtain ⟨r, hr, hs⟩ := h text _ (hf.spaced_skipBlanks hs)
  exact ⟨r, by rw [run_many_eq_iterate (skipBlanks_idem s) fun _ _ => ha _ _ _ _, hr], hs⟩

theorem takes_symbol {c : Char} {t : Terminal} (ht : t.text = [c]) (hc : Text.isBlank c = false)
    (us : List Terminal) : Takes (symbol c t) [t] us := by
  intro text s hs
  obtain ⟨b, r, hb, rfl, hr⟩ := Spaced.cons_iff.1 hs
  refine ⟨r, ?_, hr⟩
  rw [List.append_assoc, skipBlanks_append hb (by simpa [ht] using hc), ht]
  exact run_symbol_cons c t

theorem refuses_symbol {c : Char} (t : Terminal) {q : Expecting} (h : Follows q us)
    (hne : us.head?.bind (fun t => t.text.head?) ≠ some c) : Refuses (symbol c t) us :=
  fun _ _ hs => run_symbol_of_ne t (h.head?_skipBlanks hs ▸ hne)

theorem takes_number {n : List Char} (hn : IsNumeral n) (h : Follows .continuation us) :
    Takes number [.number n] us := by
  intro text s hs
  have hfits : Terminal.Fits .operand (.number n) := .number (by decide) hn
  obtain ⟨b, r, hb, rfl, hr⟩ := Spaced.cons_iff.1 hs
  refine ⟨r, ?_, hr⟩
  rw [hfits.skipBlanks_append hb, run_number]
  exact congrArg _ (numeral?_append hn (h.stopsNumeral hr))

theorem takes_binaryOp (op : BinaryOp) (us : List Terminal) : Takes binaryOp [.binary op] us := by
  intro text s hs
  have hfits : Terminal.Fits .continuation (.binary op) := .binary op
  obtain ⟨b, r, hb, rfl, hr⟩ := Spaced.cons_iff.1 hs
  refine ⟨r, ?_, hr⟩
  rw [hfits.skipBlanks_append hb]
  cases op <;> rfl

/-! ### Operands and what is between them -/

theorem head?_ne_of_isNumeral {s : List Char} (h : IsNumeral s) {c : Char}
    (hc : c.isDigit = false) : s.head? ≠ some c := by
  obtain ⟨d, u, rfl, hd⟩ := h.exists_cons
  rintro ⟨⟩
  exact absurd hd (by simp [hc])

/-- A minus is there or it is not: what an operand starts with is none. -/
theorem takes_negation (h : Follows .operand us) (minus : Bool) :
    Takes negation.option (minusSign minus) us := by
  cases minus with
  | true => exact (takes_symbol rfl rfl us).option
  | false =>
    refine (refuses_symbol _ h ?_).option h
    cases h with
    | step h _ =>
      cases h with
      | opening => exact nofun
      | number _ hs => exact head?_ne_of_isNumeral hs rfl

theorem advances_opening : Advances (.seq opening negation.option) := by
  refine gives_opening.advances ?_
  rintro _ ⟨marked, rfl⟩
  exact nofun

theorem advances_closing : Advances closing := by
  refine (gives_symbol rfl).advances ?_
  rintro _ rfl
  exact nofun

theorem advances_link : Advances (.seq binaryOp operand) := by
  refine gives_link.advances ?_
  rintro _ ⟨op, us, -, rfl⟩
  exact nofun

/-- The number ends the opening parentheses. -/
theorem takesAll_openings (h : Follows .operand us) (hne : us.head? ≠ some .opening)
    (marks : List Bool) : TakesAll (.seq opening negation.option) (openings marks) us := by
  induction marks with
  | nil =>
    refine (refuses_symbol _ h ?_).seq.all
    cases h with
    | step h _ =>
      cases h with
      | opening => exact absurd rfl hne
      | number _ hs => exact head?_ne_of_isNumeral hs rfl
  | cons marked marks ih =>
    have hturn : Takes (.seq opening negation.option) (.opening :: minusSign marked)
        (openings marks ++ us) :=
      .seq (takes_symbol rfl rfl _) (takes_negation (h.openings_append marks) marked)
    rw [openings_cons]
    exact .cons advances_opening hturn ih

/-- The end or a binary operation ends the closing parentheses. -/
theorem takesAll_closings (h : Follows .continuation us) (hne : us.head? ≠ some .closing)
    (n : Nat) : TakesAll closing (List.replicate n .closing) us := by
  induction n with
  | zero =>
    refine (refuses_symbol _ h ?_).all
    cases h with
    | done => exact nofun
    | step h _ =>
      cases h with
      | opening hq | number hq => exact absurd rfl hq
      | closing => exact absurd rfl hne
      | binary op => cases op <;> exact nofun
  | succ n ih => exact .cons advances_closing (takes_symbol rfl rfl _) ih

theorem takes_operand (ht : IsOperand ts) (h : Follows .continuation us)
    (hne : us.head? ≠ some .closing) : Takes operand ts us := by
  cases ht with
  | @number marks s hs n =>
    have hclosings : Follows .continuation (List.replicate n .closing ++ us) := h.closings_append n
    have hnumber : Follows .operand (.number s :: (List.replicate n .closing ++ us)) :=
      .step (.number (by decide) hs) hclosings
    have tail : Takes (.seq number closing.many) (.number s :: List.replicate n .closing) us :=
      .seq (takes_number hs hclosings)
        ((takesAll_closings h hne n).many advances_closing hclosings)
    exact .seq ((takesAll_openings hnumber nofun marks).many advances_opening
      (hnumber.openings_append marks)) tail

/-- An alternation is an operand and what the repetition takes after it. -/
theorem exists_takesAll_links (h : IsAlternation ts) : ∃ us vs, ts = us ++ vs ∧ IsOperand us ∧
    TakesAll (.seq binaryOp operand) vs [] ∧ Follows .continuation vs ∧
      vs.head? ≠ some .closing := by
  induction h with
  | @operand ts h =>
    have hend : Refuses binaryOp [] := by
      intro text s hs
      rw [skipBlanks_eq_nil (Spaced.nil_iff.1 hs)]
      rfl
    exact ⟨ts, [], (List.append_nil ts).symm, h, hend.seq.all, .done, nofun⟩
  | @binary ts us op h _ ih =>
    obtain ⟨us, vs, rfl, hu, hall, hv, hne⟩ := ih
    have hturn : Takes (.seq binaryOp operand) (.binary op :: us) (vs ++ []) := by
      rw [List.append_nil]
      exact .seq (takes_binaryOp op _) (takes_operand hu hv hne)
    exact ⟨ts, .binary op :: (us ++ vs), rfl, h, .cons advances_link hturn hall,
      .step (.binary op) (hu.follows_append hv), nofun⟩

theorem takes_stop : Takes .stop [] [] := by
  intro text s hs
  rw [skipBlanks_eq_nil (Spaced.nil_iff.1 hs)]
  exact ⟨[], rfl, .blanks nofun⟩

theorem takes_alternation (h : IsAlternation ts) :
    Takes (.seq operand (.seq (.many (.seq binaryOp operand)) .stop)) ts [] := by
  obtain ⟨us, vs, rfl, hu, hall, hv, hne⟩ := exists_takesAll_links h
  have hlinks : Takes (.many (.seq binaryOp operand)) vs [] :=
    hall.many advances_link (by rwa [List.append_nil])
  have htail : Takes (.seq (.many (.seq binaryOp operand)) .stop) vs [] := by
    have := hlinks.seq takes_stop
    rwa [List.append_nil] at this
  have hoperand : Takes operand us (vs ++ []) := by
    rw [List.append_nil]
    exact takes_operand hu hv hne
  exact .seq hoperand htail

/-- A text that spells an alternation, with a minus in front or without, is matched. -/
theorem exists_run_calculation (h : Alternates ts) {text : List Char}
    (hs : Spaced (ts.map Terminal.text) text) :
    ∃ r, calculation.run text skipBlanks text = some (ts, r) := by
  obtain ⟨minus, us, rfl, hu⟩ := alternates_iff.1 h
  have hfollows : Follows .operand (us ++ []) := by
    rw [List.append_nil]
    exact hu.follows
  have htakes := (takes_negation hfollows minus).seq (takes_alternation hu)
  obtain ⟨r, hr, -⟩ := htakes text text (by rwa [List.append_nil])
  have hstart : Peg.start.run text skipBlanks text = some ([], text) := by
    rw [run_start, if_pos rfl]
  exact ⟨r, run_seq_eq_some_iff.2 ⟨[], text, _, r, hstart, hr, rfl⟩⟩

/-! ### The whole text -/

/-- What the expression matches reaches to the end of the text. -/
def Exhausts (e : Peg) : Prop :=
  ∀ text s ts r, e.run text skipBlanks s = some (ts, r) → r = []

theorem Exhausts.seq (hf : Exhausts f) : Exhausts (.seq e f) := by
  intro text s ts r h
  obtain ⟨_, _, _, _, -, hr, heq⟩ := run_seq_eq_some_iff.1 h
  cases heq
  exact hf _ _ _ _ hr

theorem exhausts_calculation : Exhausts calculation := by
  have hstop : Exhausts .stop := by
    intro text s ts r h
    rw [run_stop, Option.ite_none_right_eq_some] at h
    obtain ⟨rfl, ⟨⟩⟩ := h
    rfl
  exact hstop.seq.seq.seq.seq

/-- **The grammar, matched greedily.**  It matches the texts that spell an alternation, and finds
its terminals. -/
theorem match?_eq_some_iff {text : List Char} :
    match? text = some ts ↔ Alternates ts ∧ Spaced (ts.map Terminal.text) text := by
  constructor
  · intro h
    obtain ⟨⟨ts, r⟩, hr, rfl⟩ := Option.map_eq_some_iff.1 h
    obtain ⟨halternates, c, hc, hs⟩ := gives_calculation _ _ _ hr
    obtain rfl : r = [] := exhausts_calculation _ _ _ _ hr
    rw [List.append_nil] at hc
    exact ⟨halternates, hc ▸ hs⟩
  · rintro ⟨h, hs⟩
    obtain ⟨r, hr⟩ := exists_run_calculation h hs
    exact Option.map_eq_some_iff.2 ⟨(ts, r), hr, rfl⟩

-- A point belongs to a number only with digits around it and no blank.
example : match? "1.".toList = none ∧ match? "1 .5".toList = none := by decide +kernel

end Peg

/-- The reader of the format and its grammar find the same terminals. -/
theorem match?_eq_some_iff_format {text : String} {ts : List Terminal} :
    Peg.match? text.toList = some ts ↔ format text = .ok ts := by
  rw [Peg.match?_eq_some_iff, format_eq_ok_iff_alternates]

/-- **The language of the format.**  A text keeps to the format exactly when it spells an
alternation, with blanks between the terminals and not within them, and these terminals are what
the grammar finds in it. -/
theorem validate_eq_ok_iff_alternates (text : String) :
    (validate text = .ok () ↔
      ∃ ts, Alternates ts ∧ Spaced (ts.map Terminal.text) text.toList) ∧
    (validate text = .ok () ↔ ∃ ts, Peg.match? text.toList = some ts) ∧
    ∀ ts, Peg.match? text.toList = some ts ↔
      Alternates ts ∧ Spaced (ts.map Terminal.text) text.toList := by
  refine ⟨?_, ?_, fun ts => Peg.match?_eq_some_iff⟩
  · simp only [validate_eq_ok_iff, format_eq_ok_iff_alternates]
  · simp only [validate_eq_ok_iff, match?_eq_some_iff_format]

end InfixArith
