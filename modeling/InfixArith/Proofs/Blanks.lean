import InfixArith.Proofs.Classification
import InfixArith.Proofs.Greedy

/-!
# Blanks

Between the words of an expression blanks may stand at will, and nothing depends on them; within a
numeral none may stand (`insert_blank`).  A place in a text that keeps to the format is one or the
other: it lies between words, or strictly within one (`Spaced.cut`), and of the words only numerals
have a within.

*Between words* a blank leaves the text spelling the same terminals, and all that comes after the
format depends on these alone (`sameResults_of_format`).

*Within a numeral* the words of the text could not have changed, since they are those of the text
without blanks (`terminals_eq_of_compact`), but they are no longer spelled (`Spaced.not_within`).
-/

namespace InfixArith

/-! ### Places in a spaced text -/

/-- The place between `u` and `v` lies strictly within a word: `p` of it stands before the place,
and `q` behind it. -/
structure Within (before : List (List Char)) (p q : List Char) (after : List (List Char))
    (u v : List Char) : Prop where
  left_ne_nil : p ≠ []
  right_ne_nil : q ≠ []
  left : ∃ u', u = u' ++ p ∧ Spaced before u'
  right : ∃ v', v = q ++ v' ∧ Spaced after v'

namespace Spaced

variable {ts : List (List Char)} {u v : List Char}

/-- A place lies between two words, or strictly within one. -/
theorem cut (h : Spaced ts (u ++ v)) :
    (∃ before after, ts = before ++ after ∧ Spaced before u ∧ Spaced after v) ∨
      ∃ before p q after, ts = before ++ (p ++ q) :: after ∧ Within before p q after u v := by
  induction ts generalizing u with
  | nil =>
    obtain ⟨hu, hv⟩ := List.forall_mem_append.1 (nil_iff.1 h)
    exact .inl ⟨[], [], rfl, .blanks hu, .blanks hv⟩
  | cons t ts ih =>
    obtain ⟨b, r, hb, he, hr⟩ := cons_iff.1 h
    rw [List.append_assoc, List.append_eq_append_iff] at he
    obtain ⟨b', rfl, rfl⟩ | ⟨c, rfl, he⟩ := he
    · -- in the blanks before the first word
      obtain ⟨hu, hb'⟩ := List.forall_mem_append.1 hb
      rw [← List.append_assoc]
      exact .inl ⟨[], t :: ts, rfl, .blanks hu, .word hb' hr⟩
    obtain ⟨s, rfl, rfl⟩ | ⟨q, rfl, rfl⟩ := List.append_eq_append_iff.1 he
    · -- behind the first word
      rw [← List.append_assoc]
      rcases ih hr with ⟨before, after, rfl, hs, hv⟩ | ⟨before, p, q, after, rfl, hw⟩
      · exact .inl ⟨t :: before, after, rfl, .word hb hs, hv⟩
      · obtain ⟨u', rfl, hu'⟩ := hw.left
        exact .inr ⟨t :: before, p, q, after, rfl, hw.left_ne_nil, hw.right_ne_nil,
          ⟨b ++ t ++ u', by simp, .word hb hu'⟩, hw.right⟩
    · -- in the first word, or at one of its ends
      by_cases hc : c = []
      · subst hc
        exact .inl ⟨[], q :: ts, rfl, .blanks (by simpa using hb), (singleton q).append hr⟩
      by_cases hq : q = []
      · subst hq
        refine .inl ⟨[c], ts, by simp, (singleton c).blanks_append hb, hr⟩
      · exact .inr ⟨[], c, q, ts, rfl, hc, hq, ⟨b, rfl, .blanks hb⟩, ⟨r, rfl, hr⟩⟩

theorem insert {before after : List (List Char)} (hu : Spaced before u) (hv : Spaced after v)
    {c : Char} (hc : Text.isBlank c = true) : Spaced (before ++ after) (u ++ c :: v) :=
  hu.append (hv.blanks_append (b := [c]) (by simpa [IsBlanks] using hc))

/-- No words from the first on end where `p` ends, if `q` goes on with the word. -/
theorem flatten_ne {before after us : List (List Char)} {p q : List Char}
    (h : before ++ (p ++ q) :: after = ts ++ us) (hp : p ≠ []) (hq : q ≠ []) :
    ts.flatten ≠ before.flatten ++ p := by
  intro hflatten
  obtain ⟨rest, rfl, hrest⟩ | ⟨rest, rfl, -⟩ := List.append_eq_append_iff.1 h
  · rcases rest with _ | ⟨t, rest⟩
    · exact hp (by simpa using hflatten)
    · obtain ⟨rfl, -⟩ := List.cons.inj hrest
      have : q = [] ∧ ∀ w ∈ rest, w = [] := by simpa using hflatten
      exact hq this.1
  · have : (∀ w ∈ rest, w = []) ∧ p = [] := by simpa using hflatten
    exact hp this.2

/-- A word is not spelled with a blank within it. -/
theorem not_within {before after : List (List Char)} {p q : List Char}
    (hw : Within before p q after u v)
    (hwords : ∀ t ∈ before ++ (p ++ q) :: after, ∀ c ∈ t, Text.isBlank c = false)
    {c : Char} (hc : Text.isBlank c = true) :
    ¬ Spaced (before ++ (p ++ q) :: after) (u ++ c :: v) := by
  intro h
  rcases h.cut with ⟨ts, us, he, hts, -⟩ | ⟨before', p', q', after', he, hw'⟩
  · -- before the blank there are whole words, and yet a part of one
    obtain ⟨u', rfl, hu'⟩ := hw.left
    have hbefore : Text.compact u' = before.flatten :=
      hu'.compact_eq fun t ht => hwords t (List.mem_append_left _ ht)
    have hpart : Text.compact p = p := List.filter_eq_self.2 fun d hd => by
      simp [hwords (p ++ q) (by simp) d (List.mem_append_left _ hd)]
    have hwhole : Text.compact (u' ++ p) = ts.flatten :=
      hts.compact_eq fun t ht => hwords t (he ▸ List.mem_append_left _ ht)
    rw [Text.compact_append, hbefore, hpart] at hwhole
    exact flatten_ne he hw.left_ne_nil hw.right_ne_nil hwhole.symm
  · -- the blank would be in a word
    obtain ⟨v', hv', -⟩ := hw'.right
    obtain ⟨d, q'', rfl⟩ := List.exists_cons_of_ne_nil hw'.right_ne_nil
    obtain ⟨rfl, -⟩ := List.cons.inj hv'
    have := hwords (p' ++ c :: q'') (he ▸ by simp) c (by simp)
    simp [hc] at this

end Spaced

/-! ### Texts without their blanks -/

/-- A text keeps to the format without its blanks too, and has the same terminals. -/
theorem terminals_eq_of_compact {text other : String} {ts us : List Terminal}
    (ht : format text = .ok ts) (hu : format other = .ok us)
    (h : Text.compact other.toList = Text.compact text.toList) : us = ts := by
  obtain ⟨hft, hst⟩ := format_eq_ok_iff.1 ht
  obtain ⟨hfu, hsu⟩ := format_eq_ok_iff.1 hu
  rw [hst.compact_eq hft.isBlank_eq_false, hsu.compact_eq hfu.isBlank_eq_false] at h
  exact hfu.unique hft (Spaced.flatten _) (h ▸ Spaced.flatten _)

/-- The two texts have the same lexemes, and in every kind the same tokens in postfix order and
the same value, or the same errors in their place. -/
structure SameResults (text other : String) : Prop where
  tokenize_eq : tokenize text = tokenize other
  postfixOf_eq : ∀ (α : Type) [Numeric α], postfixOf (α := α) text = postfixOf other
  evaluate_eq : ∀ (α : Type) [Numeric α], evaluate (α := α) text = evaluate other

/-- Texts with the same terminals have the same results. -/
theorem sameResults_of_format {text other : String} {ts : List Terminal}
    (ht : format text = .ok ts) (ho : format other = .ok ts) : SameResults text other := by
  have hpostfix : ∀ (α : Type) [Numeric α], postfixOf (α := α) text = postfixOf other :=
    fun α _ => (postfixOf_of_format ht).trans (postfixOf_of_format ho).symm
  obtain ⟨hfollows, hs⟩ := format_eq_ok_iff.1 ht
  obtain ⟨-, hs'⟩ := format_eq_ok_iff.1 ho
  exact ⟨(hfollows.tokenize_eq hs).trans (hfollows.tokenize_eq hs').symm, hpostfix,
    fun α _ => by rw [evaluate_eq, evaluate_eq, hpostfix α]⟩

/-! ### Places in an expression -/

/-- The place between `u` and `v` lies strictly within a numeral that the grammar finds in the
text. -/
def WithinNumeral (u v : List Char) : Prop :=
  ∃ before p q after, Peg.match? (u ++ v) = some (before ++ .number (p ++ q) :: after) ∧
    Within (before.map Terminal.text) p q (after.map Terminal.text) u v

theorem number_of_text_eq_append {t : Terminal} {p q : List Char} (h : t.text = p ++ q)
    (hp : p ≠ []) (hq : q ≠ []) : t = .number (p ++ q) := by
  have hlength : 2 ≤ t.text.length := by
    have := List.length_pos_iff.2 hp
    have := List.length_pos_iff.2 hq
    rw [h, List.length_append]
    omega
  cases t with
  | number s => exact congrArg _ h
  | negation | opening | closing | binary => simp [Terminal.text] at hlength

/-- A place in a text that keeps to the format lies between terminals, or within a numeral. -/
theorem between_or_withinNumeral {u v : List Char} {ts : List Terminal}
    (h : Peg.match? (u ++ v) = some ts) :
    (∃ before after, ts = before ++ after ∧ Spaced (before.map Terminal.text) u ∧
      Spaced (after.map Terminal.text) v) ∨ WithinNumeral u v := by
  obtain ⟨-, hs⟩ := Peg.match?_eq_some_iff.1 h
  rcases hs.cut with ⟨before, after, he, hu, hv⟩ | ⟨before, p, q, after, he, hw⟩
  · obtain ⟨before, after, rfl, rfl, rfl⟩ := List.map_eq_append_iff.1 he
    exact .inl ⟨before, after, rfl, hu, hv⟩
  · obtain ⟨before, rest, rfl, rfl, hrest⟩ := List.map_eq_append_iff.1 he
    obtain ⟨t, after, rfl, ht, rfl⟩ := List.map_eq_cons_iff.1 hrest
    rw [number_of_text_eq_append ht hw.left_ne_nil hw.right_ne_nil] at h
    exact .inr ⟨before, p, q, after, h, hw⟩

theorem isDigit_of_getLast? {s : List Char} (h : IsNumeral s) {c : Char} (hc : c ∈ s.getLast?) :
    c.isDigit = true := by
  cases h with
  | whole h => exact h.2 c (List.mem_of_getLast? hc)
  | @fraction s t _ ht =>
    obtain ⟨d, u, rfl⟩ := List.exists_cons_of_ne_nil ht.1
    refine ht.2 c (List.mem_of_getLast? ?_)
    simpa using hc

/-- No terminal ends with a point, and what ends with a digit is a number. -/
theorem Terminal.Fits.getLast?_cases {q : Expecting} {t : Terminal} (h : Terminal.Fits q t)
    {c : Char} (hc : c ∈ t.text.getLast?) :
    c ≠ '.' ∧ (c.isDigit = true → t.follow = .continuation) := by
  cases h with
  | number _ hn =>
    refine ⟨?_, fun _ => rfl⟩
    rintro rfl
    cases isDigit_of_getLast? hn hc
  | negation | opening | closing =>
    obtain rfl := Option.mem_some.1 hc
    exact ⟨by decide, nofun⟩
  | binary op =>
    obtain rfl := Option.mem_some.1 hc
    cases op <;> exact ⟨by decide, nofun⟩

namespace Follows

variable {q : Expecting} {ts us : List Terminal} {s : List Char} {c : Char}

theorem exists_of_append (h : Follows q (ts ++ us)) : ∃ q', Follows q' us := by
  induction ts generalizing q with
  | nil => exact ⟨q, h⟩
  | cons t ts ih => exact ih (cons_iff.1 h).2

/-- No text starts with a point. -/
theorem head?_ne_point (h : Follows q ts) (hs : Spaced (ts.map Terminal.text) s) :
    s.head? ≠ some '.' := by
  obtain ⟨b, hb, hsb⟩ := exists_blanks_append s
  rcases b with _ | ⟨c, b⟩
  · rw [hsb, List.nil_append, h.head?_skipBlanks hs]
    cases h with
    | done => exact nofun
    | step h _ =>
      cases h with
      | number _ hn => exact Peg.head?_ne_of_isNumeral hn rfl
      | negation | opening | closing => exact nofun
      | binary op => cases op <;> exact nofun
  · rw [hsb]
    rintro ⟨⟩
    cases hb '.' (by simp)

/-- No text ends with a point, and behind a digit an operand is complete. -/
theorem getLast?_cases (h : Follows q (ts ++ us)) (hs : Spaced (ts.map Terminal.text) s)
    (hc : c ∈ s.getLast?) : c ≠ '.' ∧ (c.isDigit = true → Follows .continuation us) := by
  induction ts generalizing q s with
  | nil =>
    rcases isBlank_iff.1 (Spaced.nil_iff.1 hs c (List.mem_of_getLast? hc)) with rfl | rfl
    · exact ⟨by decide, nofun⟩
    · exact ⟨by decide, nofun⟩
  | cons t ts ih =>
    obtain ⟨b, r, hb, rfl, hr⟩ := Spaced.cons_iff.1 hs
    obtain ⟨hfits, hrest⟩ := cons_iff.1 h
    rcases r with _ | ⟨d, r⟩
    · -- the last word
      obtain rfl : ts = [] := by
        rcases ts with _ | ⟨t', ts⟩
        · rfl
        · exact absurd hr.flatten_eq_nil (by simp [(cons_iff.1 hrest).1.text_ne_nil])
      have hlast : c ∈ t.text.getLast? := by
        obtain ⟨d, u, hd⟩ := List.exists_cons_of_ne_nil hfits.text_ne_nil
        simpa [hd] using hc
      obtain ⟨hpoint, hdigit⟩ := hfits.getLast?_cases hlast
      exact ⟨hpoint, fun hd => hdigit hd ▸ hrest⟩
    · exact ih hrest hr (by simpa using hc)

end Follows

/-- The place between `u` and `v` lies between two digits, or next to a point. -/
def JoinsDigits (u v : List Char) : Prop :=
  (∃ c d, u.getLast? = some c ∧ v.head? = some d ∧ c.isDigit = true ∧ d.isDigit = true) ∨
    u.getLast? = some '.' ∨ v.head? = some '.'

/-- The places within numerals are those between digits and next to points. -/
theorem withinNumeral_iff {u v : List Char} {ts : List Terminal}
    (h : Peg.match? (u ++ v) = some ts) : WithinNumeral u v ↔ JoinsDigits u v := by
  constructor
  · rintro ⟨before, p, q, after, hm, hw⟩
    obtain ⟨halternates, -⟩ := Peg.match?_eq_some_iff.1 hm
    have hnumeral : IsNumeral (p ++ q) := by
      obtain ⟨_, hfollows⟩ := halternates.follows.exists_of_append
      cases (Follows.cons_iff.1 hfollows).1 with
      | number _ hn => exact hn
    obtain ⟨d, q, rfl⟩ := List.exists_cons_of_ne_nil hw.right_ne_nil
    obtain ⟨p, c, rfl⟩ := List.eq_nil_or_concat p |>.resolve_left hw.left_ne_nil
    obtain ⟨u', rfl, -⟩ := hw.left
    obtain ⟨v', rfl, -⟩ := hw.right
    rcases hnumeral.digit_or_point (c := c) (by simp) with hc | rfl
    · rcases hnumeral.digit_or_point (c := d) (by simp) with hd | rfl
      · exact .inl ⟨c, d, by simp, rfl, hc, hd⟩
      · exact .inr (.inr rfl)
    · exact .inr (.inl (by simp))
  · intro hj
    rcases between_or_withinNumeral h with ⟨before, after, rfl, hu, hv⟩ | hw
    · have hfollows := (Peg.match?_eq_some_iff.1 h).1.follows
      obtain ⟨_, hafter⟩ := hfollows.exists_of_append
      rcases hj with ⟨c, d, hc, hd, hcd, hdd⟩ | hc | hd
      · have hstops := ((hfollows.getLast?_cases hu hc).2 hcd).stopsNumeral hv
        exact absurd (hstops d hd).1 (by simp [hdd])
      · exact absurd rfl (hfollows.getLast?_cases hu hc).1
      · exact absurd hd (hafter.head?_ne_point hv)
    · exact hw

/-- A blank between words leaves the terminals as they are. -/
theorem format_insert {u v : List Char} {ts : List Terminal} (h : Peg.match? (u ++ v) = some ts)
    (hnot : ¬ WithinNumeral u v) {c : Char} (hc : Text.isBlank c = true) :
    format (String.ofList (u ++ c :: v)) = .ok ts := by
  obtain ⟨before, after, rfl, hu, hv⟩ := (between_or_withinNumeral h).resolve_right hnot
  rw [format_eq_ok_iff_alternates, String.toList_ofList, List.map_append]
  exact ⟨(Peg.match?_eq_some_iff.1 h).1, hu.insert hv hc⟩

/-- A blank within a numeral leaves no text that keeps to the format. -/
theorem format_ne_ok_of_withinNumeral {u v : List Char} (hw : WithinNumeral u v) {c : Char}
    (hc : Text.isBlank c = true) (us : List Terminal) :
    format (String.ofList (u ++ c :: v)) ≠ .ok us := by
  obtain ⟨before, p, q, after, hm, hw⟩ := hw
  intro hus
  have hf : format (String.ofList (u ++ v)) = .ok (before ++ .number (p ++ q) :: after) :=
    match?_eq_some_iff_format.1 (by rwa [String.toList_ofList])
  have hcompact : Text.compact (String.ofList (u ++ c :: v)).toList =
      Text.compact (String.ofList (u ++ v)).toList := by
    simp [Text.compact, hc]
  obtain rfl := terminals_eq_of_compact hf hus hcompact
  obtain ⟨hfollows, hs⟩ := format_eq_ok_iff.1 hus
  have hwords := hfollows.isBlank_eq_false
  rw [String.toList_ofList] at hs
  rw [List.map_append, List.map_cons] at hs hwords
  exact Spaced.not_within hw hwords hc hs

/-- **Blanks between words never matter, and none may stand within a numeral.**  A blank put
between two digits or next to a point makes a text violate the format; anywhere else it changes
none of the results.  Nor do any two texts differ in them that keep to the format and are the same
without their blanks. -/
theorem insert_blank {text : String} (h : validate text = .ok ()) :
    (∀ u v c, text.toList = u ++ v → Text.isBlank c = true →
      (WithinNumeral u v ↔ JoinsDigits u v) ∧
      (WithinNumeral u v → ∃ e, validate (String.ofList (u ++ c :: v)) = .error (.format e)) ∧
      (¬ WithinNumeral u v → validate (String.ofList (u ++ c :: v)) = .ok () ∧
        SameResults (String.ofList (u ++ c :: v)) text)) ∧
    ∀ other, validate other = .ok () → Text.compact other.toList = Text.compact text.toList →
      SameResults other text := by
  obtain ⟨ts, hf⟩ := validate_eq_ok_iff.1 h
  refine ⟨fun u v c htext hc => ?_, fun other ho hcompact => ?_⟩
  · have hm : Peg.match? (u ++ v) = some ts := htext ▸ match?_eq_some_iff_format.2 hf
    refine ⟨withinNumeral_iff hm, fun hw => ?_, fun hnot => ?_⟩
    · cases hv : validate (String.ofList (u ++ c :: v)) with
      | error e =>
        obtain ⟨f, rfl⟩ := format_of_validate_eq_error hv
        exact ⟨f, rfl⟩
      | ok _ =>
        obtain ⟨us, hus⟩ := validate_eq_ok_iff.1 hv
        exact absurd hus (format_ne_ok_of_withinNumeral hw hc us)
    · have hi := format_insert hm hnot hc
      exact ⟨validate_eq_ok_iff.2 ⟨ts, hi⟩, sameResults_of_format hi hf⟩
  · obtain ⟨us, hu⟩ := validate_eq_ok_iff.1 ho
    cases terminals_eq_of_compact hf hu hcompact
    exact sameResults_of_format hu hf

/-- A blank behind the point of a numeral, and one behind the numeral. -/
theorem insert_blank_point :
    validate "-1.5+2" = .ok () ∧
    (∃ e, validate "-1. 5+2" = .error (.format e)) ∧
    validate "-1.5 +2" = .ok () ∧ SameResults "-1.5 +2" "-1.5+2" ∧
    SameResults " - 1.5 + 2" "-1.5+2" := by
  have h : validate "-1.5+2" = .ok () := by decide +kernel
  obtain ⟨hplace, hother⟩ := insert_blank h
  obtain ⟨hwithin, hrefused, -⟩ := hplace "-1.".toList "5+2".toList ' ' rfl rfl
  obtain ⟨hbetween, -, htaken⟩ := hplace "-1.5".toList "+2".toList ' ' rfl rfl
  have hpoint : WithinNumeral "-1.".toList "5+2".toList := hwithin.2 (.inr (.inl rfl))
  have hnot : ¬ WithinNumeral "-1.5".toList "+2".toList := by
    rw [hbetween]
    rintro (⟨_, _, ⟨⟩, ⟨⟩, -, hd⟩ | hc | hc)
    · cases hd
    · cases hc
    · cases hc
  exact ⟨h, hrefused hpoint, (htaken hnot).1, (htaken hnot).2,
    hother " - 1.5 + 2" (by decide +kernel) (by rfl)⟩

end InfixArith
