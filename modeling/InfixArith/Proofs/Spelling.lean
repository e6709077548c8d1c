import InfixArith.Expression.Spelling
import Mathlib.Data.List.TakeWhile

/-!
# Numerals and spaced words, read back

A reader takes as long a numeral as it can, so a numeral is read back only from a text that
cannot make it longer (`NumeralEnds`, `numeral?_eq_some_iff`).  It never can if it starts with
neither a digit nor a point: if it `StopsNumeral`.  With that, `numeral?` and `IsNumeral` agree
(`numeral?_append`, `isNumeral_of_numeral?`).

The words of a spaced text are found again without its blanks: if no word holds a blank, then
the text without blanks is the words side by side (`Spaced.compact_eq`).
-/

namespace InfixArith

/-! ### Characters -/

theorem isBlank_iff {c : Char} : Text.isBlank c = true ↔ c = ' ' ∨ c = '\t' := by
  simp [Text.isBlank]

theorem isSymbol_iff {c : Char} : Lexeme.isSymbol c = true ↔
    c = '(' ∨ c = ')' ∨ c = '+' ∨ c = '-' ∨ c = '*' ∨ c = '/' := by
  simp [Lexeme.isSymbol, or_assoc]

theorem isBlank_of_isDigit {c : Char} (h : c.isDigit = true) : Text.isBlank c = false := by
  refine Bool.eq_false_iff.2 fun hb => ?_
  rcases isBlank_iff.1 hb with rfl | rfl <;> cases h

theorem isSymbol_of_isDigit {c : Char} (h : c.isDigit = true) : Lexeme.isSymbol c = false := by
  refine Bool.eq_false_iff.2 fun hs => ?_
  rcases isSymbol_iff.1 hs with rfl | rfl | rfl | rfl | rfl | rfl <;> cases h

theorem isBlank_of_isSymbol {c : Char} (h : Lexeme.isSymbol c = true) :
    Text.isBlank c = false := by
  rcases isSymbol_iff.1 h with rfl | rfl | rfl | rfl | rfl | rfl <;> rfl

/-! ### Numerals -/

/-- A text that makes no numeral before it longer: it starts with neither a digit nor a point. -/
def StopsNumeral (r : List Char) : Prop :=
  ∀ c ∈ r.head?, c.isDigit = false ∧ c ≠ '.'

theorem stopsNumeral_nil : StopsNumeral [] := nofun

theorem StopsNumeral.cons {c : Char} (h : c.isDigit = false) (hp : c ≠ '.') (r : List Char) :
    StopsNumeral (c :: r) := by
  rintro _ ⟨⟩
  exact ⟨h, hp⟩

theorem IsDigits.takeWhile_append {s r : List Char} (h : IsDigits s)
    (hr : ∀ c ∈ r.head?, c.isDigit = false) : (s ++ r).takeWhile Char.isDigit = s := by
  rw [List.takeWhile_append_of_pos h.2]
  cases r with
  | nil => simp
  | cons c r => simp [hr c rfl]

theorem IsDigits.dropWhile_append {s r : List Char} (h : IsDigits s)
    (hr : ∀ c ∈ r.head?, c.isDigit = false) : (s ++ r).dropWhile Char.isDigit = r := by
  rw [List.dropWhile_append_of_pos h.2]
  cases r with
  | nil => rfl
  | cons c r => simp [hr c rfl]

theorem isDigits_takeWhile {s : List Char} (h : s.takeWhile Char.isDigit ≠ []) :
    IsDigits (s.takeWhile Char.isDigit) :=
  ⟨h, fun _ hc => List.mem_takeWhile_imp hc⟩

/-- The numeral `t` cannot be made longer by the text `r` behind it. -/
inductive NumeralEnds : List Char → List Char → Prop where
  | whole {s r : List Char} (h : IsDigits s) (hr : ∀ c ∈ r.head?, c.isDigit = false)
      (hp : ∀ u, r = '.' :: u → ∀ c ∈ u.head?, c.isDigit = false) : NumeralEnds s r
  | fraction {s t r : List Char} (hs : IsDigits s) (ht : IsDigits t)
      (hr : ∀ c ∈ r.head?, c.isDigit = false) : NumeralEnds (s ++ '.' :: t) r

theorem NumeralEnds.isNumeral {t r : List Char} (h : NumeralEnds t r) : IsNumeral t := by
  cases h with
  | whole h _ _ => exact .whole h
  | fraction hs ht _ => exact .fraction hs ht

theorem NumeralEnds.head?_isDigit {t r : List Char} (h : NumeralEnds t r) :
    ∀ c ∈ r.head?, c.isDigit = false := by
  cases h with
  | whole _ hr _ => exact hr
  | fraction _ _ hr => exact hr

theorem IsNumeral.ends {t r : List Char} (h : IsNumeral t) (hr : StopsNumeral r) :
    NumeralEnds t r := by
  have hd : ∀ c ∈ r.head?, c.isDigit = false := fun c hc => (hr c hc).1
  cases h with
  | whole h =>
    refine .whole h hd ?_
    rintro u rfl
    exact absurd rfl (hr '.' rfl).2
  | fraction hs ht => exact .fraction hs ht hd

theorem takeWhile_isDigit_eq_nil_iff {s : List Char} :
    s.takeWhile Char.isDigit = [] ↔ ∀ c ∈ s.head?, c.isDigit = false := by
  cases s with
  | nil => simp
  | cons c s => cases hc : c.isDigit <;> simp [hc]

theorem head?_dropWhile_isDigit (s : List Char) :
    ∀ c ∈ (s.dropWhile Char.isDigit).head?, c.isDigit = false := by
  intro c hc
  have := List.head?_dropWhile_not Char.isDigit s
  rw [Option.mem_def.1 hc] at this
  simpa using this

/-- **A numeral is read up to where it cannot be made longer.** -/
theorem numeral?_eq_some_iff {s t r : List Char} :
    Lexeme.numeral? s = some (t, r) ↔ s = t ++ r ∧ NumeralEnds t r := by
  constructor
  · intro h
    refine ⟨Lexeme.append_of_numeral? h, ?_⟩
    unfold Lexeme.numeral? at h
    split at h
    · cases h
    next hs =>
      have hd := isDigits_takeWhile hs
      have hr := head?_dropWhile_isDigit s
      split at h
      · next u hu =>
        split at h
        · next ht =>
          cases h
          refine .whole hd (hu ▸ hr) ?_
          rintro _ ⟨⟩
          exact takeWhile_isDigit_eq_nil_iff.1 ht
        · next ht =>
          cases h
          exact .fraction hd (isDigits_takeWhile ht) (head?_dropWhile_isDigit u)
      · next hne =>
        cases h
        exact .whole hd hr fun u hu => absurd hu (hne u)
  · rintro ⟨rfl, h⟩
    cases h with
    | whole hd hr hp =>
      unfold Lexeme.numeral?
      rw [hd.takeWhile_append hr, hd.dropWhile_append hr, if_neg hd.1]
      split
      · rw [if_pos (takeWhile_isDigit_eq_nil_iff.2 (hp _ rfl))]
      · rfl
    | @fraction s t _ hs ht hr =>
      have hpoint : ∀ c ∈ ('.' :: (t ++ r)).head?, c.isDigit = false := by
        rintro _ ⟨⟩
        rfl
      unfold Lexeme.numeral?
      rw [List.append_assoc, List.cons_append, hs.takeWhile_append hpoint,
        hs.dropWhile_append hpoint, if_neg hs.1]
      simp only [ht.takeWhile_append hr, ht.dropWhile_append hr, if_neg ht.1]

/-- A numeral is read back in front of what cannot make it longer. -/
theorem numeral?_append {s r : List Char} (h : IsNumeral s) (hr : StopsNumeral r) :
    Lexeme.numeral? (s ++ r) = some (s, r) :=
  numeral?_eq_some_iff.2 ⟨rfl, h.ends hr⟩

/-- What is read as a numeral is one. -/
theorem isNumeral_of_numeral? {s t r : List Char} (h : Lexeme.numeral? s = some (t, r)) :
    IsNumeral t :=
  (numeral?_eq_some_iff.1 h).2.isNumeral

theorem IsNumeral.ne_nil {s : List Char} (h : IsNumeral s) : s ≠ [] := by
  cases h with
  | whole h => exact h.1
  | fraction => simp

/-- A numeral starts with a digit. -/
theorem IsNumeral.exists_cons {s : List Char} (h : IsNumeral s) :
    ∃ c t, s = c :: t ∧ c.isDigit = true := by
  have starts : ∀ {s : List Char}, IsDigits s → ∃ c t, s = c :: t ∧ c.isDigit = true := by
    rintro (_ | ⟨c, t⟩) ⟨hne, hd⟩
    · exact absurd rfl hne
    · exact ⟨c, t, rfl, hd c (by simp)⟩
  cases h with
  | whole h => exact starts h
  | @fraction s t hs _ =>
    obtain ⟨c, u, rfl, hc⟩ := starts hs
    exact ⟨c, u ++ '.' :: t, rfl, hc⟩

theorem not_isNumeral_singleton {c : Char} (hc : c.isDigit = false) : ¬ IsNumeral [c] := by
  intro h
  obtain ⟨d, u, he, hd⟩ := h.exists_cons
  obtain ⟨rfl, -⟩ := List.cons.inj he
  simp [hc] at hd

/-- A numeral holds digits and points only. -/
theorem IsNumeral.digit_or_point {s : List Char} (h : IsNumeral s) {c : Char} (hc : c ∈ s) :
    c.isDigit = true ∨ c = '.' := by
  cases h with
  | whole h => exact .inl (h.2 c hc)
  | fraction hs ht =>
    rcases List.mem_append.1 hc with hc | hc
    · exact .inl (hs.2 c hc)
    rcases List.mem_cons.1 hc with rfl | hc
    · exact .inr rfl
    · exact .inl (ht.2 c hc)

/-! ### Spaced words -/

namespace Spaced

theorem nil_iff {s : List Char} : Spaced [] s ↔ IsBlanks s :=
  ⟨fun h => by cases h; assumption, .blanks⟩

/-- The first word comes after blanks, and the others after it. -/
theorem cons_iff {t s : List Char} {ts : List (List Char)} :
    Spaced (t :: ts) s ↔ ∃ b r, IsBlanks b ∧ s = b ++ t ++ r ∧ Spaced ts r := by
  constructor
  · intro h
    cases h with
    | @word b _ r _ hb hr => exact ⟨b, r, hb, rfl, hr⟩
  · rintro ⟨b, r, hb, rfl, hr⟩
    exact .word hb hr

theorem blanks_append {b s : List Char} {ts : List (List Char)} (hb : IsBlanks b)
    (h : Spaced ts s) : Spaced ts (b ++ s) := by
  have append : ∀ {c : List Char}, IsBlanks c → IsBlanks (b ++ c) :=
    fun hc => List.forall_mem_append.2 ⟨hb, hc⟩
  cases h with
  | blanks h => exact .blanks (append h)
  | word h hs =>
    rw [← List.append_assoc, ← List.append_assoc]
    exact .word (append h) hs

/-- Words after words. -/
theorem append {ts us : List (List Char)} {s r : List Char} (h : Spaced ts s) (hr : Spaced us r) :
    Spaced (ts ++ us) (s ++ r) := by
  induction h with
  | blanks h => exact hr.blanks_append h
  | word h _ ih =>
    rw [List.append_assoc]
    exact .word h ih

theorem singleton (t : List Char) : Spaced [t] t := by
  have := Spaced.word (b := []) (t := t) nofun (.blanks (s := []) nofun)
  rwa [List.nil_append, List.append_nil] at this

/-- Words side by side, without blanks. -/
theorem flatten : ∀ ts : List (List Char), Spaced ts ts.flatten
  | [] => .blanks nofun
  | t :: ts => by
    have := Spaced.word (b := []) (t := t) nofun (Spaced.flatten ts)
    rwa [List.nil_append] at this

theorem flatten_eq_nil : ∀ {ts : List (List Char)}, Spaced ts [] → ts.flatten = []
  | [], _ => rfl
  | t :: ts, h => by
    obtain ⟨b, r, -, he, hr⟩ := cons_iff.1 h
    obtain ⟨hbt, rfl⟩ := List.append_eq_nil_iff.1 he.symm
    obtain ⟨-, rfl⟩ := List.append_eq_nil_iff.1 hbt
    show ts.flatten = []
    exact flatten_eq_nil hr

/-- The words of a text stand side by side once its blanks are left out. -/
theorem compact_eq {ts : List (List Char)} {s : List Char} (h : Spaced ts s)
    (hts : ∀ t ∈ ts, ∀ c ∈ t, Text.isBlank c = false) : Text.compact s = ts.flatten := by
  have blanks : ∀ {b : List Char}, IsBlanks b → Text.compact b = [] := fun hb => by
    simpa [Text.compact, IsBlanks] using hb
  induction h with
  | blanks h => exact blanks h
  | @word b t s ts hb _ ih =>
    have ht : Text.compact t = t :=
      List.filter_eq_self.2 fun c hc => by simp [hts t (by simp) c hc]
    rw [Text.compact_append, Text.compact_append, blanks hb, ht, List.nil_append,
      ih fun u hu => hts u (List.mem_cons_of_mem _ hu), List.flatten_cons]

end Spaced

end InfixArith
