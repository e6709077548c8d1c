import InfixArith.Lexeme.Tokenize
import InfixArith.Proofs.Spelling

/-!
# As long as possible

A lexeme is cut off a text as long as possible.  What that means can be said by the characters next
to the cut (`Munch`): digits go on until there is none, and a point goes on only with a digit behind
it.  It can also be said without a look at these: of the lexemes that the text starts with, it is
the longest (`munch_iff_isLongest`).  The two agree, and the lexer does it (`munch?_eq_some_iff`).

`Cut` says what comes of a whole text: lexemes, as long as one can be cut off, then a gap in which
none can start, and the rest of the text, which is empty or starts with one.  A text has one cut,
and that is what the lexer finds (`cut_iff`).
-/

namespace InfixArith

/-- The lexeme `t` cannot be made longer by the text `r` behind it. -/
inductive Munch : List Char → List Char → Prop where
  | symbol {c : Char} (h : Lexeme.isSymbol c = true) (r : List Char) : Munch [c] r
  | numeral {t r : List Char} (h : NumeralEnds t r) : Munch t r

theorem Munch.isLexeme {t r : List Char} (h : Munch t r) : IsLexeme t := by
  cases h with
  | symbol h _ => exact .symbol h
  | numeral h => exact .numeral h.isNumeral

/-! ### The longest one -/

/-- Of the texts with a property that `s` starts with, `t` is the longest. -/
structure IsLongest (P : List Char → Prop) (t s : List Char) : Prop where
  starts : t <+: s
  holds : P t
  longest : ∀ u, P u → u <+: s → u.length ≤ t.length

/-- There is one longest text. -/
theorem IsLongest.unique {P : List Char → Prop} {t u s : List Char} (ht : IsLongest P t s)
    (hu : IsLongest P u s) : t = u := by
  have h₁ := hu.longest t ht.holds ht.starts
  have h₂ := ht.longest u hu.holds hu.starts
  exact (List.prefix_of_prefix_length_le ht.starts hu.starts h₁).eq_of_length_le h₂

/-- What cannot go on with a text cannot go on with the start of it. -/
theorem NumeralEnds.of_append {t r v : List Char} (h : NumeralEnds t (r ++ v)) :
    NumeralEnds t r := by
  have head : ∀ {r : List Char} {c : Char}, c ∈ r.head? → c ∈ (r ++ v).head? := by
    rintro (_ | ⟨d, r⟩) c hc
    · cases hc
    · exact hc
  cases h with
  | whole hd hr hp =>
    refine .whole hd (fun c hc => hr c (head hc)) ?_
    rintro u rfl c hc
    exact hp (u ++ v) rfl c (head hc)
  | fraction hs ht hr => exact .fraction hs ht fun c hc => hr c (head hc)

theorem NumeralEnds.isLongest {t r : List Char} (h : NumeralEnds t r) :
    IsLongest IsNumeral t (t ++ r) := by
  refine ⟨List.prefix_append t r, h.isNumeral, fun u hu hur => ?_⟩
  by_contra hlt
  obtain ⟨w, rfl⟩ :=
    List.prefix_of_prefix_length_le (List.prefix_append t r) hur (by omega)
  obtain ⟨v, hv⟩ := hur
  obtain rfl : w ++ v = r := List.append_cancel_left ((List.append_assoc t w v).symm.trans hv)
  -- alone, the longer numeral would be read whole and yet no further than `t`
  have hwhole : Lexeme.numeral? (t ++ w) = some (t ++ w, []) :=
    numeral?_eq_some_iff.2 ⟨(List.append_nil _).symm, hu.ends stopsNumeral_nil⟩
  have hpart : Lexeme.numeral? (t ++ w) = some (t, w) :=
    numeral?_eq_some_iff.2 ⟨rfl, h.of_append⟩
  have hsame : t ++ w = t :=
    congrArg Prod.fst (Option.some.inj (hwhole.symm.trans hpart))
  exact hlt (Nat.le_of_eq (congrArg List.length hsame))

theorem exists_numeral? {c : Char} (hc : c.isDigit = true) (s : List Char) :
    ∃ t r, Lexeme.numeral? (c :: s) = some (t, r) := by
  unfold Lexeme.numeral?
  rw [List.takeWhile_cons_of_pos hc, if_neg (List.cons_ne_nil _ _)]
  split
  · split
    · exact ⟨_, _, rfl⟩
    · exact ⟨_, _, rfl⟩
  · exact ⟨_, _, rfl⟩

theorem numeralEnds_iff_isLongest {t r : List Char} :
    NumeralEnds t r ↔ IsLongest IsNumeral t (t ++ r) := by
  refine ⟨NumeralEnds.isLongest, fun h => ?_⟩
  obtain ⟨c, s, rfl, hc⟩ := h.holds.exists_cons
  obtain ⟨u, v, hu⟩ := exists_numeral? hc (s ++ r)
  obtain ⟨happend, hends⟩ := numeral?_eq_some_iff.1 hu
  have hu : IsLongest IsNumeral u (c :: s ++ r) := by
    rw [List.cons_append, happend]
    exact hends.isLongest
  obtain rfl := h.unique hu
  obtain rfl : r = v := (List.append_right_inj (c :: s)).1 happend
  exact hends

/-- **Of the lexemes a text starts with, the one that cannot be made longer is the longest.** -/
theorem munch_iff_isLongest {t r : List Char} : Munch t r ↔ IsLongest IsLexeme t (t ++ r) := by
  constructor
  · intro h
    refine ⟨List.prefix_append t r, h.isLexeme, fun u hu hur => ?_⟩
    cases h with
    | @symbol c hc _ =>
      cases hu with
      | symbol => exact Nat.le_refl 1
      | numeral hu =>
        obtain ⟨d, w, rfl, hd⟩ := hu.exists_cons
        obtain ⟨rfl, -⟩ := List.cons_prefix_cons.1 hur
        simp [isSymbol_of_isDigit hd] at hc
    | numeral h =>
      cases hu with
      | symbol => exact List.length_pos_iff.2 h.isNumeral.ne_nil
      | numeral hu => exact h.isLongest.longest u hu hur
  · intro h
    cases h.holds with
    | symbol hc => exact .symbol hc r
    | numeral ht =>
      exact .numeral (numeralEnds_iff_isLongest.2
        ⟨h.starts, ht, fun u hu hur => h.longest u (.numeral hu) hur⟩)

/-! ### One lexeme -/

/-- **The lexer cuts off what cannot be made longer.** -/
theorem munch?_eq_some_iff {s t r : List Char} :
    Lexeme.munch? s = some (t, r) ↔ s = t ++ r ∧ Munch t r := by
  constructor
  · intro h
    refine ⟨Lexeme.append_of_munch? h, ?_⟩
    cases s with
    | nil => cases h
    | cons c s =>
      by_cases hc : Lexeme.isSymbol c = true
      · rw [Lexeme.munch?, if_pos hc] at h
        cases h
        exact .symbol hc r
      · rw [Lexeme.munch?, if_neg hc] at h
        exact .numeral (numeral?_eq_some_iff.1 h).2
  · rintro ⟨rfl, h⟩
    cases h with
    | symbol hc _ => exact if_pos hc
    | numeral h =>
      obtain ⟨d, u, rfl, hd⟩ := h.isNumeral.exists_cons
      refine (if_neg ?_).trans (numeral?_eq_some_iff.2 ⟨rfl, h⟩)
      simp [isSymbol_of_isDigit hd]

theorem munch?_eq_none_iff {s : List Char} :
    Lexeme.munch? s = none ↔ ∀ c ∈ s.head?, Lexeme.isStart c = false := by
  cases s with
  | nil => exact ⟨fun _ => nofun, fun _ => rfl⟩
  | cons c s =>
    simp only [List.head?_cons, Option.mem_some_iff, forall_eq', Lexeme.isStart,
      Bool.or_eq_false_iff]
    constructor
    · intro h
      by_cases hc : Lexeme.isSymbol c = true
      · rw [Lexeme.munch?, if_pos hc] at h
        cases h
      · rw [Lexeme.munch?, if_neg hc] at h
        refine ⟨Bool.eq_false_iff.2 hc, Bool.eq_false_iff.2 fun hd => ?_⟩
        obtain ⟨t, r, hn⟩ := exists_numeral? hd s
        cases h.symm.trans hn
    · rintro ⟨hc, hd⟩
      simp [Lexeme.munch?, hc, Lexeme.numeral?, hd]

/-- No lexeme can be cut off where none starts, and only there. -/
theorem forall_not_munch_iff {s : List Char} :
    (∀ t r, s = t ++ r → ¬ Munch t r) ↔ ∀ c ∈ s.head?, Lexeme.isStart c = false := by
  simp only [← munch?_eq_none_iff, Option.eq_none_iff_forall_ne_some, Prod.forall, ne_eq,
    munch?_eq_some_iff, not_and]

/-! ### A whole text -/

/-- Lexemes, as long as one can be cut off; then a gap, in which none starts; and then the rest,
which is empty or starts with one. -/
inductive Cut : List Char → List (List Char) → List Char → List Char → Prop where
  | gap {g r : List Char} (h : ∀ t u, g ++ r = t ++ u → ¬ Munch t u)
      (hg : ∀ c ∈ g, Lexeme.isStart c = false) (hr : ∀ c ∈ r.head?, Lexeme.isStart c = true) :
      Cut (g ++ r) [] g r
  | lexeme {t s : List Char} {ts : List (List Char)} {g r : List Char} (h : Munch t s)
      (hs : Cut s ts g r) : Cut (t ++ s) (t :: ts) g r

/-- The lexemes, the gap and the rest make up the text. -/
theorem Cut.append_eq {s g r : List Char} {ts : List (List Char)} (h : Cut s ts g r) :
    s = ts.flatten ++ g ++ r := by
  induction h with
  | gap => rfl
  | lexeme _ _ ih => rw [ih, List.flatten_cons, List.append_assoc, List.append_assoc,
      List.append_assoc]

/-- The rest is empty if there is no gap in front of it. -/
theorem Cut.rest_eq_nil {s r : List Char} {ts : List (List Char)} (h : Cut s ts [] r) :
    r = [] := by
  generalize hg : [] = g at h
  induction h with
  | @gap g r h _ hr =>
    subst hg
    rcases r with _ | ⟨c, r⟩
    · rfl
    · have := forall_not_munch_iff.1 h c rfl
      simp [hr c rfl] at this
  | lexeme _ _ ih => exact ih hg

/-- A gap goes on to where a lexeme can start. -/
theorem gap_append_iff {g r : List Char} : Lexeme.gap (g ++ r) = g ↔
    (∀ c ∈ g, Lexeme.isStart c = false) ∧ ∀ c ∈ r.head?, Lexeme.isStart c = true := by
  have hsplit : (∀ c ∈ g, Lexeme.isStart c = false) →
      Lexeme.gap (g ++ r) = g ++ Lexeme.gap r := fun hg =>
    List.takeWhile_append_of_pos fun c hc => by simp [hg c hc]
  constructor
  · intro h
    have hg : ∀ c ∈ g, Lexeme.isStart c = false := by
      intro c hc
      rw [← h] at hc
      simpa using List.mem_takeWhile_imp hc
    refine ⟨hg, fun c hc => ?_⟩
    obtain ⟨r, rfl⟩ := List.head?_eq_some_iff.1 hc
    rw [hsplit hg] at h
    simpa [Lexeme.gap] using h
  · rintro ⟨hg, hr⟩
    rw [hsplit hg]
    cases r with
    | nil => simp [Lexeme.gap]
    | cons c r => simp [Lexeme.gap, hr c rfl]

/-- **A text has one cut, and the lexer finds it.** -/
theorem cut_iff {s g r : List Char} {ts : List (List Char)} :
    Cut s ts g r ↔ Lexeme.split s = (ts, g ++ r) ∧ Lexeme.gap (g ++ r) = g := by
  constructor
  · intro h
    induction h with
    | gap h hg hr =>
      have hnone := munch?_eq_none_iff.2 (forall_not_munch_iff.1 h)
      exact ⟨Lexeme.split_of_munch?_none hnone, gap_append_iff.2 ⟨hg, hr⟩⟩
    | lexeme h _ ih =>
      rw [Lexeme.split_of_munch?_some (munch?_eq_some_iff.2 ⟨rfl, h⟩), ih.1]
      exact ⟨rfl, ih.2⟩
  · rintro ⟨hsplit, hgap⟩
    fun_induction Lexeme.split s generalizing ts with
    | case1 s hm =>
      obtain ⟨rfl, rfl⟩ := Prod.mk.inj hsplit
      obtain ⟨hg, hr⟩ := gap_append_iff.1 hgap
      exact .gap (forall_not_munch_iff.2 (munch?_eq_none_iff.1 hm)) hg hr
    | case2 s t u hm ih =>
      obtain ⟨rfl, hrest⟩ := Prod.mk.inj hsplit
      obtain ⟨rfl, hmunch⟩ := munch?_eq_some_iff.1 hm
      exact .lexeme hmunch (ih (Prod.ext rfl hrest))

end InfixArith
