import InfixArith.Proofs.Munch
import InfixArith.Proofs.Places
import Mathlib.Data.List.Chain

/-!
# The lexemes of any text

A text need not keep to the format to be cut into lexemes.  Its lexemes are those of its cut, if
that leaves no gap; if it leaves one, the gap is the error (`tokenize_eq_cut`).  Either way all
places that are told lie between characters, for they are ends of pieces of the text.

Lexemes can be read back from what they are written to (`tokenize_undoes_writing`).  They may be
written side by side, for no lexeme goes on in the next one unless both are numerals; and blanks may
be put in anywhere, even within a numeral.  Nor does the lexer ever leave two numerals side by side,
so what it gives is always something that it reads back.
-/

namespace InfixArith

/-! ### Lexemes and gaps -/

section

variable {text : String} {s g r : List Char} {ts : List (List Char)} {ls : List Lexeme}

theorem tokenize_of_cut (h : Cut (Text.compact text.toList) ts [] r) :
    tokenize text = .ok (Lexeme.tile 0 ts) := by
  obtain rfl := h.rest_eq_nil
  obtain ⟨hsplit, -⟩ := cut_iff.1 h
  rw [tokenize, Lexeme.ofCompact, hsplit]
  rfl

theorem tokenize_of_gap (h : Cut (Text.compact text.toList) ts g r) (hg : g ≠ []) :
    tokenize text = .error (.unexpected (Text.byteSize ts.flatten) (String.ofList g)) := by
  obtain ⟨hsplit, hgap⟩ := cut_iff.1 h
  rw [tokenize, Lexeme.ofCompact, hsplit, if_neg (List.append_ne_nil_of_left_ne_nil hg r), hgap]

/-- Every text has a cut. -/
theorem exists_cut (s : List Char) : ∃ ts g r, Cut s ts g r := by
  have hrest : Lexeme.gap (Lexeme.split s).2 ++
      (Lexeme.split s).2.dropWhile (fun c => !Lexeme.isStart c) = (Lexeme.split s).2 :=
    List.takeWhile_append_dropWhile
  exact ⟨(Lexeme.split s).1, _, _, cut_iff.2 ⟨Prod.ext rfl hrest.symm, by rw [hrest]⟩⟩

/-- A text has one cut at most. -/
theorem Cut.unique (h : Cut s ts g r) {ts' : List (List Char)} {g' r' : List Char}
    (h' : Cut s ts' g' r') : ts' = ts ∧ g' = g ∧ r' = r := by
  obtain ⟨hsplit, hgap⟩ := cut_iff.1 h
  obtain ⟨hsplit', hgap'⟩ := cut_iff.1 h'
  obtain ⟨rfl, hrest⟩ := Prod.mk.inj (hsplit'.symm.trans hsplit)
  obtain rfl : g' = g := by rw [← hgap', hrest, hgap]
  exact ⟨rfl, rfl, List.append_cancel_left hrest⟩

theorem tokenize_eq_ok_iff : tokenize text = .ok ls ↔
    ∃ ts, Cut (Text.compact text.toList) ts [] [] ∧ ls = Lexeme.tile 0 ts := by
  constructor
  · intro h
    obtain ⟨ts, g, r, hcut⟩ := exists_cut (Text.compact text.toList)
    by_cases hg : g = []
    · subst hg
      obtain rfl := hcut.rest_eq_nil
      exact ⟨ts, hcut, Except.ok.inj (h.symm.trans (tokenize_of_cut hcut))⟩
    · cases h.symm.trans (tokenize_of_gap hcut hg)
  · rintro ⟨ts, hcut, rfl⟩
    exact tokenize_of_cut hcut

/-- Each lexeme is the longest that starts where it does. -/
theorem Cut.isLongest {before after : List (List Char)} {t : List Char}
    (h : Cut s (before ++ t :: after) g r) :
    IsLongest IsLexeme t ((t :: after).flatten ++ g ++ r) := by
  induction before generalizing s with
  | nil =>
    cases h with
    | lexeme hm hs =>
      have := munch_iff_isLongest.1 hm
      rwa [hs.append_eq, ← List.append_assoc, ← List.append_assoc, ← List.flatten_cons] at this
  | cons u before ih =>
    cases h with
    | lexeme _ hs => exact ih hs

-- The point behind the fraction is no part of it, and a letter behind digits is none of them.
example : tokenize " 1.5 .2" = .error (.unexpected 3 ".") ∧
    tokenize "2π+1" = .error (.unexpected 1 "π") := by decide +kernel

end

/-! ### Writing and reading back -/

/-- Lexemes, no two numerals side by side. -/
structure Separate (ts : List (List Char)) : Prop where
  isLexeme : ∀ t ∈ ts, IsLexeme t
  apart : ts.IsChain fun t u => ¬ (IsNumeral t ∧ IsNumeral u)

/-- `s` is `w` with blanks put in, anywhere. -/
inductive Blanked : List Char → List Char → Prop where
  | nil : Blanked [] []
  | char {w s : List Char} (c : Char) (h : Blanked w s) : Blanked (c :: w) (c :: s)
  | blank {w s : List Char} {b : Char} (hb : Text.isBlank b = true) (h : Blanked w s) :
      Blanked w (b :: s)

theorem Blanked.compact_eq {w s : List Char} (h : Blanked w s) :
    Text.compact s = Text.compact w := by
  induction h with
  | nil => rfl
  | @char w s c _ ih =>
    have hcons : ∀ u, Text.compact (c :: u) = Text.compact [c] ++ Text.compact u :=
      fun u => Text.compact_append [c] u
    rw [hcons s, hcons w, ih]
  | blank hb _ ih =>
    rw [← ih]
    exact List.filter_cons_of_neg (by simp [hb])

theorem IsLexeme.isBlank_eq_false {t : List Char} (h : IsLexeme t) {c : Char} (hc : c ∈ t) :
    Text.isBlank c = false := by
  cases h with
  | symbol h =>
    obtain rfl := List.mem_singleton.1 hc
    exact isBlank_of_isSymbol h
  | numeral h =>
    rcases h.digit_or_point hc with hd | rfl
    · exact isBlank_of_isDigit hd
    · rfl

namespace Separate

variable {ts : List (List Char)}

theorem compact_flatten (h : Separate ts) : Text.compact ts.flatten = ts.flatten := by
  refine List.filter_eq_self.2 fun c hc => ?_
  obtain ⟨t, ht, hct⟩ := List.mem_flatten.1 hc
  simp [(h.isLexeme t ht).isBlank_eq_false hct]

/-- Behind a numeral, nothing makes it longer. -/
theorem stopsNumeral {t : List Char} (h : Separate (t :: ts)) (ht : IsNumeral t) :
    StopsNumeral ts.flatten := by
  cases ts with
  | nil => exact stopsNumeral_nil
  | cons u ts =>
    have hu : ¬ IsNumeral u := fun hu => (List.isChain_cons_cons.1 h.apart).1 ⟨ht, hu⟩
    cases h.isLexeme u (by simp) with
    | symbol hc =>
      refine StopsNumeral.cons ?_ ?_ _
      · exact Bool.eq_false_iff.2 fun hd => by simp [isSymbol_of_isDigit hd] at hc
      · rintro rfl
        cases hc
    | numeral hn => exact absurd hn hu

/-- Written side by side, lexemes are cut apart again. -/
theorem cut_flatten (h : Separate ts) : Cut ts.flatten ts [] [] := by
  induction ts with
  | nil => exact .gap (g := []) (forall_not_munch_iff.2 nofun) nofun nofun
  | cons t ts ih =>
    have htail : Separate ts := ⟨fun u hu => h.isLexeme u (List.mem_cons_of_mem _ hu), h.apart.tail⟩
    refine .lexeme ?_ (ih htail)
    cases h.isLexeme t (by simp) with
    | symbol hc => exact .symbol hc _
    | numeral hn => exact .numeral (hn.ends (h.stopsNumeral hn))

end Separate

/-- A cut leaves no two numerals side by side. -/
theorem Cut.separate {s g r : List Char} {ts : List (List Char)} (h : Cut s ts g r) :
    Separate ts := by
  induction h with
  | gap => exact ⟨nofun, .nil⟩
  | @lexeme t s ts g r h hs ih =>
    refine ⟨List.forall_mem_cons.2 ⟨h.isLexeme, ih.isLexeme⟩, List.isChain_cons.2 ⟨?_, ih.apart⟩⟩
    rintro u hu ⟨ht, hn⟩
    obtain ⟨ts, rfl⟩ := List.head?_eq_some_iff.1 hu
    obtain ⟨d, v, rfl, hd⟩ := hn.exists_cons
    -- the digit that the second numeral starts with would have been taken by the first
    have hs : s.head? = some d := by
      rw [hs.append_eq]
      rfl
    cases h with
    | symbol hc _ =>
      refine not_isNumeral_singleton (Bool.eq_false_iff.2 fun hd => ?_) ht
      simp [isSymbol_of_isDigit hd] at hc
    | numeral hends => simp [hends.head?_isDigit d hs] at hd

/-- The texts of lexemes. -/
def Lexeme.texts (ls : List Lexeme) : List (List Char) :=
  ls.map fun l => l.text.toList

theorem Lexeme.texts_tile (start : Nat) (ts : List (List Char)) : texts (tile start ts) = ts := by
  have : texts (tile start ts) = ((tile start ts).map text).map String.toList := by
    rw [List.map_map]
    rfl
  rw [this, map_text_tile, List.map_map]
  simp

/-- **Tokenizing undoes writing.**  Lexemes that are written side by side, no two numerals among
them, are read back from what was written, and from this with any blanks put in.  And what is read
are always such lexemes: they make up the text without its blanks, and are read from it again at the
same places. -/
theorem tokenize_undoes_writing :
    (∀ (ts : List (List Char)) (text : String), Separate ts → Blanked ts.flatten text.toList →
      ∃ ls, tokenize text = .ok ls ∧ Lexeme.texts ls = ts) ∧
    ∀ (text : String) (ls : List Lexeme), tokenize text = .ok ls →
      Separate (Lexeme.texts ls) ∧
      (Lexeme.texts ls).flatten = Text.compact text.toList ∧
      tokenize (String.ofList (Lexeme.texts ls).flatten) = .ok ls := by
  refine ⟨fun ts text h hb => ?_, fun text ls h => ?_⟩
  · have hcut := h.cut_flatten
    rw [← h.compact_flatten, ← hb.compact_eq] at hcut
    exact ⟨_, tokenize_of_cut hcut, Lexeme.texts_tile 0 ts⟩
  · obtain ⟨ts, hcut, rfl⟩ := tokenize_eq_ok_iff.1 h
    have happend : ts.flatten = Text.compact text.toList := by simpa using hcut.append_eq.symm
    rw [Lexeme.texts_tile]
    refine ⟨hcut.separate, happend, tokenize_of_cut (r := []) ?_⟩
    rw [String.toList_ofList, hcut.separate.compact_flatten]
    exact hcut.separate.cut_flatten

/-- Blanks within a numeral and between two symbols, of which no expression is made. -/
theorem tokenize_undoes_writing_within :
    Separate ["12.5".toList, ['-'], ['('], ['3']] ∧
    Blanked "12.5-(3".toList "1 2.\t5- (3 ".toList ∧
    ∃ ls, tokenize "1 2.\t5- (3 " = .ok ls ∧
      Lexeme.texts ls = ["12.5".toList, ['-'], ['('], ['3']] := by
  have digits : ∀ {s : List Char}, s ≠ [] ∧ s.all Char.isDigit = true → IsDigits s := fun h =>
    ⟨h.1, List.all_eq_true.1 h.2⟩
  have hn : IsNumeral "12.5".toList :=
    .fraction (s := ['1', '2']) (t := ['5']) (digits (by decide)) (digits (by decide))
  have hlexemes : ∀ t ∈ ["12.5".toList, ['-'], ['('], ['3']], IsLexeme t := by
    refine List.forall_mem_cons.2 ⟨.numeral hn, List.forall_mem_cons.2 ⟨.symbol rfl,
      List.forall_mem_cons.2 ⟨.symbol rfl, List.forall_mem_cons.2 ⟨?_, nofun⟩⟩⟩⟩
    exact .numeral (.whole (digits (by decide)))
  have hs : Separate ["12.5".toList, ['-'], ['('], ['3']] := by
    refine ⟨hlexemes, .cons_cons ?_ (.cons_cons ?_ (.cons_cons ?_ (.singleton _)))⟩
    · exact fun h => not_isNumeral_singleton rfl h.2
    · exact fun h => not_isNumeral_singleton rfl h.2
    · exact fun h => not_isNumeral_singleton rfl h.1
  have hb : Blanked "12.5-(3".toList "1 2.\t5- (3 ".toList :=
    .char '1' (.blank rfl (.char '2' (.char '.' (.blank rfl (.char '5' (.char '-' (.blank rfl
      (.char '(' (.char '3' (.blank rfl .nil))))))))))
  exact ⟨hs, hb, tokenize_undoes_writing.1 _ _ hs hb⟩

end InfixArith
