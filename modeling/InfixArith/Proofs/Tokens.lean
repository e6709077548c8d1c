import InfixArith.Proofs.Lexemes
import InfixArith.Proofs.Nesting
import InfixArith.Proofs.Terminals

/-!
# The tokens of a text that keeps to the format

A text is read twice: once against the format, with its blanks, and once into lexemes and tokens,
without them.  The second reading finds what the first one did.

* `Follows.tokenize_eq`: the lexemes are the texts of the terminals.  Two terminals that stand
  side by side are never cut differently, for no two numbers do (`Follows.separate`).
* `Follows.classifyAfter_eq`: each lexeme becomes the token of its terminal.  A minus is told
  apart by the token before it, the format tells it apart by what it expects; a group starts for
  the one where it starts for the other.

`postfixOf_of_format` puts the two together: only the literals are left to be read, and the
tokens to be reordered.
-/

namespace InfixArith

/-! ### Lexemes -/

/-- A numeral comes where an operand may, and completes it. -/
theorem Terminal.Fits.of_isNumeral {q : Expecting} {t : Terminal} (h : t.Fits q)
    (hn : IsNumeral t.text) : q ≠ .continuation ∧ t.follow = .continuation := by
  cases h with
  | number hq _ => exact ⟨hq, rfl⟩
  | negation | opening | closing => exact absurd hn (not_isNumeral_singleton rfl)
  | binary op => cases op <;> exact absurd hn (not_isNumeral_singleton rfl)

namespace Follows

/-- No two numbers stand side by side. -/
theorem separate {q : Expecting} {ts : List Terminal} (h : Follows q ts) :
    Separate (ts.map Terminal.text) := by
  refine ⟨h.ofLexemes_texts.1, ?_⟩
  induction h with
  | done => exact .nil
  | @step q t ts h hts ih =>
    refine List.isChain_cons.2 ⟨?_, ih⟩
    rintro u hu ⟨ht, hn⟩
    obtain ⟨us, hus⟩ := List.head?_eq_some_iff.1 hu
    obtain ⟨t', ts', rfl, rfl, -⟩ := List.map_eq_cons_iff.1 hus
    obtain ⟨-, hfollow⟩ := h.of_isNumeral ht
    rw [hfollow] at hts
    exact ((cons_iff.1 hts).1.of_isNumeral hn).1 rfl

theorem isBlank_eq_false {q : Expecting} {ts : List Terminal} (h : Follows q ts) :
    ∀ w ∈ ts.map Terminal.text, ∀ c ∈ w, Text.isBlank c = false :=
  fun w hw _ hc => (h.separate.isLexeme w hw).isBlank_eq_false hc

/-- **The lexemes of a text are the texts of its terminals.** -/
theorem tokenize_eq {q : Expecting} {ts : List Terminal} (h : Follows q ts) {text : String}
    (hs : Spaced (ts.map Terminal.text) text.toList) :
    tokenize text = .ok (Lexeme.tile 0 (ts.map Terminal.text)) := by
  refine tokenize_of_cut (r := []) ?_
  rw [hs.compact_eq h.isBlank_eq_false]
  exact h.separate.cut_flatten

end Follows

/-! ### Tokens -/

variable {α : Type} [Numeric α]

/-- **The lexemes of terminals become the tokens of the terminals**, if the token before them and
the format agree on whether a group starts. -/
theorem Follows.classifyAfter_eq {q : Expecting} {ts : List Terminal} (h : Follows q ts)
    {previous : Option (Token α)} (hp : Token.startsGroup previous = true ↔ q = .group)
    (start : Nat) : Token.classifyAfter previous (Lexeme.tile start (ts.map Terminal.text)) =
      (ts.mapM Terminal.token).mapError Error.unreadable := by
  obtain ⟨hlexemes, hterminals⟩ := h.ofLexemes_texts
  have hstarts : Token.startsGroup previous = decide (q = .group) := by
    rw [Bool.eq_iff_iff, hp, decide_eq_true_iff]
  rw [classifyAfter_tile hlexemes, hstarts, hterminals]

/-- A text that keeps to the format: its literals are read, and its tokens reordered. -/
theorem postfixOf_of_format {text : String} {ts : List Terminal} (h : format text = .ok ts) :
    postfixOf (α := α) text = (ts.mapM Terminal.token).mapError Error.unreadable >>= toPostfix := by
  obtain ⟨hf, hs⟩ := format_eq_ok_iff.1 h
  have hc : classifyAll (Lexeme.tile 0 (ts.map Terminal.text)) =
      (ts.mapM (Terminal.token (α := α))).mapError Error.unreadable :=
    hf.classifyAfter_eq ⟨fun _ => rfl, fun _ => rfl⟩ 0
  rw [postfixOf_eq, validate_eq_ok_iff.2 ⟨ts, h⟩, hf.tokenize_eq hs, ← hc]
  rfl

/-- What a text must have to come into postfix order: a format, a token for each terminal, and an
order of the tokens. -/
theorem postfixOf_eq_ok_iff {text : String} {out : List (Token α)} :
    postfixOf text = .ok out ↔
      ∃ ts ks, format text = .ok ts ∧ ts.mapM Terminal.token = .ok ks ∧ toPostfix ks = .ok out := by
  constructor
  · intro h
    cases hv : validate text with
    | error e =>
      rw [postfixOf_eq, hv] at h
      cases h
    | ok _ =>
      obtain ⟨ts, hf⟩ := validate_eq_ok_iff.1 hv
      rw [postfixOf_of_format hf] at h
      obtain ⟨ks, hks, hout⟩ := Outcome.bind_eq_ok_iff.1 h
      exact ⟨ts, ks, hf, Outcome.mapError_eq_ok_iff.1 hks, hout⟩
  · rintro ⟨ts, ks, hf, hks, hout⟩
    rw [postfixOf_of_format hf, hks]
    exact hout

end InfixArith
