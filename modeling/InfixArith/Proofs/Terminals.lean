import InfixArith.Expression.Terminals
import InfixArith.Proofs.Format
import InfixArith.Proofs.Outcome
import InfixArith.Token.Classify

/-!
# The terminals of lexemes

Each lexeme stands for a terminal.  Its characters tell which one, but for the minus, which negates
where a group starts and subtracts elsewhere (`Terminal.ofLexeme`); and a group starts behind an
opening parenthesis and in front of everything (`Terminal.ofLexemes`).

`classifyAfter_tile`: the tokens of lexemes are those of their terminals.  The terminals need not
follow one another as the format wants it.
-/

namespace InfixArith

namespace Terminal

/-- The terminal of a lexeme; `starts` tells whether a group starts in front of it. -/
def ofLexeme (starts : Bool) : List Char → Terminal
  | ['('] => .opening
  | [')'] => .closing
  | ['+'] => .binary .add
  | ['*'] => .binary .multiply
  | ['/'] => .binary .divide
  | ['-'] => if starts then .negation else .binary .subtract
  | s => .number s

/-- The terminals of lexemes in a row. -/
def ofLexemes (starts : Bool) : List (List Char) → List Terminal
  | [] => []
  | t :: ts =>
    ofLexeme starts t :: ofLexemes (decide ((ofLexeme starts t).follow = .group)) ts

theorem ofLexeme_numeral {t : List Char} (h : IsNumeral t) (starts : Bool) :
    ofLexeme starts t = .number t := by
  obtain ⟨c, u, rfl, hc⟩ := h.exists_cons
  unfold ofLexeme
  split
  case h_7 => rfl
  all_goals
    next heq =>
      cases heq
      cases hc

/-- The terminal of a lexeme is written as the lexeme is, and fits somewhere. -/
theorem ofLexeme_spec {t : List Char} (h : IsLexeme t) (starts : Bool) :
    (ofLexeme starts t).text = t ∧ ∃ q, (ofLexeme starts t).Fits q := by
  cases h with
  | symbol hc =>
    rcases isSymbol_iff.1 hc with rfl | rfl | rfl | rfl | rfl | rfl
    · exact ⟨rfl, .group, .opening (by decide)⟩
    · exact ⟨rfl, .continuation, .closing⟩
    · exact ⟨rfl, .continuation, .binary .add⟩
    · cases starts with
      | true => exact ⟨rfl, .group, .negation⟩
      | false => exact ⟨rfl, .continuation, .binary .subtract⟩
    · exact ⟨rfl, .continuation, .binary .multiply⟩
    · exact ⟨rfl, .continuation, .binary .divide⟩
  | numeral hn =>
    rw [ofLexeme_numeral hn]
    exact ⟨rfl, .operand, .number (by decide) hn⟩

theorem ofLexemes_spec {ts : List (List Char)} (h : ∀ t ∈ ts, IsLexeme t) (starts : Bool) :
    (ofLexemes starts ts).map text = ts ∧ ∀ t ∈ ofLexemes starts ts, ∃ q, t.Fits q := by
  induction ts generalizing starts with
  | nil => exact ⟨rfl, nofun⟩
  | cons t ts ih =>
    obtain ⟨ht, hts⟩ := List.forall_mem_cons.1 h
    obtain ⟨htext, hfits⟩ := ofLexeme_spec ht starts
    obtain ⟨htexts, hall⟩ := ih hts (decide ((ofLexeme starts t).follow = .group))
    rw [ofLexemes, List.map_cons, htext, htexts]
    exact ⟨rfl, List.forall_mem_cons.2 ⟨hfits, hall⟩⟩

/-- A terminal that fits is that of its text, if a group starts where the format expects one. -/
theorem Fits.ofLexeme_text {q : Expecting} {t : Terminal} (h : Fits q t) :
    IsLexeme t.text ∧ ofLexeme (decide (q = .group)) t.text = t := by
  cases h with
  | negation | opening | closing => exact ⟨.symbol rfl, rfl⟩
  | number _ hs => exact ⟨.numeral hs, ofLexeme_numeral hs _⟩
  | binary op => exact ⟨.symbol (isSymbol_symbol op), by cases op <;> rfl⟩

end Terminal

/-- Terminals that follow one another are those of their texts. -/
theorem Follows.ofLexemes_texts {q : Expecting} {ts : List Terminal} (h : Follows q ts) :
    (∀ t ∈ ts.map Terminal.text, IsLexeme t) ∧
      Terminal.ofLexemes (decide (q = .group)) (ts.map Terminal.text) = ts := by
  induction h with
  | done => exact ⟨nofun, rfl⟩
  | step h _ ih =>
    obtain ⟨hlexeme, hterminal⟩ := h.ofLexeme_text
    rw [List.map_cons, Terminal.ofLexemes, hterminal, ih.2]
    exact ⟨List.forall_mem_cons.2 ⟨hlexeme, ih.1⟩, rfl⟩

/-! ### Their tokens -/

variable {α : Type}

theorem operator?_of_isDigit {previous : Option (Token α)} {c : Char} (hc : c.isDigit = true)
    (s : List Char) : Token.operator? previous (c :: s) = none := by
  unfold Token.operator?
  split
  case h_7 => rfl
  all_goals
    next heq =>
      cases heq
      cases hc

variable [Numeric α]

theorem classify_of_operator? {previous : Option (Token α)} {s : List Char} {op : Operator}
    (h : Token.operator? previous s = some op) (start stop : Nat) :
    Token.classify previous ⟨String.ofList s, start, stop⟩ = .ok (.ofOperator op) := by
  simp only [Token.classify, String.toList_ofList, h]

/-- A lexeme becomes the token of its terminal. -/
theorem classify_eq {t : List Char} (h : IsLexeme t) (previous : Option (Token α))
    (start stop : Nat) : Token.classify previous ⟨String.ofList t, start, stop⟩ =
      (Terminal.ofLexeme (Token.startsGroup previous) t).token.mapError Error.unreadable := by
  cases h with
  | symbol hc =>
    rcases isSymbol_iff.1 hc with rfl | rfl | rfl | rfl | rfl | rfl
    case inr.inr.inr.inl =>
      cases hs : Token.startsGroup previous with
      | true => exact classify_of_operator? (by simp [Token.operator?, hs]) start stop
      | false => exact classify_of_operator? (by simp [Token.operator?, hs]) start stop
    all_goals exact classify_of_operator? rfl start stop
  | numeral hn =>
    rw [Terminal.ofLexeme_numeral hn]
    obtain ⟨c, u, rfl, hc⟩ := hn.exists_cons
    simp only [Token.classify, String.toList_ofList, operator?_of_isDigit hc, List.head?_cons,
      Option.any_some, hc, if_true, Terminal.token]
    cases Numeric.parse (α := α) (String.ofList (c :: u)) <;> rfl

/-- A group starts after a terminal when it starts after its token. -/
theorem startsGroup_eq_of_token {t : Terminal} {k : Token α} (h : t.token = .ok k) :
    Token.startsGroup (some k) = decide (t.follow = .group) := by
  cases t with
  | number s =>
    obtain ⟨v, -, rfl⟩ := Outcome.map_eq_ok_iff.1 h
    rfl
  | negation | opening | closing | binary =>
    cases h
    rfl

/-- **The tokens of lexemes are those of their terminals.** -/
theorem classifyAfter_tile {ts : List (List Char)} (h : ∀ t ∈ ts, IsLexeme t)
    (previous : Option (Token α)) (start : Nat) :
    Token.classifyAfter previous (Lexeme.tile start ts) =
      ((Terminal.ofLexemes (Token.startsGroup previous) ts).mapM Terminal.token).mapError
        Error.unreadable := by
  induction ts generalizing previous start with
  | nil => rfl
  | cons t ts ih =>
    obtain ⟨ht, hts⟩ := List.forall_mem_cons.1 h
    rw [Lexeme.tile, Token.classifyAfter, classify_eq ht, Terminal.ofLexemes, List.mapM_cons]
    cases hk : (Terminal.ofLexeme (Token.startsGroup previous) t).token (α := α) with
    | error e => rfl
    | ok k =>
      have := ih hts (some k) (start + Text.byteSize t)
      rw [startsGroup_eq_of_token hk] at this
      simp only [Outcome.mapError_ok, Outcome.ok_bind, this]
      cases (Terminal.ofLexemes _ ts).mapM (Terminal.token (α := α)) <;> rfl

/-- The tokens of all lexemes of a text. -/
theorem classifyAll_tile {ts : List (List Char)} (h : ∀ t ∈ ts, IsLexeme t) :
    classifyAll (α := α) (Lexeme.tile 0 ts) =
      ((Terminal.ofLexemes true ts).mapM Terminal.token).mapError Error.unreadable :=
  classifyAfter_tile h none 0

end InfixArith
