import InfixArith.Proofs.Forest
import InfixArith.Proofs.Literals
import InfixArith.Proofs.Tokens

/-!
# What is no expression

The stages behind the format do not rely on it.  Whatever can be cut into lexemes is brought as far
as the values, or it stops for a reason that has to do with its numbers, its parentheses or its
operations, and never because one stage gives something that the next does not know
(`lexemes_to_value`).

The lexemes stand for terminals, though these need not follow one another.  So their tokens are
known (`classifyAll_tile`), and with them the literals and the parentheses.  In the postfix order no
parenthesis is left, and nothing at all is left exactly where there was nothing else.
-/

namespace InfixArith

open InfixArith.Balanced (marks)

/-! ### Parentheses -/

/-- A text without its blanks has the same parentheses. -/
theorem marks_compact (s : List Char) :
    marks (· == '(') (· == ')') (Text.compact s) = marks (· == '(') (· == ')') s := by
  induction s with
  | nil => rfl
  | cons c s ih =>
    have hcompact : Text.compact (c :: s) = Text.compact [c] ++ Text.compact s :=
      Text.compact_append [c] s
    have hsplit : c :: s = [c] ++ s := rfl
    have hc : marks (· == '(') (· == ')') (Text.compact [c]) = marks (· == '(') (· == ')') [c] := by
      cases hb : Text.isBlank c with
      | true => rcases isBlank_iff.1 hb with rfl | rfl <;> rfl
      | false => rw [Text.compact, List.filter_cons_of_pos (by simp [hb]), List.filter_nil]
    rw [hcompact, hsplit, Balanced.marks_append, Balanced.marks_append, hc, ih]

theorem balanced_compact_iff (s : List Char) :
    Balanced.Text (Text.compact s) ↔ Balanced.Text s := by
  exact Balanced.balanced_iff_text (fun c hc => by rw [eq_of_beq hc]; rfl) (marks_compact s)

/-- An opening or a closing parenthesis. -/
def IsParenthesis (c : Char) : Prop :=
  c = '(' ∨ c = ')'

instance : DecidablePred IsParenthesis :=
  fun c => inferInstanceAs (Decidable (c = '(' ∨ c = ')'))

section

variable {us : List Terminal}

/-- Terminals that fit somewhere have the parentheses of their texts. -/
theorem marks_flatten_texts (h : ∀ t ∈ us, ∃ q, t.Fits q) :
    marks (· == '(') (· == ')') (us.map Terminal.text).flatten =
      marks (· == Terminal.opening) (· == Terminal.closing) us := by
  induction us with
  | nil => rfl
  | cons t us ih =>
    obtain ⟨⟨q, hq⟩, hus⟩ := List.forall_mem_cons.1 h
    rw [List.map_cons, List.flatten_cons, Balanced.marks_append, hq.marks_text, ih hus,
      ← Balanced.marks_append]
    rfl

variable {α : Type} [Numeric α] {ks : List (Token α)}

/-- A token is a parenthesis when its text is made of nothing else. -/
theorem Terminal.Fits.isParenthesis_iff {q : Expecting} {t : Terminal} (h : t.Fits q)
    {k : Token α} (hk : t.token = .ok k) :
    k.isParenthesis = true ↔ ∀ c ∈ t.text, IsParenthesis c := by
  cases h with
  | number _ hs =>
    obtain ⟨v, -, rfl⟩ := Outcome.map_eq_ok_iff.1 hk
    obtain ⟨c, u, rfl, hc⟩ := hs.exists_cons
    refine ⟨nofun, fun hall => ?_⟩
    rcases hall c List.mem_cons_self with rfl | rfl <;> cases hc
  | negation =>
    cases hk
    exact ⟨nofun, fun hall => absurd (hall '-' List.mem_cons_self) (by decide)⟩
  | opening =>
    cases hk
    exact ⟨fun _ => List.forall_mem_singleton.2 (.inl rfl), fun _ => rfl⟩
  | closing =>
    cases hk
    exact ⟨fun _ => List.forall_mem_singleton.2 (.inr rfl), fun _ => rfl⟩
  | binary op =>
    cases hk
    refine ⟨nofun, fun hall => absurd (hall op.symbol List.mem_cons_self) ?_⟩
    cases op <;> decide

theorem forall_isParenthesis_iff (h : ∀ t ∈ us, ∃ q, t.Fits q)
    (hks : us.mapM Terminal.token = .ok ks) : (∀ k ∈ ks, k.isParenthesis = true) ↔
      ∀ c ∈ (us.map Terminal.text).flatten, IsParenthesis c := by
  induction us generalizing ks with
  | nil =>
    cases hks
    exact ⟨fun _ => nofun, fun _ => nofun⟩
  | cons t us ih =>
    obtain ⟨⟨q, hq⟩, hus⟩ := List.forall_mem_cons.1 h
    obtain ⟨k, ks, hk, hrest, rfl⟩ := Terminal.mapM_token_cons_iff.1 hks
    rw [List.forall_mem_cons, ih hus hrest, hq.isParenthesis_iff hk, List.map_cons,
      List.flatten_cons, List.forall_mem_append]

/-! ### The order and its value -/

section

variable {ts out : List (Token α)}

omit [Numeric α] in
/-- Balanced tokens leave no parenthesis in the order. -/
theorem isParenthesis_eq_false_of_toPostfix (h : toPostfix ts = .ok out)
    (hb : Balanced Token.isOpening Token.isClosing ts) : ∀ k ∈ out, k.isParenthesis = false := by
  have hsheds := Token.toPostfix_sheds h
  intro k hk
  rw [Token.isParenthesis, hsheds.isOpening_eq_false hb.settled k hk,
    hsheds.isClosing_eq_false k hk]
  rfl

omit [Numeric α] in
/-- The order has all tokens but the parentheses. -/
theorem perm_of_toPostfix (h : toPostfix ts = .ok out)
    (hb : Balanced Token.isOpening Token.isClosing ts) :
    out.Perm (ts.filter fun k => !k.isParenthesis) := by
  have hkept : out.filter (fun k => !k.isParenthesis) = out :=
    List.filter_eq_self.2 fun k hk => by simp [isParenthesis_eq_false_of_toPostfix h hb k hk]
  have hperm := (Token.toPostfix_sheds h).perm_filter
  rwa [hkept] at hperm

omit [Numeric α] in
theorem length_of_toPostfix (h : toPostfix ts = .ok out)
    (hb : Balanced Token.isOpening Token.isClosing ts) :
    out.length + ts.countP Token.isParenthesis = ts.length := by
  rw [(perm_of_toPostfix h hb).length_eq, List.countP_eq_length_filter, Nat.add_comm]
  exact (List.length_eq_length_filter_add _).symm

omit [Numeric α] in
/-- Nothing is left of parentheses alone, and of nothing else. -/
theorem eq_nil_iff_of_toPostfix (h : toPostfix ts = .ok out)
    (hb : Balanced Token.isOpening Token.isClosing ts) :
    out = [] ↔ ∀ k ∈ ts, k.isParenthesis = true := by
  have hnil : out = [] ↔ ts.filter (fun k => !k.isParenthesis) = [] := by
    rw [← List.length_eq_zero_iff, (perm_of_toPostfix h hb).length_eq, List.length_eq_zero_iff]
  rw [hnil, List.filter_eq_nil_iff]
  simp

theorem evaluatePostfix_eq_noValue_iff :
    evaluatePostfix ts = .error (.malformed .noValue) ↔ ts = [] := by
  rw [evaluatePostfix_eq_error_iff]
  constructor
  · intro h
    cases h with
    | refused _ ht _ => cases ht
    | noValue => rfl
  · rintro rfl
    exact .noValue

theorem evaluatePostfix_ne_parenthesis (h : ∀ k ∈ ts, k.isParenthesis = false) :
    evaluatePostfix ts ≠ .error (.malformed .parenthesis) := by
  rw [Ne, evaluatePostfix_eq_error_iff]
  intro hfails
  cases hfails with
  | refused _ ht _ => cases ht with
    | opening _ rank => cases h (.operator .opening rank) (by simp)
    | closing _ rank => cases h (.operator .closing rank) (by simp)

end

end

/-! ### Numerals -/

/-- The numerals among lexemes: those that start with a digit. -/
def Lexeme.numerals (ls : List Lexeme) : List String :=
  (ls.map text).filter fun t => t.toList.head?.any Char.isDigit

/-- The literals of terminals are the numerals among their texts. -/
theorem literals_eq_filter {us : List Terminal} (h : ∀ t ∈ us, ∃ q, t.Fits q) :
    Terminal.literals us = ((us.map Terminal.text).map String.ofList).filter
      fun t => t.toList.head?.any Char.isDigit := by
  induction us with
  | nil => rfl
  | cons t us ih =>
    obtain ⟨⟨q, hq⟩, hus⟩ := List.forall_mem_cons.1 h
    have symbol : ∀ {c : Char}, c.isDigit = false → t.text = [c] →
        Terminal.literals (t :: us) = Terminal.literals us → Terminal.literals (t :: us) =
          (((t :: us).map Terminal.text).map String.ofList).filter
            fun t => t.toList.head?.any Char.isDigit := by
      intro c hc ht hl
      rw [hl, ih hus, List.map_cons, List.map_cons, ht, List.filter_cons_of_neg (by simp [hc])]
    cases hq with
    | @number _ _ s hs =>
      obtain ⟨c, u, rfl, hc⟩ := hs.exists_cons
      rw [Terminal.literals_cons_number, ih hus, List.map_cons, List.map_cons, Terminal.text,
        List.filter_cons_of_pos (by simp [hc])]
    | negation | opening | closing => exact symbol rfl rfl rfl
    | binary op => cases op <;> exact symbol rfl rfl rfl

theorem Lexeme.numerals_tile {ts : List (List Char)} (h : ∀ t ∈ ts, IsLexeme t) (start : Nat)
    (starts : Bool) : numerals (tile start ts) =
      Terminal.literals (Terminal.ofLexemes starts ts) := by
  obtain ⟨htexts, hfits⟩ := Terminal.ofLexemes_spec h starts
  rw [literals_eq_filter hfits, htexts, numerals, map_text_tile]

/-! ### From the lexemes to the value -/

variable {α : Type} [Numeric α]

theorem forall₂_of_mapM_token {us : List Terminal} {ks : List (Token α)}
    (h : us.mapM Terminal.token = .ok ks) :
    List.Forall₂ (fun s k => ∃ t : Terminal, t.text = s ∧ t.token = .ok k)
      (us.map Terminal.text) ks := by
  induction us generalizing ks with
  | nil =>
    cases h
    exact .nil
  | cons t us ih =>
    obtain ⟨k, ks, hk, hrest, rfl⟩ := Terminal.mapM_token_cons_iff.1 h
    exact .cons ⟨t, rfl, hk⟩ (ih hrest)

/-- Tokens fail at the leftmost literal that is unreadable, and nowhere else. -/
theorem mapM_token_eq_error_iff {us : List Terminal} {e : Unreadable} :
    us.mapM (Terminal.token (α := α)) = .error e ↔ ∃ before l after,
      Terminal.literals us = before ++ l :: after ∧ (∀ k ∈ before, Readable α k) ∧
        Numeric.parse (α := α) l = .error e := by
  constructor
  · intro h
    rcases readable_or_leftmost (α := α) (Terminal.literals us) with
      hr | ⟨before, l, after, u, hl, hb, hu⟩
    · obtain ⟨ks, hks⟩ := Terminal.exists_mapM_token hr
      cases h.symm.trans hks
    · cases h.symm.trans (Terminal.mapM_token_eq_error hl hb hu)
      exact ⟨before, l, after, hl, hb, hu⟩
  · rintro ⟨before, l, after, hl, hb, he⟩
    exact Terminal.mapM_token_eq_error hl hb he

section

variable {ts : List (List Char)}

theorem classifyAll_eq_ok_iff (h : ∀ t ∈ ts, IsLexeme t) {ks : List (Token α)} :
    classifyAll (Lexeme.tile 0 ts) = .ok ks ↔
      (Terminal.ofLexemes true ts).mapM Terminal.token = .ok ks := by
  rw [classifyAll_tile h, Outcome.mapError_eq_ok_iff]

/-- Lexemes are classified unless a numeral is unreadable, and the leftmost such is the error. -/
theorem classifyAll_eq_error_iff (h : ∀ t ∈ ts, IsLexeme t) {e : Error} :
    classifyAll (α := α) (Lexeme.tile 0 ts) = .error e ↔ ∃ before l after u,
      Lexeme.numerals (Lexeme.tile 0 ts) = before ++ l :: after ∧
        (∀ k ∈ before, Readable α k) ∧ Numeric.parse (α := α) l = .error u ∧
        e = .unreadable u := by
  rw [classifyAll_tile h, Outcome.mapError_eq_error_iff, Lexeme.numerals_tile h 0 true]
  simp only [mapM_token_eq_error_iff]
  constructor
  · rintro ⟨u, ⟨before, l, after, hl, hb, hu⟩, rfl⟩
    exact ⟨before, l, after, u, hl, hb, hu, rfl⟩
  · rintro ⟨before, l, after, u, hl, hb, hu, rfl⟩
    exact ⟨u, ⟨before, l, after, hl, hb, hu⟩, rfl⟩

end

variable (α) in
/-- How far lexemes get that make up a text, and what can stop them. -/
structure StagesAgree (text : String) (ls : List Lexeme) : Prop where
  /-- Only a numeral can stop them from being classified, the leftmost that is unreadable. -/
  error e : classifyAll (α := α) ls = .error e ↔ ∃ before l after u,
    Lexeme.numerals ls = before ++ l :: after ∧ (∀ k ∈ before, Readable α k) ∧
      Numeric.parse (α := α) l = .error u ∧ e = .unreadable u
  unexpected offset piece : classifyAll (α := α) ls ≠ .error (.unexpected offset piece)
  /-- There is one token for each lexeme, one that its text can stand for. -/
  tokens (ks : List (Token α)) : classifyAll ls = .ok ks → (∀ k ∈ ks, k.HasOwnRank) ∧
    List.Forall₂ (fun l k => ∃ t : Terminal, t.text = l.text.toList ∧ t.token = .ok k) ls ks
  /-- Only parentheses can stop them from being reordered. -/
  unbalanced (ks : List (Token α)) : classifyAll ls = .ok ks →
    ((∃ e, toPostfix ks = .error e) ↔ ¬ Balanced.Text text.toList)
  /-- The order has no parenthesis that could stop it from having a value. -/
  parenthesis (ks out : List (Token α)) : classifyAll ls = .ok ks → toPostfix ks = .ok out →
    evaluatePostfix out ≠ .error (.malformed .parenthesis)
  /-- It has nothing where the text had parentheses alone. -/
  noValue (ks out : List (Token α)) : classifyAll ls = .ok ks → toPostfix ks = .ok out →
    (evaluatePostfix out = .error (.malformed .noValue) ↔
      Balanced.Text (Text.compact text.toList) ∧
        ∀ c ∈ Text.compact text.toList, IsParenthesis c)

/-- Tokens with the parentheses of a text are reordered when the text is balanced. -/
theorem exists_toPostfix_iff_balanced {us : List Terminal} {ks : List (Token α)} {s : List Char}
    (hfits : ∀ t ∈ us, ∃ q, t.Fits q) (hks : us.mapM Terminal.token = .ok ks)
    (hs : Text.compact s = (us.map Terminal.text).flatten) :
    (Balanced Token.isOpening Token.isClosing ks ↔ Balanced.Text s) ∧
      ((∃ out, toPostfix ks = .ok out) ↔ Balanced.Text s) := by
  have hmarks : marks Token.isOpening Token.isClosing ks = marks (· == '(') (· == ')') s := by
    rw [Terminal.marks_of_mapM_token hks, ← marks_flatten_texts hfits, ← hs, marks_compact]
  have hb : Balanced Token.isOpening Token.isClosing ks ↔ Balanced.Text s :=
    Balanced.balanced_iff_text Token.isClosing_of_isOpening hmarks
  have hloose := Token.loosest_of_hasOwnRank (Terminal.hasOwnRank_of_mapM_token hks)
  exact ⟨hb, (Token.exists_toPostfix_iff hloose).trans hb⟩

/-- **From the lexemes of any text to its value.**  The text need not be an expression.  Its lexemes
all become tokens unless a numeral is unreadable, the tokens come into postfix order unless the
parentheses do not match, and the order has no parenthesis left, and no token only if there was
nothing but parentheses. -/
theorem lexemes_to_value {text : String} {ls : List Lexeme} (h : tokenize text = .ok ls)
    (α : Type) [Numeric α] : StagesAgree α text ls := by
  obtain ⟨ts, hcut, rfl⟩ := tokenize_eq_ok_iff.1 h
  have hlexemes := hcut.separate.isLexeme
  obtain ⟨htexts, hfits⟩ := Terminal.ofLexemes_spec hlexemes true
  have hs : Text.compact text.toList = ((Terminal.ofLexemes true ts).map Terminal.text).flatten := by
    rw [htexts]
    simpa using hcut.append_eq
  have hok : ∀ {ks : List (Token α)}, classifyAll (Lexeme.tile 0 ts) = .ok ks →
      (Terminal.ofLexemes true ts).mapM Terminal.token = .ok ks := fun hks =>
    (classifyAll_eq_ok_iff hlexemes).1 hks
  constructor
  case error => exact fun _ => classifyAll_eq_error_iff hlexemes
  case unexpected =>
    intro offset piece he
    obtain ⟨_, _, _, _, -, -, -, he⟩ := (classifyAll_eq_error_iff hlexemes).1 he
    cases he
  case tokens =>
    intro ks hks
    have hforall := forall₂_of_mapM_token (hok hks)
    rw [htexts, ← Lexeme.texts_tile 0 ts, Lexeme.texts, List.forall₂_map_left_iff] at hforall
    exact ⟨Terminal.hasOwnRank_of_mapM_token (hok hks), hforall⟩
  case unbalanced =>
    intro ks hks
    rw [← (exists_toPostfix_iff_balanced hfits (hok hks) hs).2]
    cases toPostfix ks <;> simp
  case parenthesis =>
    intro ks out hks ho
    obtain ⟨hb, hex⟩ := exists_toPostfix_iff_balanced hfits (hok hks) hs
    exact evaluatePostfix_ne_parenthesis
      (isParenthesis_eq_false_of_toPostfix ho (hb.2 (hex.1 ⟨out, ho⟩)))
  case noValue =>
    intro ks out hks ho
    obtain ⟨hb, hex⟩ := exists_toPostfix_iff_balanced hfits (hok hks) hs
    have hbalanced := hex.1 ⟨out, ho⟩
    rw [evaluatePostfix_eq_noValue_iff, eq_nil_iff_of_toPostfix ho (hb.2 hbalanced),
      forall_isParenthesis_iff hfits (hok hks), ← hs, balanced_compact_iff]
    exact ⟨fun hall => ⟨hbalanced, hall⟩, And.right⟩

/-- Parentheses alone match, though no expression is made of them, and nothing is left of them to
have a value. -/
theorem lexemes_to_value_parentheses : ∃ ls,
    tokenize "(\t())" = .ok ls ∧ StagesAgree Int "(\t())" ls ∧
    (∃ ks, classifyAll ls = .ok ks ∧ toPostfix (α := Int) ks = .ok []) ∧
    evaluatePostfix (α := Int) [] = .error (.malformed .noValue) := by
  have ht : tokenize "(\t())" =
      .ok [⟨"(", 0, 1⟩, ⟨"(", 1, 2⟩, ⟨")", 2, 3⟩, ⟨")", 3, 4⟩] := by decide +kernel
  have hagree := lexemes_to_value ht Int
  have hk : classifyAll (α := Int) [⟨"(", 0, 1⟩, ⟨"(", 1, 2⟩, ⟨")", 2, 3⟩, ⟨")", 3, 4⟩] =
      .ok ([.opening, .opening, .closing, .closing].map Token.ofOperator) := by rfl
  have hp : toPostfix (α := Int)
      ([.opening, .opening, .closing, .closing].map Token.ofOperator) = .ok [] := by rfl
  have hb : Balanced.Text "(\t())".toList := by
    by_contra hb
    obtain ⟨e, he⟩ := (hagree.unbalanced _ hk).2 hb
    cases hp.symm.trans he
  have hall : ∀ c ∈ Text.compact "(\t())".toList, IsParenthesis c := by
    have hcompact : Text.compact "(\t())".toList = ['(', '(', ')', ')'] := by decide
    rw [hcompact]
    simp [IsParenthesis]
  exact ⟨_, ht, hagree, ⟨_, hk, hp⟩,
    (hagree.noValue _ _ hk hp).2 ⟨(balanced_compact_iff _).2 hb, hall⟩⟩

end InfixArith
