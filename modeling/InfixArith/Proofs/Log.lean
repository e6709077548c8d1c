import InfixArith.Proofs.Listing
import InfixArith.Proofs.Readings
import InfixArith.Proofs.Unformatted

/-!
# What the log tells

A calculation notes three things at most: that its text was cut into lexemes, that the tokens came
into postfix order, and the value.  How many of them it notes depends on the outcome alone
(`recorded`), so that the log tells how far the calculation got and never that it failed.

A calculation ends in one of four ways (`Concludes`): a violation of the format, a literal or a
parenthesis that is wrong, an operation that fails, a value.  What is noted until then is true
(`Told`).  The lexemes are as many as the terminals that the grammar finds.  The listing has a word
for each of them but the parentheses (`exists_words`), since nothing else is lost on the way to
postfix order.  And the value is the outcome.
-/

namespace InfixArith

/-- How many things a calculation notes that comes out so. -/
def recorded {α : Type} : Except Error α → Nat
  | .ok _ => 3
  | .error (.arithmetic _) => 2
  | .error (.unreadable _) | .error .unbalanced => 1
  | .error (.format _) | .error (.malformed _) | .error (.unexpected _ _) => 0

/-! ### What is noted -/

section

variable {α : Type} [Numeric α] {text : String} {ts : List Terminal} {out : List (Token α)}

theorem records_convert_of_violation {e : Error} (h : validate text = .error e) :
    (convert (α := α) text).records = [] :=
  Logged.records_bind_of_error h _

/-- The lexemes are noted before a literal is read. -/
theorem records_convert_of_format (hf : format text = .ok ts) :
    (convert (α := α) text).records = .tokenized text ts.length ::
      match postfixOf (α := α) text with
      | .ok out => [.converted (Token.listing out)]
      | .error _ => [] := by
  obtain ⟨hfollows, hs⟩ := format_eq_ok_iff.1 hf
  have hv := validate_eq_ok_iff.2 ⟨ts, hf⟩
  have ht := hfollows.tokenize_eq hs
  have hlength : (Lexeme.tile 0 (ts.map Terminal.text)).length = ts.length := by
    rw [← List.length_map Lexeme.text, Lexeme.map_text_tile, List.length_map, List.length_map]
  rw [convert, Logged.records_bind_of_ok (a := ()) hv, Logged.records_bind_of_ok ht,
    Logged.records_bind_of_ok (Logged.outcome_note _), hlength, postfixOf_eq, hv, ht,
    Outcome.ok_bind, Outcome.ok_bind]
  refine congrArg (_ :: ·) ?_
  cases hk : classifyAll (α := α) (Lexeme.tile 0 (ts.map Terminal.text)) with
  | error e => rw [Logged.records_bind_of_error (e := e) rfl]; rfl
  | ok ks =>
    rw [Logged.records_bind_of_ok (a := ks) rfl, Outcome.ok_bind]
    cases ho : toPostfix ks with
    | error e => rw [Logged.records_bind_of_error (e := e) rfl]; rfl
    | ok out => rfl

/-- The value is noted, if there is one. -/
theorem records_calculate (text : String) :
    (calculate (α := α) text).records = (convert (α := α) text).records ++
      match evaluate (α := α) text with
      | .ok v => [.valued text (Numeric.render v) (Numeric.kind α)]
      | .error _ => [] := by
  rw [evaluate_eq, calculate]
  cases hp : postfixOf (α := α) text with
  | error e => rw [Logged.records_bind_of_error hp, Outcome.error_bind, List.append_nil]
  | ok out =>
    rw [Logged.records_bind_of_ok hp, Outcome.ok_bind]
    refine congrArg (_ ++ ·) ?_
    cases hv : evaluatePostfix out with
    | error e => rw [Logged.records_bind_of_error (e := e) rfl]; rfl
    | ok v => rfl

/-! ### How a calculation ends -/

variable (α text) in
/-- The ways in which a calculation ends: with an outcome, and with these records. -/
inductive Concludes : Except Error α → List Record → Prop
  | violation {f : FormatError} (h : validate text = .error (.format f)) :
      Concludes (.error (.format f)) []
  | refused {ts : List Terminal} {e : Error} (hf : format text = .ok ts)
      (he : (∃ u, e = .unreadable u) ∨ e = .unbalanced) :
      Concludes (.error e) [.tokenized text ts.length]
  | failed {ts : List Terminal} {out : List (Token α)} {fault : Fault}
      (hf : format text = .ok ts) (hp : postfixOf text = .ok out) :
      Concludes (.error (.arithmetic fault))
        [.tokenized text ts.length, .converted (Token.listing out)]
  | computed {ts : List Terminal} {out : List (Token α)} {v : α}
      (hf : format text = .ok ts) (hp : postfixOf text = .ok out) :
      Concludes (.ok v) [.tokenized text ts.length, .converted (Token.listing out),
        .valued text (Numeric.render v) (Numeric.kind α)]

/-- Behind the format, only literals and parentheses keep tokens from coming into order. -/
theorem refused_cases (hf : format text = .ok ts) {e : Error}
    (h : postfixOf (α := α) text = .error e) : (∃ u, e = .unreadable u) ∨ e = .unbalanced := by
  rw [postfixOf_of_format hf] at h
  rcases Outcome.bind_eq_error_iff.1 h with h | ⟨ks, -, h⟩
  · obtain ⟨u, -, hu⟩ := Outcome.mapError_eq_error_iff.1 h
    exact .inl ⟨u, hu.symm⟩
  · exact .inr (Token.eq_unbalanced_of_toPostfix h)

/-- What is in order has a value, or an operation fails. -/
theorem evaluatePostfix_cases (h : postfixOf text = .ok out) :
    (∃ v, evaluatePostfix out = .ok v) ∨ ∃ f, evaluatePostfix out = .error (.arithmetic f) := by
  have heval : evaluate (α := α) text = evaluatePostfix out := by
    rw [evaluate_eq, h, Outcome.ok_bind]
  rcases outcome_cases α text with ⟨e, -, he⟩ | ⟨ts, hf, hr, hb⟩
  · cases h.symm.trans he
  · rw [← heval]
    exact (computed_cases hf hr hb).2

/-- **Each calculation ends in one of these ways.** -/
theorem concludes (α : Type) [Numeric α] (text : String) :
    Concludes α text (evaluate text) (calculate (α := α) text).records := by
  rw [records_calculate]
  cases hv : validate text with
  | error e =>
    obtain ⟨f, rfl⟩ := format_of_validate_eq_error hv
    rw [records_convert_of_violation hv,
      evaluate_of_postfixOf_eq_error (postfixOf_of_violation hv)]
    exact .violation hv
  | ok _ =>
    obtain ⟨ts, hf⟩ := validate_eq_ok_iff.1 hv
    rw [records_convert_of_format hf]
    cases hp : postfixOf (α := α) text with
    | error e =>
      rw [evaluate_of_postfixOf_eq_error hp]
      exact .refused hf (refused_cases hf hp)
    | ok out =>
      rw [evaluate_eq, hp, Outcome.ok_bind]
      rcases evaluatePostfix_cases hp with ⟨v, hv⟩ | ⟨fault, hv⟩
      · rw [hv]
        exact .computed hf hp
      · rw [hv]
        exact .failed hf hp

namespace Concludes

variable {outcome : Except Error α} {records : List Record}

theorem records_eq (h : Concludes α text outcome records) : ∃ count listing value, records =
    [.tokenized text count, .converted listing, .valued text value (Numeric.kind α)].take
      (recorded outcome) := by
  cases h with
  | violation => exact ⟨0, "", "", rfl⟩
  | refused hf he => rcases he with ⟨u, rfl⟩ | rfl <;> exact ⟨_, "", "", rfl⟩
  | failed hf hp => exact ⟨_, _, "", rfl⟩
  | computed hf hp => exact ⟨_, _, _, rfl⟩

theorem tokenized (h : Concludes α text outcome records) {s : String} {count : Nat}
    (hr : .tokenized s count ∈ records) : ∃ ts, format text = .ok ts ∧ count = ts.length := by
  cases h with
  | violation => cases hr
  | @refused ts _ hf | @failed ts _ _ hf | @computed ts _ _ hf =>
    have : s = text ∧ count = ts.length := by simpa using hr
    exact ⟨ts, hf, this.2⟩

theorem converted (h : Concludes α text outcome records) {listing : String}
    (hr : .converted listing ∈ records) : ∃ ts, ∃ out : List (Token α),
      format text = .ok ts ∧ postfixOf text = .ok out ∧ listing = Token.listing out := by
  cases h with
  | violation | refused => simp at hr
  | failed hf hp | computed hf hp => exact ⟨_, _, hf, hp, by simpa using hr⟩

theorem valued (h : Concludes α text outcome records) {s value : String} {kind : Kind}
    (hr : .valued s value kind ∈ records) : ∃ v, outcome = .ok v ∧
      s = text ∧ value = Numeric.render v ∧ kind = Numeric.kind α := by
  cases h with
  | violation | refused | failed => simp at hr
  | computed => exact ⟨_, rfl, by simpa using hr⟩

end Concludes

end

/-! ### The words of a listing -/

/-- A parenthesis of the text is one among the tokens. -/
theorem countP_isParenthesis_eq {α : Type} [Numeric α] {text : String} {ts : List Terminal}
    {ks : List (Token α)} (hf : format text = .ok ts) (hks : ts.mapM Terminal.token = .ok ks) :
    text.toList.countP IsParenthesis = ks.countP Token.isParenthesis := by
  have hlength := congrArg List.length (marks_tokens_eq hf hks)
  rw [Balanced.length_marks, Balanced.length_marks] at hlength
  have hchar : (fun c : Char => decide (IsParenthesis c)) = fun c => c == '(' || c == ')' := by
    funext c
    exact Bool.decide_or _ _
  rw [hchar, ← hlength]
  rfl

/-- A text is listed with a word for each terminal but the parentheses, and one space between the
words. -/
theorem exists_words {k : Kind} {text : String} {ts : List Terminal} {out : List (Token k.Value)}
    (hf : format text = .ok ts) (hp : postfixOf text = .ok out) : ∃ words,
      Token.listing out = String.ofList ([' '].intercalate words) ∧ (∀ s ∈ words, IsWord s) ∧
      words.length + text.toList.countP IsParenthesis = ts.length := by
  refine ⟨_, rfl, List.forall_mem_map.2 fun t _ => t.isWord_render, ?_⟩
  obtain ⟨us, ks, hf', hks, ho⟩ := postfixOf_eq_ok_iff.1 hp
  cases hf.symm.trans hf'
  have hloose := Token.loosest_of_hasOwnRank (Terminal.hasOwnRank_of_mapM_token hks)
  rw [List.length_map, countP_isParenthesis_eq hf hks, ← length_of_mapM_token hks]
  exact length_of_toPostfix ho ((Token.exists_toPostfix_iff hloose).1 ⟨out, ho⟩)

/-! ### The log -/

/-- What the log of a calculation tells. -/
structure Told (k : Kind) (text : String) : Prop where
  /-- The outcome decides how many of three things are noted, in this order. -/
  records_eq : ∃ count listing value, (calculate (α := k.Value) text).records =
    [.tokenized text count, .converted listing, .valued text value k].take
      (recorded (evaluate (α := k.Value) text))
  /-- There are no other outcomes than those with a number of records of their own. -/
  error_cases : ∀ e, evaluate (α := k.Value) text = .error e → (∃ f, e = .format f) ∨
    (∃ u, e = .unreadable u) ∨ e = .unbalanced ∨ ∃ f, e = .arithmetic f
  /-- The count is that of the terminals. -/
  tokenized : ∀ s count, .tokenized s count ∈ (calculate (α := k.Value) text).records →
    ∃ ts, Peg.match? text.toList = some ts ∧ count = ts.length
  /-- The listing is that of the order, with a word for each terminal but the parentheses. -/
  converted : ∀ listing, .converted listing ∈ (calculate (α := k.Value) text).records →
    ∃ ts words, ∃ out : List (Token k.Value), Peg.match? text.toList = some ts ∧
      postfixOf text = .ok out ∧ listing = Token.listing out ∧
      listing = String.ofList ([' '].intercalate words) ∧ (∀ s ∈ words, IsWord s) ∧
      words.length + text.toList.countP IsParenthesis = ts.length
  /-- The value is the outcome, and it is shown with the name of its kind. -/
  valued : ∀ s value l, .valued s value l ∈ (calculate (α := k.Value) text).records →
    ∃ v : k.Value, evaluate text = .ok v ∧ value = Numeric.render v ∧
      (Record.valued s value l).message =
        Text.quoted text ++ " = " ++ Numeric.render v ++ " (" ++ k.name ++ ")"

/-- **The log tells how far a calculation got.**  There are no records of a text that violates the
format, one if a literal or a parenthesis is wrong, two if an operation fails, and three if there is
a value; and what they say is true. -/
theorem log_tells (k : Kind) (text : String) : Told k text := by
  have h := concludes k.Value text
  constructor
  case records_eq => simpa only [Kind.kind_value] using h.records_eq
  case error_cases => exact fun e he => error_cases (.inr he)
  case tokenized =>
    intro s count hr
    obtain ⟨ts, hf, hcount⟩ := h.tokenized hr
    exact ⟨ts, match?_eq_some_iff_format.2 hf, hcount⟩
  case converted =>
    intro listing hr
    obtain ⟨ts, out, hf, hp, rfl⟩ := h.converted hr
    obtain ⟨words, hwords⟩ := exists_words hf hp
    exact ⟨ts, words, out, match?_eq_some_iff_format.2 hf, hp, rfl, hwords⟩
  case valued =>
    intro s value l hr
    obtain ⟨v, hv, rfl, rfl, rfl⟩ := h.valued hr
    rw [Kind.kind_value]
    exact ⟨v, hv, rfl, rfl⟩

/-- Five lexemes, and three of them in the listing; the division then fails. -/
theorem log_tells_division :
    (calculate (α := Kind.Value .int32) "( 7 )/0").records =
      [.tokenized "( 7 )/0" 5, .converted "7 0 /"] ∧
    (∃ ts, Peg.match? "( 7 )/0".toList = some ts ∧ ts.length = 5) ∧
    ∃ words, "7 0 /" = String.ofList ([' '].intercalate words) ∧ (∀ s ∈ words, IsWord s) ∧
      words.length = 3 := by
  have hr : (calculate (α := Kind.Value .int32) "( 7 )/0").records =
      [.tokenized "( 7 )/0" 5, .converted "7 0 /"] := by decide +kernel
  have h := log_tells .int32 "( 7 )/0"
  obtain ⟨ts, hts, hcount⟩ := h.tokenized "( 7 )/0" 5 (by simp [hr])
  obtain ⟨us, words, out, hus, -, -, hlisting, hwords, hlength⟩ := h.converted "7 0 /" (by simp [hr])
  cases hts.symm.trans hus
  have hparentheses : "( 7 )/0".toList.countP IsParenthesis = 2 := by decide
  exact ⟨hr, ⟨ts, hts, hcount.symm⟩, words, hlisting, hwords, by omega⟩

end InfixArith
