import InfixArith.Proofs.Meaning
import InfixArith.Proofs.Parentheses
import InfixArith.Proofs.Precedence

/-!
# What can go wrong, and in which order

Four things can be wrong with a text: it violates the format, a literal is unreadable, the
parentheses do not match, an operation fails.  They are told apart in this order, wherever in the
text they stand (`Classified`).  Nothing else can go wrong: what keeps to the format has no piece
that is not a lexeme, and what is brought into postfix order leaves one value on the stack.

The first three are the errors of `postfixOf` (`postfixOf_of_violation`, `postfixOf_of_unreadable`,
`postfixOf_of_unbalanced`).  A text with none of them is a chain, a chain has a tree, and the tree
has a value or fails in an operation (`computed_cases`).
-/

namespace InfixArith

variable {α : Type} [Numeric α] {text : String} {ts : List Terminal}

/-! ### The errors before the computation -/

theorem format_of_validate_eq_error {e : Error} (h : validate text = .error e) :
    ∃ f, e = .format f := by
  unfold validate at h
  cases hf : format text with
  | ok ts => rw [hf] at h; cases h
  | error f => rw [hf] at h; cases h; exact ⟨f, rfl⟩

/-- An error of the order is one of the value. -/
theorem evaluate_of_postfixOf_eq_error {e : Error} (h : postfixOf (α := α) text = .error e) :
    evaluate (α := α) text = .error e := by
  rw [evaluate_eq, h]
  rfl

theorem postfixOf_of_violation {e : Error} (h : validate text = .error e) :
    postfixOf (α := α) text = .error e := by
  rw [postfixOf_eq, h]
  rfl

theorem postfixOf_of_unreadable {before after : List String} {l : String} {e : Unreadable}
    (hf : format text = .ok ts) (hl : Terminal.literals ts = before ++ l :: after)
    (hb : ∀ k ∈ before, Readable α k) (he : Numeric.parse (α := α) l = .error e) :
    postfixOf (α := α) text = .error (.unreadable e) := by
  rw [postfixOf_of_format hf, Terminal.mapM_token_eq_error hl hb he]
  rfl

/-- The tokens of a text have its parentheses. -/
theorem marks_tokens_eq {ks : List (Token α)} (hf : format text = .ok ts)
    (hks : ts.mapM Terminal.token = .ok ks) :
    Balanced.marks Token.isOpening Token.isClosing ks =
      Balanced.marks (· == '(') (· == ')') text.toList := by
  obtain ⟨hfollows, hs⟩ := format_eq_ok_iff.1 hf
  rw [Terminal.marks_of_mapM_token hks, hfollows.marks_eq hs]

/-- Parentheses are looked at when the literals are read. -/
theorem postfixOf_of_unbalanced (hf : format text = .ok ts)
    (hr : ∀ l ∈ Terminal.literals ts, Readable α l) (hb : ¬ Balanced.Text text.toList) :
    postfixOf (α := α) text = .error .unbalanced := by
  obtain ⟨ks, hks⟩ := Terminal.exists_mapM_token hr
  have hloose := Token.loosest_of_hasOwnRank (Terminal.hasOwnRank_of_mapM_token hks)
  have hiff : Balanced Token.isOpening Token.isClosing ks ↔ Balanced.Text text.toList :=
    Balanced.balanced_iff_text Token.isClosing_of_isOpening (marks_tokens_eq hf hks)
  rw [postfixOf_of_format hf, hks]
  exact Token.toPostfix_eq_unbalanced hloose (mt hiff.1 hb)

/-! ### The computation -/

/-- A text that keeps to the format and is balanced has a tree. -/
theorem exists_derives (hf : format text = .ok ts) (hb : Balanced.Text text.toList) :
    ∃ t, Derives (.sum true) ts t := by
  obtain ⟨hfollows, hs⟩ := format_eq_ok_iff.1 hf
  obtain ⟨c, rfl⟩ := exists_chain hfollows ((hfollows.balanced_text_iff hs).1 hb)
  exact c.exists_derives

/-- A value or a fault. -/
theorem computed_cases (hf : format text = .ok ts)
    (hr : ∀ l ∈ Terminal.literals ts, Readable α l) (hb : Balanced.Text text.toList) :
    (∃ ks, postfixOf (α := α) text = .ok ks) ∧ ((∃ v, evaluate (α := α) text = .ok v) ∨
      ∃ fault, evaluate (α := α) text = .error (.arithmetic fault)) := by
  obtain ⟨t, ht⟩ := exists_derives hf hb
  obtain ⟨u, hu⟩ := ht.exists_read hr
  refine ⟨⟨_, postfixOf_of_derives hf ht hu⟩, ?_⟩
  rw [evaluate_of_derives hf ht hu]
  cases u.eval with
  | ok v => exact .inl ⟨v, rfl⟩
  | error fault => exact .inr ⟨fault, rfl⟩

/-! ### The classification -/

variable (α) (text)

/-- The outcome of a calculation, by the first thing that is wrong with its text. -/
structure Classified : Prop where
  /-- A violation of the format is an error of every kind, and the same one. -/
  violation : ∀ e, validate text = .error e →
    (∃ f, e = .format f) ∧ postfixOf (α := α) text = .error e ∧ evaluate (α := α) text = .error e
  /-- Next comes the leftmost literal that is not readable. -/
  unreadable : ∀ ts before l after e, format text = .ok ts →
    Terminal.literals ts = before ++ l :: after → (∀ k ∈ before, Readable α k) →
    Numeric.parse (α := α) l = .error e → e.text = l ∧ e.kind = Numeric.kind α ∧
      postfixOf (α := α) text = .error (.unreadable e) ∧
      evaluate (α := α) text = .error (.unreadable e)
  /-- Next come the parentheses. -/
  unbalanced : ∀ ts, format text = .ok ts → (∀ l ∈ Terminal.literals ts, Readable α l) →
    ¬ Balanced.Text text.toList →
      postfixOf (α := α) text = .error .unbalanced ∧ evaluate (α := α) text = .error .unbalanced
  /-- Then only an operation can fail. -/
  computed : ∀ ts, format text = .ok ts → (∀ l ∈ Terminal.literals ts, Readable α l) →
    Balanced.Text text.toList → (∃ ks, postfixOf (α := α) text = .ok ks) ∧
      ((∃ v, evaluate (α := α) text = .ok v) ∨
        ∃ fault, evaluate (α := α) text = .error (.arithmetic fault))
  /-- No other error is met. -/
  complete : ∀ e, postfixOf (α := α) text = .error e ∨ evaluate (α := α) text = .error e →
    (∀ offset piece, e ≠ .unexpected offset piece) ∧ ∀ cause, e ≠ .malformed cause

variable {α} {text}

/-- Every text is one of the four cases. -/
theorem outcome_cases (α : Type) [Numeric α] (text : String) :
    (∃ e, ((∃ f, e = .format f) ∨ (∃ u, e = .unreadable u) ∨ e = .unbalanced) ∧
      postfixOf (α := α) text = .error e) ∨
    ∃ ts, format text = .ok ts ∧ (∀ l ∈ Terminal.literals ts, Readable α l) ∧
      Balanced.Text text.toList := by
  cases hv : validate text with
  | error e =>
    exact .inl ⟨e, .inl (format_of_validate_eq_error hv), postfixOf_of_violation hv⟩
  | ok _ =>
    obtain ⟨ts, hf⟩ := validate_eq_ok_iff.1 hv
    rcases readable_or_leftmost (α := α) (Terminal.literals ts) with
      hr | ⟨before, l, after, u, hl, hb, hu⟩
    · by_cases hb : Balanced.Text text.toList
      · exact .inr ⟨ts, hf, hr, hb⟩
      · exact .inl ⟨_, .inr (.inr rfl), postfixOf_of_unbalanced hf hr hb⟩
    · exact .inl ⟨_, .inr (.inl ⟨u, rfl⟩), postfixOf_of_unreadable hf hl hb hu⟩

/-- Any error is one of the four. -/
theorem error_cases {e : Error}
    (h : postfixOf (α := α) text = .error e ∨ evaluate (α := α) text = .error e) :
    (∃ f, e = .format f) ∨ (∃ u, e = .unreadable u) ∨ e = .unbalanced ∨ ∃ f, e = .arithmetic f := by
  rcases outcome_cases α text with ⟨e', he', hp⟩ | ⟨ts, hf, hr, hb⟩
  · -- an error before the computation is the only one
    obtain rfl : e = e' := by
      rcases h with h | h
      · exact Except.error.inj (h.symm.trans hp)
      · exact Except.error.inj (h.symm.trans (evaluate_of_postfixOf_eq_error hp))
    rcases he' with h | h | h
    · exact .inl h
    · exact .inr (.inl h)
    · exact .inr (.inr (.inl h))
  · obtain ⟨⟨ks, hks⟩, ⟨v, hv⟩ | ⟨fault, hfault⟩⟩ := computed_cases (α := α) hf hr hb
    · rcases h with h | h
      · cases hks.symm.trans h
      · cases hv.symm.trans h
    · rcases h with h | h
      · cases hks.symm.trans h
      · exact .inr (.inr (.inr ⟨fault, Except.error.inj (h.symm.trans hfault)⟩))

/-- What is computed has none of the errors before, and so it has a tree. -/
theorem exists_of_computed (h : (∃ v, evaluate (α := α) text = .ok v) ∨
      ∃ fault, evaluate (α := α) text = .error (.arithmetic fault)) :
    ∃ ts t, format text = .ok ts ∧ (∀ l ∈ Terminal.literals ts, Readable α l) ∧
      Derives (.sum true) ts t := by
  rcases outcome_cases α text with ⟨e, he, hp⟩ | ⟨ts, hf, hr, hb⟩
  · have hev := evaluate_of_postfixOf_eq_error hp
    rcases h with ⟨v, hv⟩ | ⟨fault, hfault⟩
    · cases hev.symm.trans hv
    · cases hev.symm.trans hfault
      rcases he with ⟨f, hf⟩ | ⟨u, hu⟩ | hb
      · cases hf
      · cases hu
      · cases hb
  · obtain ⟨t, ht⟩ := exists_derives hf hb
    exact ⟨ts, t, hf, hr, ht⟩

/-- **What can go wrong.**  The outcome is decided by the format, then by the literals, then by
the parentheses, then by the operations, and by nothing else. -/
theorem classified (α : Type) [Numeric α] (text : String) : Classified α text where
  violation e h := by
    have := postfixOf_of_violation (α := α) h
    exact ⟨format_of_validate_eq_error h, this, evaluate_of_postfixOf_eq_error this⟩
  unreadable ts before l after e hf hl hb he := by
    obtain ⟨htext, hkind⟩ := parse_eq_error he
    have := postfixOf_of_unreadable hf hl hb he
    exact ⟨htext, hkind, this, evaluate_of_postfixOf_eq_error this⟩
  unbalanced ts hf hr hb := by
    have := postfixOf_of_unbalanced hf hr hb
    exact ⟨this, evaluate_of_postfixOf_eq_error this⟩
  computed ts hf hr hb := computed_cases hf hr hb
  complete e h := by
    rcases error_cases h with ⟨f, rfl⟩ | ⟨u, rfl⟩ | rfl | ⟨f, rfl⟩ <;> exact ⟨nofun, nofun⟩

end InfixArith
