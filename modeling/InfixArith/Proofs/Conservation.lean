import InfixArith.Proofs.Parentheses

/-!
# Nothing is lost on the way to postfix order

Tokens may come with any ranks, and then an operator may even release an opening parenthesis.
Still no token is lost, none comes twice and none is new: the tokens released and those on the
stack are the tokens read, less the closing parentheses and as many opening ones (`Sheds`).  This
holds of one step (`Step.sheds`), so it holds of a run and of the whole order.

Counting does the rest.  No closing parenthesis is left in the order; and if the tokens were
balanced, no opening one is either.
-/

namespace InfixArith.Token

variable {α : Type}

/-- A value. -/
def isOperand : Token α → Bool
  | .operand _ => true
  | .operator _ _ => false

/-- An opening or a closing parenthesis. -/
def isParenthesis (t : Token α) : Bool :=
  t.isOpening || t.isClosing

/-! ### Operands -/

theorem filter_isOperand_waiting (stack : List Waiting) :
    (stack.map (Waiting.token (α := α))).filter isOperand = [] := by
  simp [List.filter_eq_nil_iff, Waiting.token, isOperand]

theorem Step.operands {stack stack' : List Waiting} {t : Token α} {out : List (Token α)}
    (h : Step stack t out stack') : out.filter isOperand = [t].filter isOperand := by
  cases h with
  | operand | opening => rfl
  | closing | operator =>
    rw [filter_isOperand_waiting]
    rfl

/-- Operands are released at once, so they stay in order. -/
theorem Run.operands {stack stack' : List Waiting} {ts out : List (Token α)}
    (h : Run stack ts out stack') : out.filter isOperand = ts.filter isOperand := by
  induction h with
  | nil => rfl
  | cons h _ ih =>
    rw [List.filter_append, h.operands, ih, ← List.filter_append, List.singleton_append]

/-! ### The tokens that go -/

/-- The tokens are those kept, the closing parentheses that go, and with each of these an opening
one. -/
def Sheds (ts closings kept : List (Token α)) : Prop :=
  ∃ openings, (∀ k ∈ openings, k.isOpening = true) ∧ openings.length = closings.length ∧
    ts.Perm (kept ++ closings ++ openings)

section

variable {ts us vs out kept closings closings' : List (Token α)}

/-- Nothing has to go. -/
theorem Sheds.of_perm (h : ts.Perm kept) : Sheds ts [] kept :=
  ⟨[], nofun, rfl, by simpa using h⟩

/-- Part of what was kept can shed more, with other tokens. -/
theorem Sheds.append (h : Sheds ts closings (out ++ us)) (h' : Sheds (us ++ vs) closings' kept) :
    Sheds (ts ++ vs) (closings ++ closings') (out ++ kept) := by
  classical
  obtain ⟨openings, ho, hl, hp⟩ := h
  obtain ⟨openings', ho', hl', hp'⟩ := h'
  refine ⟨openings ++ openings', ?_, by simp [hl, hl'], ?_⟩
  · intro k hk
    exact (List.mem_append.1 hk).elim (ho k) (ho' k)
  · rw [List.perm_iff_count]
    intro k
    have h₁ := hp.count_eq k
    have h₂ := hp'.count_eq k
    simp only [List.count_append] at h₁ h₂ ⊢
    omega

/-- What is kept was there. -/
theorem Sheds.subset (h : Sheds ts closings kept) : kept ⊆ ts := by
  obtain ⟨openings, -, -, hp⟩ := h
  intro k hk
  exact hp.symm.subset (List.mem_append_left _ (List.mem_append_left _ hk))

/-- Tokens that shed all their closing parentheses keep none. -/
theorem Sheds.isClosing_eq_false (h : Sheds ts (ts.filter isClosing) kept) :
    ∀ k ∈ kept, k.isClosing = false := by
  obtain ⟨openings, -, -, hp⟩ := h
  have hcount := hp.countP_eq isClosing
  have hfilter : (ts.filter isClosing).countP isClosing = ts.countP isClosing := by
    simp [List.countP_filter]
  rw [List.countP_append, List.countP_append, hfilter] at hcount
  have : kept.countP isClosing = 0 := by omega
  simpa [List.countP_eq_zero] using this

/-- Then no opening one is left either, if the tokens had as many of them. -/
theorem Sheds.isOpening_eq_false (h : Sheds ts (ts.filter isClosing) kept)
    (hs : ts.countP isClosing = ts.countP isOpening) : ∀ k ∈ kept, k.isOpening = false := by
  obtain ⟨openings, ho, hl, hp⟩ := h
  have hcount := hp.countP_eq isOpening
  rw [List.countP_append, List.countP_eq_length.2 ho, hl, ← List.countP_eq_length_filter,
    List.countP_append] at hcount
  have : kept.countP isOpening = 0 := by omega
  simpa [List.countP_eq_zero] using this

/-- The tokens that are no parentheses are kept. -/
theorem Sheds.perm_filter (h : Sheds ts (ts.filter isClosing) kept) :
    (kept.filter fun k => !k.isParenthesis).Perm (ts.filter fun k => !k.isParenthesis) := by
  obtain ⟨openings, ho, -, hp⟩ := h
  have hc : (ts.filter isClosing).filter (fun k => !k.isParenthesis) = [] := by
    simp +contextual [List.filter_eq_nil_iff, isParenthesis]
  have hop : openings.filter (fun k => !k.isParenthesis) = [] := by
    simp +contextual [List.filter_eq_nil_iff, isParenthesis, ho]
  have := hp.filter fun k => !k.isParenthesis
  rw [List.filter_append, List.filter_append, hc, hop, List.append_nil, List.append_nil] at this
  exact this.symm

end

/-! ### Steps and runs -/

theorem isClosing_of_ne {op : Operator} (hc : op ≠ .closing) (rank : Rank) :
    (.operator op rank : Token α).isClosing = false := by
  cases op with
  | closing => exact absurd rfl hc
  | opening | negate | binary => rfl

/-- **A step loses nothing**: what it takes from the stack it releases, but for the opening
parenthesis that a closing one goes with. -/
theorem Step.sheds {stack stack' : List Waiting} {t : Token α} {out : List (Token α)}
    (h : Step stack t out stack') :
    Sheds (stack.map Waiting.token ++ [t]) ([t].filter isClosing)
      (out ++ stack'.map Waiting.token) := by
  cases h with
  | operand | opening => exact .of_perm (List.perm_append_singleton _ _)
  | @closing released h rank rank' =>
    have hself : [(.operator .closing rank : Token α)].filter isClosing =
        [.operator .closing rank] := rfl
    -- the closing parenthesis was read last, the opening one stood on top of the rest
    have hend : (.operator .opening rank' :: (stack'.map Waiting.token ++ [.operator .closing rank])
        : List (Token α)).Perm (stack'.map Waiting.token ++ [.operator .closing rank] ++
          [.operator .opening rank']) := (List.perm_append_singleton _ _).symm
    refine ⟨[.operator .opening rank'], by simp [isOpening], rfl, ?_⟩
    simpa [hself, Waiting.token] using hend.append_left (released.map Waiting.token)
  | @operator op rank released below ho hc hr hb =>
    have hnone : [(.operator op rank : Token α)].filter isClosing = [] := by
      simp [isClosing_of_ne hc]
    rw [hnone, List.map_append, List.append_assoc]
    exact .of_perm ((List.perm_append_singleton _ _).append_left _)

/-- **A run loses nothing.** -/
theorem Run.sheds {stack stack' : List Waiting} {ts out : List (Token α)}
    (h : Run stack ts out stack') :
    Sheds (stack.map Waiting.token ++ ts) (ts.filter isClosing)
      (out ++ stack'.map Waiting.token) := by
  induction h with
  | nil stack => exact .of_perm (by simp)
  | @cons stack stack' stack'' t ts out out' h _ ih =>
    have := h.sheds.append ih
    rwa [List.append_assoc, List.singleton_append, ← List.filter_append, List.singleton_append,
      ← List.append_assoc] at this

theorem toPostfix_sheds {ts out : List (Token α)} (h : toPostfix ts = .ok out) :
    Sheds ts (ts.filter isClosing) out := by
  obtain ⟨released, stack, hrun, -, rfl⟩ := toPostfix_eq_ok_iff_run.1 h
  exact hrun.sheds

theorem toPostfix_operands {ts out : List (Token α)} (h : toPostfix ts = .ok out) :
    out.filter isOperand = ts.filter isOperand := by
  obtain ⟨released, stack, hrun, -, rfl⟩ := toPostfix_eq_ok_iff_run.1 h
  rw [List.filter_append, filter_isOperand_waiting, List.append_nil, hrun.operands]

/-! ### The order -/

/-- **Nothing is lost, doubled or invented, whatever the ranks.**  The operands stay as they are
and in order, no closing parenthesis is left, and the tokens are those of the order, all their
closing parentheses and as many of their opening ones.  So the other operators are all there, each
with its rank. -/
theorem toPostfix_conserves {ts out : List (Token α)} (h : toPostfix ts = .ok out) :
    out.filter isOperand = ts.filter isOperand ∧
    (∀ k ∈ out, k.isClosing = false) ∧
    (∃ openings, (∀ k ∈ openings, k.isOpening = true) ∧
      openings.length = (ts.filter isClosing).length ∧
      ts.Perm (out ++ ts.filter isClosing ++ openings)) ∧
    (out.filter fun k => !k.isParenthesis).Perm (ts.filter fun k => !k.isParenthesis) := by
  have hsheds := toPostfix_sheds h
  exact ⟨toPostfix_operands h, hsheds.isClosing_eq_false, hsheds, hsheds.perm_filter⟩

/-- The sum releases the inner parenthesis, which is given the tightest rank; the closing one then
takes away the outer. -/
theorem toPostfix_conserves_forged :
    toPostfix [.ofOperator .opening, .operand 1, .operator .opening .unaryMinus, .operand 2,
        .ofOperator (.binary .add), .operand 3, .ofOperator .closing] =
      .ok [.operand 1, .operand 2, .operator .opening .unaryMinus, .operand 3,
        .ofOperator (.binary .add)] ∧
    ∃ openings : List (Token Nat), openings.length = 1 ∧
      [.ofOperator .opening, .operand 1, .operator .opening .unaryMinus, .operand 2,
        .ofOperator (.binary .add), .operand 3, .ofOperator .closing].Perm
        ([.operand 1, .operand 2, .operator .opening .unaryMinus, .operand 3,
          .ofOperator (.binary .add)] ++ [.ofOperator .closing] ++ openings) := by
  have h : toPostfix [.ofOperator .opening, .operand 1, .operator .opening .unaryMinus,
        .operand 2, .ofOperator (.binary .add), .operand 3, .ofOperator .closing] =
      .ok [.operand 1, .operand 2, .operator .opening .unaryMinus, .operand 3,
        .ofOperator (.binary .add)] := rfl
  obtain ⟨-, -, ⟨openings, -, hl, hp⟩, -⟩ := toPostfix_conserves h
  exact ⟨h, openings, hl, hp⟩

/-- **Balanced tokens come into postfix order, and only they do.**  Where each opening parenthesis
binds more loosely than all operators, as it does by its own rank, that tokens are unbalanced is
the only thing that can be wrong with them; and if they are balanced, no parenthesis is left. -/
theorem balanced_tokens_ordered (ts : List (Token α)) :
    ((∀ t ∈ ts, t.HasOwnRank) → Loosest ts) ∧
    (Loosest ts →
      ((∃ out, toPostfix ts = .ok out) ↔ Balanced isOpening isClosing ts) ∧
      (∀ e, toPostfix ts = .error e → e = .unbalanced) ∧
      ∀ out, toPostfix ts = .ok out → ∀ k ∈ out, k.isOpening = false ∧ k.isClosing = false) := by
  refine ⟨loosest_of_hasOwnRank, fun hloose =>
    ⟨exists_toPostfix_iff hloose, fun e => eq_unbalanced_of_toPostfix, fun out ho k hk => ?_⟩⟩
  have hsheds := toPostfix_sheds ho
  have hb := (exists_toPostfix_iff hloose).1 ⟨out, ho⟩
  exact ⟨hsheds.isOpening_eq_false hb.settled k hk, hsheds.isClosing_eq_false k hk⟩

/-- Operands side by side, a minus with nothing after it, ranks that are not the operators' own. -/
theorem balanced_tokens_ordered_raised :
    Loosest [.operator .opening .additive, .operand 1, .operand 2,
      .operator .negate .multiplicative, .operator .closing .unaryMinus,
      .operator (.binary .add) .multiplicative] ∧
    Balanced isOpening isClosing [.operator .opening .additive, .operand 1, .operand 2,
      .operator .negate .multiplicative, .operator .closing .unaryMinus,
      .operator (.binary .add) .multiplicative] := by
  have hloose : Loosest [.operator .opening .additive, .operand 1, .operand 2,
      .operator .negate .multiplicative, .operator .closing .unaryMinus,
      .operator (.binary .add) .multiplicative] := by
    intro r hr op r' ho hc hop
    obtain rfl : r = .additive := by simpa using hr
    obtain ⟨-, rfl⟩ | ⟨-, rfl⟩ : op = .negate ∧ r' = .multiplicative ∨
        op = .binary .add ∧ r' = .multiplicative := by simpa [ho, hc] using hop
    · decide
    · decide
  exact ⟨hloose, ((balanced_tokens_ordered _).2 hloose).1.1 ⟨_, rfl⟩⟩

end InfixArith.Token
