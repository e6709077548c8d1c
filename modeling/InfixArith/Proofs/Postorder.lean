import InfixArith.Proofs.Conservation

/-!
# Tokens in postfix order

What a derivation in tokens is brought into is the postfix order of its tree
(`toPostfix_of_derivesTokens`).  A tree can be read off that order again
(`Tree.postorder_injective`): the last token says what the tree is, and in front of it the right
operand ends.  So the tokens have one tree, whatever their derivation.

As nothing is lost on the way to postfix order, the tokens of the tree are those of the derivation
without the parentheses (`DerivesTokens.perm`), each as it was.
-/

namespace InfixArith

variable {α : Type}

/-! ### The tree of an order -/

namespace Tree

/-- Whatever stands in front of it, a tree in postfix order ends in one place. -/
theorem append_postorder_inj : ∀ (t u : Tree α) {xs ys : List (Token α)},
    xs ++ t.postorder = ys ++ u.postorder → xs = ys ∧ t = u
  | .value v, .value w, xs, ys, h => by
    obtain ⟨rfl, he⟩ := List.append_inj' h rfl
    cases he
    exact ⟨rfl, rfl⟩
  | .negate t, .negate u, xs, ys, h => by
    simp only [postorder, ← List.append_assoc] at h
    obtain ⟨rfl, rfl⟩ := append_postorder_inj t u (List.append_inj' h rfl).1
    exact ⟨rfl, rfl⟩
  | .binary op l r, .binary op' l' r', xs, ys, h => by
    simp only [postorder, ← List.append_assoc] at h
    obtain ⟨hlr, he⟩ := List.append_inj' h rfl
    cases he
    obtain ⟨hl, rfl⟩ := append_postorder_inj r r' hlr
    obtain ⟨rfl, rfl⟩ := append_postorder_inj l l' hl
    exact ⟨rfl, rfl⟩
  -- the last tokens differ
  | .value _, .negate _, xs, ys, h | .value _, .binary _ _ _, xs, ys, h
  | .negate _, .value _, xs, ys, h | .negate _, .binary _ _ _, xs, ys, h
  | .binary _ _ _, .value _, xs, ys, h | .binary _ _ _, .negate _, xs, ys, h => by
    simp only [postorder, ← List.append_assoc] at h
    cases (List.append_inj' h rfl).2

theorem postorder_injective {t u : Tree α} (h : t.postorder = u.postorder) : t = u := by
  have happend : [] ++ t.postorder = [] ++ u.postorder := h
  exact (append_postorder_inj t u happend).2

end Tree

/-! ### The tokens of an order -/

/-- A tree is listed without parentheses, and each operator with its own rank. -/
theorem Tree.of_mem_postorder {t : Tree α} {k : Token α} (h : k ∈ t.postorder) :
    k.isParenthesis = false ∧ k.HasOwnRank := by
  induction t with
  | value v =>
    obtain rfl := List.mem_singleton.1 h
    exact ⟨rfl, trivial⟩
  | negate t ih =>
    rcases List.mem_append.1 h with h | h
    · exact ih h
    · obtain rfl := List.mem_singleton.1 h
      exact ⟨rfl, rfl⟩
  | binary op l r ihl ihr =>
    rcases List.mem_append.1 h with h | h
    · exact (List.mem_append.1 h).elim ihl ihr
    · obtain rfl := List.mem_singleton.1 h
      exact ⟨rfl, rfl⟩

theorem DerivesTokens.perm {ts : List (Token α)} {t : Tree α} (h : DerivesTokens .sum ts t) :
    t.postorder.Perm (ts.filter fun k => !k.isParenthesis) := by
  have hkept : t.postorder.filter (fun k => !k.isParenthesis) = t.postorder :=
    List.filter_eq_self.2 fun k hk => by simp [(Tree.of_mem_postorder hk).1]
  have := (Token.toPostfix_sheds (toPostfix_of_derivesTokens h)).perm_filter
  rwa [hkept] at this

/-- **Sums and products of tokens in postfix order.**  Tokens that make up a sum are brought into
the postfix order of their tree, of which there is one.  No parenthesis is among them any more, and
all the other tokens are, as they were, however many parentheses were around them. -/
theorem derivation_in_postorder {ts : List (Token α)} {t : Tree α}
    (h : DerivesTokens .sum ts t) :
    toPostfix ts = .ok t.postorder ∧
    (∀ k ∈ t.postorder, k.isParenthesis = false ∧ k.HasOwnRank) ∧
    t.postorder.Perm (ts.filter fun k => !k.isParenthesis) ∧
    ∀ u, DerivesTokens .sum ts u → u = t := by
  have ht := toPostfix_of_derivesTokens h
  refine ⟨ht, fun k => Tree.of_mem_postorder, h.perm, fun u hu => ?_⟩
  exact Tree.postorder_injective (Except.ok.inj ((toPostfix_of_derivesTokens hu).symm.trans ht))

/-- A minus behind a multiplication, in front of a group in two pairs of parentheses. -/
theorem derivation_in_postorder_negated_group :
    DerivesTokens .sum [.operand 2, .ofOperator (.binary .multiply), .ofOperator .negate,
        .ofOperator .opening, .ofOperator .opening, .operand 5, .ofOperator (.binary .subtract),
        .operand 3, .ofOperator (.binary .subtract), .operand 1, .ofOperator .closing,
        .ofOperator .closing]
      (.binary .multiply (.value 2) (.negate
        (.binary .subtract (.binary .subtract (.value 5) (.value 3)) (.value 1)))) ∧
    toPostfix [.operand 2, .ofOperator (.binary .multiply), .ofOperator .negate,
        .ofOperator .opening, .ofOperator .opening, .operand 5, .ofOperator (.binary .subtract),
        .operand 3, .ofOperator (.binary .subtract), .operand 1, .ofOperator .closing,
        .ofOperator .closing] =
      .ok [.operand 2, .operand 5, .operand 3, .ofOperator (.binary .subtract), .operand 1,
        .ofOperator (.binary .subtract), .ofOperator .negate, .ofOperator (.binary .multiply)] := by
  have product : ∀ n : Nat, DerivesTokens .product [.operand n] (.value n) := fun n =>
    .unary (.primary (.operand n))
  have difference := DerivesTokens.add (.inr rfl)
    (.add (.inr rfl) (.product (product 5)) (product 3)) (product 1)
  have group := DerivesTokens.group (.product (.unary (.primary (.group difference))))
  have whole := DerivesTokens.product (.multiply (.inl rfl) (product 2) (.negate group))
  exact ⟨whole, (derivation_in_postorder whole).1⟩

end InfixArith
