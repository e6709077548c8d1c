import InfixArith.Proofs.Postorder
import InfixArith.Proofs.Value

/-!
# Tokens that list a forest

Tokens in any order, most of them no expression at all, can be put to the stack of values.  As
long as each of them can be applied, those that have been list one tree after the other, a forest,
and the stack holds the values of the trees (`applyAll_eq_ok_iff`).  So tokens have a value exactly
when they list a single tree that has it.

What can go wrong is said without the stack machine too (`Fails`).  The first token that cannot be
applied to the values of the forest in front of it decides (`Refused`), whatever comes after it; if
all can be applied, the forest is empty or has more than one tree.

`postfix_outcome` puts the two sides together.  Ranks play no part in any of it.
-/

namespace InfixArith

variable {α : Type}

/-! ### Listings -/

/-- The token with its operator's own rank. -/
def Token.withOwnRank : Token α → Token α
  | .operand v => .operand v
  | .operator op _ => .ofOperator op

/-- The tokens are those of the tree in postfix order, whatever their ranks. -/
def Tree.IsListedBy (t : Tree α) (ts : List (Token α)) : Prop :=
  ts.map Token.withOwnRank = t.postorder

namespace Tree.IsListedBy

variable {t u l r : Tree α} {ts us : List (Token α)}

theorem value (v : α) : (Tree.value v).IsListedBy [.operand v] := rfl

theorem negate (h : t.IsListedBy ts) (rank : Rank) :
    (Tree.negate t).IsListedBy (ts ++ [.operator .negate rank]) := by
  rw [IsListedBy, List.map_append, h, postorder]
  rfl

theorem binary (hl : l.IsListedBy ts) (hr : r.IsListedBy us) (op : BinaryOp) (rank : Rank) :
    (Tree.binary op l r).IsListedBy (ts ++ us ++ [.operator (.binary op) rank]) := by
  rw [IsListedBy, List.map_append, List.map_append, hl, hr, postorder]
  rfl

/-- Tokens list one tree at most. -/
theorem unique (ht : t.IsListedBy ts) (hu : u.IsListedBy ts) : t = u :=
  postorder_injective (ht.symm.trans hu)

end Tree.IsListedBy

variable [Numeric α]

/-- Tokens that list one tree after the other, and the values of the trees, the last one first. -/
inductive Forest : List (Token α) → List α → Prop where
  | nil : Forest [] []
  | tree {ts us : List (Token α)} {stack : List α} {t : Tree α} {v : α} (h : Forest ts stack)
      (ht : t.IsListedBy us) (hv : t.eval = .ok v) : Forest (ts ++ us) (v :: stack)

namespace Token

/-! ### Ranks -/

theorem apply_withOwnRank (stack : List α) (t : Token α) :
    apply stack t.withOwnRank = apply stack t := by
  cases t with
  | operand v => rfl
  | operator op r => cases op <;> rfl

/-- Ranks play no part. -/
theorem applyAll_map_withOwnRank (stack : List α) (ts : List (Token α)) :
    applyAll stack (ts.map withOwnRank) = applyAll stack ts := by
  induction ts generalizing stack with
  | nil => rfl
  | cons t ts ih =>
    rw [List.map_cons, applyAll_cons, applyAll_cons, apply_withOwnRank]
    congr 1
    funext stack
    exact ih stack

theorem evaluatePostfix_map_withOwnRank (ts : List (Token α)) :
    evaluatePostfix (ts.map withOwnRank) = evaluatePostfix ts := by
  rw [evaluatePostfix, applyAll_map_withOwnRank]
  rfl

/-- What lists a tree puts its value on the stack. -/
theorem applyAll_of_isListedBy {t : Tree α} {ts : List (Token α)} (h : t.IsListedBy ts)
    (stack : List α) :
    applyAll stack ts = (t.eval.mapError Error.arithmetic).map (· :: stack) := by
  rw [← applyAll_map_withOwnRank, h]
  exact applyAll_postorder t stack

end Token

/-! ### Tokens that can be applied -/

/-- **A token that can be applied** extends the forest: an operand is a tree of its own, and an
operator becomes the root over the last trees. -/
theorem Forest.apply {ts : List (Token α)} {stack stack' : List α} {t : Token α}
    (h : Forest ts stack) (ht : Token.apply stack t = .ok stack') :
    Forest (ts ++ [t]) stack' := by
  cases t with
  | operand v =>
    cases ht
    exact h.tree (.value v) rfl
  | operator op rank =>
    cases op with
    | opening | closing => cases ht
    | negate =>
      cases h with
      | nil => cases ht
      | tree h hl hv =>
        obtain ⟨w, hw, rfl⟩ := Outcome.map_eq_ok_iff.1 ht
        rw [List.append_assoc]
        refine h.tree (hl.negate rank) ?_
        rw [Tree.eval, hv]
        exact Outcome.mapError_eq_ok_iff.1 hw
    | binary op =>
      cases h with
      | nil => cases ht
      | tree h hr hb =>
        cases h with
        | nil => cases ht
        | tree h hl ha =>
          obtain ⟨w, hw, rfl⟩ := Outcome.map_eq_ok_iff.1 ht
          rw [List.append_assoc, List.append_assoc, ← List.append_assoc _ _ [_]]
          refine h.tree (hl.binary hr op rank) ?_
          rw [Tree.eval, ha, hb]
          exact Outcome.mapError_eq_ok_iff.1 hw

theorem Forest.applyAll {us ts : List (Token α)} {stack stack' : List α} (h : Forest us stack)
    (ht : Token.applyAll stack ts = .ok stack') : Forest (us ++ ts) stack' := by
  induction ts generalizing us stack with
  | nil =>
    cases ht
    rwa [List.append_nil]
  | cons t ts ih =>
    obtain ⟨next, hn, hrest⟩ := Outcome.bind_eq_ok_iff.1 ht
    rw [List.append_cons]
    exact ih (h.apply hn) hrest

/-- **Tokens can be applied exactly when they list a forest**, and they leave the values of its
trees. -/
theorem applyAll_eq_ok_iff {ts : List (Token α)} {stack : List α} :
    Token.applyAll [] ts = .ok stack ↔ Forest ts stack := by
  constructor
  · exact Forest.applyAll .nil
  · intro h
    induction h with
    | nil => rfl
    | tree _ ht hv ih =>
      rw [Token.applyAll_append, ih, Outcome.ok_bind, Token.applyAll_of_isListedBy ht, hv]
      rfl

/-- A forest with one tree. -/
theorem Forest.singleton_iff {ts : List (Token α)} {v : α} :
    Forest ts [v] ↔ ∃ t : Tree α, t.IsListedBy ts ∧ t.eval = .ok v := by
  constructor
  · intro h
    cases h with
    | tree h ht hv =>
      cases h with
      | nil => exact ⟨_, ht, hv⟩
  · rintro ⟨t, ht, hv⟩
    exact Forest.nil.tree ht hv

/-- An empty forest is listed by no tokens. -/
theorem Forest.nil_iff {ts : List (Token α)} : Forest ts [] ↔ ts = [] := by
  constructor
  · intro h
    cases h
    rfl
  · rintro rfl
    exact .nil

/-! ### Tokens that cannot be applied -/

namespace Token

/-- The token cannot be applied to the values, the last one first, and why. -/
inductive Refused : List α → Token α → Error → Prop where
  | opening (stack : List α) (rank : Rank) :
      Refused stack (.operator .opening rank) (.malformed .parenthesis)
  | closing (stack : List α) (rank : Rank) :
      Refused stack (.operator .closing rank) (.malformed .parenthesis)
  | negationAlone (rank : Rank) :
      Refused [] (.operator .negate rank) (.malformed .negationAlone)
  | negation {v : α} {fault : Fault} (h : Numeric.negate v = .error fault) (stack : List α)
      (rank : Rank) : Refused (v :: stack) (.operator .negate rank) (.arithmetic fault)
  | binaryAlone {stack : List α} (h : stack.length < 2) (op : BinaryOp) (rank : Rank) :
      Refused stack (.operator (.binary op) rank) (.malformed .binaryAlone)
  | binary {op : BinaryOp} {a b : α} {fault : Fault} (h : Numeric.combine op a b = .error fault)
      (stack : List α) (rank : Rank) :
      Refused (b :: a :: stack) (.operator (.binary op) rank) (.arithmetic fault)

theorem apply_eq_error_iff {stack : List α} {t : Token α} {e : Error} :
    apply stack t = .error e ↔ Refused stack t e := by
  constructor
  · intro h
    cases t with
    | operand v => cases h
    | operator op rank =>
      cases op with
      | opening =>
        cases h
        exact .opening stack rank
      | closing =>
        cases h
        exact .closing stack rank
      | negate =>
        cases stack with
        | nil =>
          cases h
          exact .negationAlone rank
        | cons v stack =>
          obtain ⟨fault, hf, rfl⟩ := Outcome.mapError_eq_error_iff.1 (Outcome.map_eq_error_iff.1 h)
          exact .negation hf stack rank
      | binary op =>
        match stack with
        | [] | [_] =>
          cases h
          exact .binaryAlone (by simp) op rank
        | b :: a :: stack =>
          obtain ⟨fault, hf, rfl⟩ := Outcome.mapError_eq_error_iff.1 (Outcome.map_eq_error_iff.1 h)
          exact .binary hf stack rank
  · intro h
    cases h with
    | opening | closing | negationAlone => rfl
    | negation h stack rank | binary h stack rank =>
      exact Outcome.map_eq_error_iff.2 (Outcome.mapError_eq_error_iff.2 ⟨_, h, rfl⟩)
    | binaryAlone h op rank =>
      match stack, h with
      | [], _ | [_], _ => rfl

/-- Of the tokens that cannot be applied the first one decides. -/
theorem applyAll_eq_error_iff {ts : List (Token α)} {stack : List α} {e : Error} :
    applyAll stack ts = .error e ↔ ∃ before t after stack', ts = before ++ t :: after ∧
      applyAll stack before = .ok stack' ∧ apply stack' t = .error e := by
  constructor
  · intro h
    induction ts generalizing stack with
    | nil => cases h
    | cons t ts ih =>
      rcases Outcome.bind_eq_error_iff.1 h with h | ⟨next, hn, h⟩
      · exact ⟨[], t, ts, stack, rfl, rfl, h⟩
      · obtain ⟨before, u, after, stack', rfl, hb, hu⟩ := ih h
        refine ⟨t :: before, u, after, stack', rfl, ?_, hu⟩
        rw [applyAll_cons, hn]
        exact hb
  · rintro ⟨before, t, after, stack', rfl, hb, ht⟩
    rw [applyAll_append, hb, Outcome.ok_bind, applyAll_cons, ht]
    rfl

omit [Numeric α] in
theorem single_eq_ok_iff {stack : List α} {v : α} : single stack = .ok v ↔ stack = [v] := by
  match stack with
  | [] | [_] | _ :: _ :: _ => simp [single]

omit [Numeric α] in
theorem single_eq_error_iff {stack : List α} {e : Error} : single stack = .error e ↔
    stack = [] ∧ e = .malformed .noValue ∨ 2 ≤ stack.length ∧ e = .malformed .manyValues := by
  match stack with
  | [] | [_] | _ :: _ :: _ => simp [single, eq_comm]

end Token

/-! ### The outcome -/

/-- How tokens fail to have a value. -/
inductive Fails : List (Token α) → Error → Prop where
  /-- A token cannot be applied to the values of the forest in front of it. -/
  | refused {before : List (Token α)} {stack : List α} {t : Token α} {e : Error}
      (h : Forest before stack) (ht : Token.Refused stack t e) (after : List (Token α)) :
      Fails (before ++ t :: after) e
  /-- There is no token. -/
  | noValue : Fails [] (.malformed .noValue)
  /-- The forest has more than one tree. -/
  | manyValues {ts : List (Token α)} {stack : List α} (h : Forest ts stack)
      (hl : 2 ≤ stack.length) : Fails ts (.malformed .manyValues)

variable {ts : List (Token α)}

theorem evaluatePostfix_eq_ok_iff {v : α} : evaluatePostfix ts = .ok v ↔ Forest ts [v] := by
  rw [evaluatePostfix, Outcome.bind_eq_ok_iff, ← applyAll_eq_ok_iff]
  constructor
  · rintro ⟨stack, hs, hv⟩
    rwa [Token.single_eq_ok_iff.1 hv] at hs
  · intro h
    exact ⟨[v], h, rfl⟩

theorem evaluatePostfix_eq_error_iff {e : Error} :
    evaluatePostfix ts = .error e ↔ Fails ts e := by
  rw [evaluatePostfix, Outcome.bind_eq_error_iff]
  constructor
  · rintro (h | ⟨stack, hs, h⟩)
    · obtain ⟨before, t, after, stack, rfl, hb, ht⟩ := Token.applyAll_eq_error_iff.1 h
      exact .refused (applyAll_eq_ok_iff.1 hb) (Token.apply_eq_error_iff.1 ht) after
    · have hforest := applyAll_eq_ok_iff.1 hs
      rcases Token.single_eq_error_iff.1 h with ⟨rfl, rfl⟩ | ⟨hl, rfl⟩
      · obtain rfl := Forest.nil_iff.1 hforest
        exact .noValue
      · exact .manyValues hforest hl
  · intro h
    cases h with
    | refused h ht after =>
      exact .inl (Token.applyAll_eq_error_iff.2
        ⟨_, _, after, _, rfl, applyAll_eq_ok_iff.2 h, Token.apply_eq_error_iff.2 ht⟩)
    | noValue => exact .inr ⟨[], rfl, rfl⟩
    | manyValues h hl =>
      exact .inr ⟨_, applyAll_eq_ok_iff.2 h, Token.single_eq_error_iff.2 (.inr ⟨hl, rfl⟩)⟩

/-- What tokens in any order come to. -/
structure PostfixOutcome (ts : List (Token α)) : Prop where
  /-- They have a value exactly when they list a tree that has it. -/
  value v : evaluatePostfix ts = .ok v ↔ ∃ t : Tree α, t.IsListedBy ts ∧ t.eval = .ok v
  /-- There is one such tree at most. -/
  unique (t u : Tree α) : t.IsListedBy ts → u.IsListedBy ts → t = u
  /-- Tokens that differ in ranks alone come to the same. -/
  ranks us : us.map Token.withOwnRank = ts.map Token.withOwnRank →
    evaluatePostfix us = evaluatePostfix ts
  /-- Without a value, the first token that cannot be applied decides, or the size of the forest
  if there is none. -/
  error e : evaluatePostfix ts = .error e ↔ Fails ts e
  noValue : evaluatePostfix ts = .error (.malformed .noValue) ↔ ts = []
  manyValues : evaluatePostfix ts = .error (.malformed .manyValues) ↔
    ∃ stack, Forest ts stack ∧ 2 ≤ stack.length
  /-- How it is reported that tokens list no tree. -/
  wording : [Malformed.parenthesis, .binaryAlone, .negationAlone, .noValue, .manyValues].map
      Malformed.message =
    ["parenthesis in postfix sequence", "binary operator without two operands",
      "negation without an operand", "no value left on the stack",
      "more than one value left on the stack"]

/-- **What tokens in any order come to.**  They have the value of the tree that they list, if they
list one and it has a value; they fail where they first go wrong, and for the reason met there. -/
theorem postfix_outcome (ts : List (Token α)) : PostfixOutcome ts where
  value v := evaluatePostfix_eq_ok_iff.trans Forest.singleton_iff
  unique t u ht hu := ht.unique hu
  ranks us h := by
    rw [← Token.evaluatePostfix_map_withOwnRank us, h, Token.evaluatePostfix_map_withOwnRank]
  error e := evaluatePostfix_eq_error_iff
  noValue := by
    rw [evaluatePostfix_eq_error_iff]
    constructor
    · intro h
      cases h with
      | refused _ ht _ => cases ht
      | noValue => rfl
    · rintro rfl
      exact .noValue
  manyValues := by
    rw [evaluatePostfix_eq_error_iff]
    constructor
    · intro h
      cases h with
      | refused _ ht _ => cases ht
      | manyValues h hl => exact ⟨_, h, hl⟩
    · rintro ⟨stack, h, hl⟩
      exact .manyValues h hl
  wording := rfl

end InfixArith
