import InfixArith.Expression.Spelling
import InfixArith.Expression.Tree
import InfixArith.Format

/-!
# Grammars of expressions

Three ways to say what an expression is, none of them by a reader.

* `Alternates`: operands and binary operations in turn, the parentheses unmatched.  This is the
  language of the format.
* `Chain`: nested groups, each a chain of factors.  A value of the type is a derivation, and
  `Chain.terminals` is what it derives.
* `Derives`: sums of products of factors, with the tree of the expression.  A sum adds and
  subtracts, a product multiplies and divides, both group to the left, and a minus at the start of
  a group negates the factor after it.  No rank is asked for.

`DerivesTokens` is the last grammar on tokens; there a minus may stand before any factor.
-/

namespace InfixArith

/-! ### Alternation -/

/-- Opening parentheses, those at the marked places with a minus after them. -/
def openings (marks : List Bool) : List Terminal :=
  marks.flatMap fun marked => if marked then [.opening, .negation] else [.opening]

/-- A number with opening parentheses before it and closing ones after it. -/
inductive IsOperand : List Terminal → Prop where
  | number (marks : List Bool) {s : List Char} (h : IsNumeral s) (closings : Nat) :
      IsOperand (openings marks ++ .number s :: List.replicate closings .closing)

/-- Operands with binary operations between them. -/
inductive IsAlternation : List Terminal → Prop where
  | operand {ts : List Terminal} (h : IsOperand ts) : IsAlternation ts
  | binary {ts us : List Terminal} (op : BinaryOp) (h : IsOperand ts) (hs : IsAlternation us) :
      IsAlternation (ts ++ .binary op :: us)

/-- An alternation, with a minus at the start or without. -/
inductive Alternates : List Terminal → Prop where
  | plain {ts : List Terminal} (h : IsAlternation ts) : Alternates ts
  | minus {ts : List Terminal} (h : IsAlternation ts) : Alternates (.negation :: ts)

/-! ### Nested chains -/

mutual

/-- A number or a group. -/
inductive Factor where
  | number (text : List Char) (h : IsNumeral text)
  | group (minus : Bool) (first : Factor) (rest : Links)

/-- Binary operations, each with the factor after it. -/
inductive Links where
  | done
  | link (op : BinaryOp) (factor : Factor) (rest : Links)

end

/-- A factor, with a minus or without, and what is linked to it. -/
structure Chain where
  minus : Bool
  first : Factor
  rest : Links

/-- The minus, if there is one. -/
def minusSign (minus : Bool) : List Terminal :=
  if minus then [.negation] else []

mutual

/-- What a factor derives. -/
def Factor.terminals : Factor → List Terminal
  | .number s _ => [.number s]
  | .group minus first rest =>
    .opening :: (minusSign minus ++ first.terminals ++ rest.terminals) ++ [.closing]

/-- What links derive. -/
def Links.terminals : Links → List Terminal
  | .done => []
  | .link op factor rest => .binary op :: (factor.terminals ++ rest.terminals)

end

/-- What a chain derives. -/
def Chain.terminals (c : Chain) : List Terminal :=
  minusSign c.minus ++ c.first.terminals ++ c.rest.terminals

/-! ### Sums of products -/

/-- The parts of an expression.  A part at the start of a group may have a minus. -/
inductive Part where
  | factor
  | product (atStart : Bool)
  | sum (atStart : Bool)
  deriving DecidableEq, Repr

/-- Terminals that make up a part, and the tree they stand for. -/
inductive Derives : Part → List Terminal → Tree (List Char) → Prop where
  | number {s : List Char} (h : IsNumeral s) : Derives .factor [.number s] (.value s)
  | group {ts : List Terminal} {t : Tree (List Char)} (h : Derives (.sum true) ts t) :
      Derives .factor (.opening :: ts ++ [.closing]) t
  | factor (b : Bool) {ts : List Terminal} {t : Tree (List Char)} (h : Derives .factor ts t) :
      Derives (.product b) ts t
  | minus {ts : List Terminal} {t : Tree (List Char)} (h : Derives .factor ts t) :
      Derives (.product true) (.negation :: ts) (.negate t)
  | multiply {b : Bool} {ts us : List Terminal} {l r : Tree (List Char)} {op : BinaryOp}
      (hop : op = .multiply ∨ op = .divide) (hl : Derives (.product b) ts l)
      (hr : Derives .factor us r) : Derives (.product b) (ts ++ .binary op :: us) (.binary op l r)
  | product {b : Bool} {ts : List Terminal} {t : Tree (List Char)}
      (h : Derives (.product b) ts t) : Derives (.sum b) ts t
  | add {b : Bool} {ts us : List Terminal} {l r : Tree (List Char)} {op : BinaryOp}
      (hop : op = .add ∨ op = .subtract) (hl : Derives (.sum b) ts l)
      (hr : Derives (.product false) us r) :
      Derives (.sum b) (ts ++ .binary op :: us) (.binary op l r)

/-- A text spells an expression with the given tree. -/
def Spells (s : List Char) (t : Tree (List Char)) : Prop :=
  ∃ ts, Derives (.sum true) ts t ∧ Spaced (ts.map Terminal.text) s

/-! ### Sums of products of tokens -/

/-- The parts of an expression in tokens. -/
inductive TokenPart where
  | primary
  | unary
  | product
  | sum
  deriving DecidableEq, Repr

/-- Tokens, each operator with its own rank, that make up a part, and their tree. -/
inductive DerivesTokens {α : Type} : TokenPart → List (Token α) → Tree α → Prop where
  | operand (v : α) : DerivesTokens .primary [.operand v] (.value v)
  | group {ts : List (Token α)} {t : Tree α} (h : DerivesTokens .sum ts t) :
      DerivesTokens .primary (.ofOperator .opening :: ts ++ [.ofOperator .closing]) t
  | primary {ts : List (Token α)} {t : Tree α} (h : DerivesTokens .primary ts t) :
      DerivesTokens .unary ts t
  | negate {ts : List (Token α)} {t : Tree α} (h : DerivesTokens .primary ts t) :
      DerivesTokens .unary (.ofOperator .negate :: ts) (.negate t)
  | unary {ts : List (Token α)} {t : Tree α} (h : DerivesTokens .unary ts t) :
      DerivesTokens .product ts t
  | multiply {ts us : List (Token α)} {l r : Tree α} {op : BinaryOp}
      (hop : op = .multiply ∨ op = .divide) (hl : DerivesTokens .product ts l)
      (hr : DerivesTokens .unary us r) :
      DerivesTokens .product (ts ++ .ofOperator (.binary op) :: us) (.binary op l r)
  | product {ts : List (Token α)} {t : Tree α} (h : DerivesTokens .product ts t) :
      DerivesTokens .sum ts t
  | add {ts us : List (Token α)} {l r : Tree α} {op : BinaryOp}
      (hop : op = .add ∨ op = .subtract) (hl : DerivesTokens .sum ts l)
      (hr : DerivesTokens .product us r) :
      DerivesTokens .sum (ts ++ .ofOperator (.binary op) :: us) (.binary op l r)

end InfixArith
