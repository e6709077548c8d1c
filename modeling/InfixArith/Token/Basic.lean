import InfixArith.Number.Numeric

/-!
# Tokens

A token is an operand or an operator; the parentheses count as operators.  An operator comes with
a rank, which says how tightly it binds, and most often it is the operator's own (`HasOwnRank`).
-/

namespace InfixArith

/-- How tightly an operator binds, the loosest first. -/
inductive Rank where
  | parentheses
  | additive
  | multiplicative
  | unaryMinus
  deriving DecidableEq, Repr

namespace Rank

/-- The number of looser ranks. -/
def ordinal : Rank → Nat
  | .parentheses => 0
  | .additive => 1
  | .multiplicative => 2
  | .unaryMinus => 3

instance : LE Rank := ⟨fun r s => r.ordinal ≤ s.ordinal⟩

instance : LT Rank := ⟨fun r s => r.ordinal < s.ordinal⟩

instance (r s : Rank) : Decidable (r ≤ s) := inferInstanceAs (Decidable (r.ordinal ≤ s.ordinal))

instance (r s : Rank) : Decidable (r < s) := inferInstanceAs (Decidable (r.ordinal < s.ordinal))

instance : Ord Rank := ⟨fun r s => compare r.ordinal s.ordinal⟩

theorem le_def {r s : Rank} : r ≤ s ↔ r.ordinal ≤ s.ordinal := Iff.rfl

theorem lt_def {r s : Rank} : r < s ↔ r.ordinal < s.ordinal := Iff.rfl

end Rank

namespace BinaryOp

/-- The character of a binary operation. -/
def symbol : BinaryOp → Char
  | .add => '+'
  | .subtract => '-'
  | .multiply => '*'
  | .divide => '/'

/-- The binary operation of a character. -/
def ofSymbol? : Char → Option BinaryOp
  | '+' => some .add
  | '-' => some .subtract
  | '*' => some .multiply
  | '/' => some .divide
  | _ => none

/-- Products bind tighter than sums. -/
def rank : BinaryOp → Rank
  | .add | .subtract => .additive
  | .multiply | .divide => .multiplicative

theorem rank_of_sum {op : BinaryOp} (h : op = .add ∨ op = .subtract) : op.rank = .additive := by
  rcases h with rfl | rfl <;> rfl

theorem rank_of_product {op : BinaryOp} (h : op = .multiply ∨ op = .divide) :
    op.rank = .multiplicative := by
  rcases h with rfl | rfl <;> rfl

end BinaryOp

/-- The operators: parentheses, the unary minus and the binary operations. -/
inductive Operator where
  | opening
  | closing
  | negate
  | binary (op : BinaryOp)
  deriving DecidableEq, Repr

namespace Operator

/-- An operator's own rank.  The unary minus binds tightest. -/
def rank : Operator → Rank
  | .opening | .closing => .parentheses
  | .negate => .unaryMinus
  | .binary op => op.rank

/-- How an operator is listed. -/
def symbol : Operator → List Char
  | .opening => ['(']
  | .closing => [')']
  | .negate => ['n', 'e', 'g']
  | .binary op => [op.symbol]

end Operator

/-- An operand, or an operator with a rank. -/
inductive Token (α : Type) where
  | operand (value : α)
  | operator (op : Operator) (rank : Rank)
  deriving DecidableEq, Repr

namespace Token

variable {α : Type}

/-- An operator with its own rank. -/
def ofOperator (op : Operator) : Token α :=
  .operator op op.rank

/-- An operator's rank is its own. -/
def HasOwnRank : Token α → Prop
  | .operand _ => True
  | .operator op rank => rank = op.rank

/-- An opening parenthesis, of any rank. -/
def isOpening : Token α → Bool
  | .operator .opening _ => true
  | _ => false

/-- A closing parenthesis, of any rank. -/
def isClosing : Token α → Bool
  | .operator .closing _ => true
  | _ => false

/-- The text of a token. -/
def render [Numeric α] : Token α → List Char
  | .operand v => (Numeric.render v).toList
  | .operator op _ => op.symbol

/-- The texts of tokens, with one space between them. -/
def listing [Numeric α] (ts : List (Token α)) : String :=
  String.ofList ([' '].intercalate (ts.map render))

end Token

end InfixArith
