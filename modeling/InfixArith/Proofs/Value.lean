import InfixArith.Expression.Tree
import InfixArith.Proofs.Outcome
import InfixArith.Token.Value

/-!
# The value of a tree in postfix order

The tokens of a tree in postfix order put its value on the stack, whatever was there before and
whatever comes after, or they stop at the fault met first (`applyAll_postorder`).  So they have
the value of the tree (`evaluatePostfix_postorder`).
-/

namespace InfixArith

variable {α : Type} [Numeric α]

namespace Token

/-- A minus replaces the value on top. -/
theorem apply_negate (v : α) (stack : List α) : apply (v :: stack) (.ofOperator .negate) =
    ((Numeric.negate v).mapError Error.arithmetic).map (· :: stack) := rfl

/-- A binary operation replaces the two values on top, the right one first. -/
theorem apply_binary (op : BinaryOp) (a b : α) (stack : List α) :
    apply (b :: a :: stack) (.ofOperator (.binary op)) =
      ((Numeric.combine op a b).mapError Error.arithmetic).map (· :: stack) := rfl

theorem applyAll_cons (stack : List α) (t : Token α) (ts : List (Token α)) :
    applyAll stack (t :: ts) = apply stack t >>= fun stack => applyAll stack ts := rfl

theorem applyAll_append (stack : List α) (ts us : List (Token α)) :
    applyAll stack (ts ++ us) = applyAll stack ts >>= fun stack => applyAll stack us := by
  induction ts generalizing stack with
  | nil => rfl
  | cons t ts ih =>
    rw [List.cons_append, applyAll_cons, applyAll_cons]
    cases apply stack t with
    | error e => rfl
    | ok stack => exact ih stack

/-- **A tree in postfix order puts its value on the stack.** -/
theorem applyAll_postorder (t : Tree α) (stack : List α) :
    applyAll stack t.postorder = (t.eval.mapError Error.arithmetic).map (· :: stack) := by
  induction t generalizing stack with
  | value v => rfl
  | negate t ih =>
    rw [Tree.postorder, applyAll_append, ih, Tree.eval]
    cases t.eval with
    | error e => rfl
    | ok v =>
      simp only [Outcome.mapError_ok, Outcome.map_ok, Outcome.ok_bind, applyAll_cons, apply_negate]
      cases Numeric.negate v <;> rfl
  | binary op l r ihl ihr =>
    rw [Tree.postorder, applyAll_append, applyAll_append, ihl, Tree.eval]
    cases l.eval with
    | error e => rfl
    | ok a =>
      simp only [Outcome.mapError_ok, Outcome.map_ok, Outcome.ok_bind, ihr]
      cases r.eval with
      | error e => rfl
      | ok b =>
        simp only [Outcome.mapError_ok, Outcome.map_ok, Outcome.ok_bind, applyAll_cons,
          apply_binary]
        cases Numeric.combine op a b <;> rfl

end Token

/-- The tokens of a tree in postfix order have its value. -/
theorem evaluatePostfix_postorder (t : Tree α) :
    evaluatePostfix t.postorder = t.eval.mapError Error.arithmetic := by
  rw [evaluatePostfix, Token.applyAll_postorder]
  cases t.eval <;> rfl

end InfixArith
