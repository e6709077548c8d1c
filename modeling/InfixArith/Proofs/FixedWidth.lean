import InfixArith.Proofs.IntegerNumerals
import InfixArith.Proofs.Literals
import InfixArith.Proofs.Value

/-!
# Fixed widths against any size

An operation in a fixed width is the exact operation, and then a check of the range (`HasWidth`).
So the stack of a fixed width and the stack of exact integers go in step (`apply_map_val`): on
each token both fail in the same way, or the exact one gets an integer and the other gets it too,
unless the integer does not fit.

Over a whole list of tokens there are three ways for this to end (`applyAll_map_val`).  Both stacks
are the same and every integer met fits; or both fail alike; or an integer that does not fit was
met, and the fixed width overflowed there.
-/

namespace InfixArith

/-! ### Mapping the values -/

section

variable {α β : Type}

/-- A token with its value, if it has one, replaced. -/
def Token.map (f : α → β) : Token α → Token β
  | .operand v => .operand (f v)
  | .operator op rank => .operator op rank

/-- A tree with its values replaced. -/
def Tree.map (f : α → β) : Tree α → Tree β
  | .value v => .value (f v)
  | .negate t => .negate (t.map f)
  | .binary op l r => .binary op (l.map f) (r.map f)

theorem Tree.postorder_map (f : α → β) (t : Tree α) :
    (t.map f).postorder = t.postorder.map (Token.map f) := by
  induction t with
  | value v => rfl
  | negate t ih =>
    rw [Tree.map, Tree.postorder, ih, Tree.postorder, List.map_append]
    rfl
  | binary op l r ihl ihr =>
    rw [Tree.map, Tree.postorder, ihl, ihr, Tree.postorder, List.map_append, List.map_append]
    rfl

end

/-! ### What a fixed width does -/

/-- The integers of a width are read and computed as such, whatever the name of their kind. -/
class HasWidth (bits : Nat) [Numeric (Signed bits)] : Prop where
  read_eq (s : List Char) : (Numeric.read s : Except Reason (Signed bits)) = Signed.read bits s
  isFinite_eq (a : Signed bits) : Numeric.isFinite a = true
  combine_eq (op : BinaryOp) (a b : Signed bits) :
    Numeric.combine op a b = Numeric.combine op a.val b.val >>= Signed.checked
  negate_eq (a : Signed bits) : Numeric.negate a = Numeric.negate a.val >>= Signed.checked

instance : HasWidth 32 := ⟨fun _ => rfl, fun _ => rfl, fun _ _ _ => rfl, fun _ => rfl⟩

instance : HasWidth 64 := ⟨fun _ => rfl, fun _ => rfl, fun _ _ _ => rfl, fun _ => rfl⟩

namespace Signed

variable {bits : Nat}

theorem checked_val (a : Signed bits) : checked a.val = .ok a := by
  rw [checked, ofInt?_val]

/-- An integer is kept if it fits, and overflows if it does not. -/
theorem checked_cases (bits : Nat) (n : Int) :
    (∃ a : Signed bits, a.val = n ∧ checked n = .ok a) ∨
    (¬ Fits bits n ∧ (checked n : Except Fault (Signed bits)) = .error .overflow) := by
  by_cases h : Fits bits n
  · exact .inl ⟨⟨n, h.1, h.2⟩, rfl, checked_val ⟨n, h.1, h.2⟩⟩
  · exact .inr ⟨h, by rw [checked, ofInt?_eq_none_iff.2 h]⟩

end Signed

namespace Token

/-! ### The values met -/

section

variable {α : Type} [Numeric α]

theorem trail_cons_ok {stack below : List α} {t : Token α} {v : α}
    (h : apply stack t = .ok (v :: below)) (ts : List (Token α)) :
    trail stack (t :: ts) = v :: trail (v :: below) ts := by
  rw [trail, h]

/-- A token that can be applied leaves a value on top. -/
theorem exists_cons_of_apply {stack out : List α} {t : Token α} (h : apply stack t = .ok out) :
    ∃ v below, out = v :: below := by
  cases t with
  | operand v => cases h; exact ⟨v, stack, rfl⟩
  | operator op r =>
    cases op with
    | opening | closing => cases h
    | negate =>
      rcases stack with _ | ⟨v, below⟩
      · cases h
      · obtain ⟨w, -, rfl⟩ := Outcome.map_eq_ok_iff.1 h
        exact ⟨w, below, rfl⟩
    | binary op =>
      rcases stack with _ | ⟨b, _ | ⟨a, below⟩⟩
      · cases h
      · cases h
      · obtain ⟨w, -, rfl⟩ := Outcome.map_eq_ok_iff.1 h
        exact ⟨w, below, rfl⟩

/-- When all tokens are applied, each operand is met. -/
theorem mem_trail_of_operand_mem {ts : List (Token α)} {stack out : List α}
    (h : applyAll stack ts = .ok out) {v : α} (hv : .operand v ∈ ts) : v ∈ trail stack ts := by
  induction ts generalizing stack with
  | nil => cases hv
  | cons t ts ih =>
    rw [applyAll_cons] at h
    obtain ⟨stack', hstep, hrest⟩ := Outcome.bind_eq_ok_iff.1 h
    obtain ⟨w, below, rfl⟩ := exists_cons_of_apply hstep
    rw [trail_cons_ok hstep]
    rcases List.mem_cons.1 hv with rfl | hv
    · cases hstep
      exact List.mem_cons_self
    · exact List.mem_cons_of_mem w (ih hrest hv)

end

/-! ### Two stacks in step -/

variable {bits : Nat} [Numeric (Signed bits)] [HasWidth bits]

/-- One token does the same to both stacks, up to the check of the range. -/
theorem apply_map_val (stack : List (Signed bits)) (k : Token (Signed bits)) :
    (∃ e, apply (stack.map Signed.val) (k.map Signed.val) = .error e ∧ apply stack k = .error e) ∨
    ∃ n below, apply (stack.map Signed.val) (k.map Signed.val) = .ok (n :: below.map Signed.val) ∧
      apply stack k = ((Signed.checked n).mapError Error.arithmetic).map (· :: below) := by
  cases k with
  | operand v =>
    refine .inr ⟨v.val, stack, rfl, ?_⟩
    rw [Signed.checked_val]
    rfl
  | operator op r =>
    cases op with
    | opening | closing => exact .inl ⟨_, rfl, rfl⟩
    | negate =>
      rcases stack with _ | ⟨a, below⟩
      · exact .inl ⟨_, rfl, rfl⟩
      · refine .inr ⟨-a.val, below, rfl, ?_⟩
        rw [apply, HasWidth.negate_eq]
        rfl
    | binary op =>
      rcases stack with _ | ⟨b, _ | ⟨a, below⟩⟩
      · exact .inl ⟨_, rfl, rfl⟩
      · exact .inl ⟨_, rfl, rfl⟩
      · simp only [List.map_cons, Token.map, apply, HasWidth.combine_eq]
        cases Numeric.combine op a.val b.val with
        | error f => exact .inl ⟨.arithmetic f, rfl, rfl⟩
        | ok n => exact .inr ⟨n, below, rfl, rfl⟩

/-- **Two stacks in step.**  The tokens do the same to both stacks and only meet integers that
fit, or they fail on both alike, or they overflow on one while the other meets an integer that does
not fit. -/
theorem applyAll_map_val (ks : List (Token (Signed bits))) (stack : List (Signed bits)) :
    (∃ out, applyAll stack ks = .ok out ∧
      applyAll (stack.map Signed.val) (ks.map (Token.map Signed.val)) = .ok (out.map Signed.val) ∧
      ∀ n ∈ trail (stack.map Signed.val) (ks.map (Token.map Signed.val)), Signed.Fits bits n) ∨
    (∃ e, applyAll stack ks = .error e ∧
      applyAll (stack.map Signed.val) (ks.map (Token.map Signed.val)) = .error e) ∨
    (applyAll stack ks = .error (.arithmetic .overflow) ∧
      ∃ n ∈ trail (stack.map Signed.val) (ks.map (Token.map Signed.val)),
        ¬ Signed.Fits bits n) := by
  induction ks generalizing stack with
  | nil => exact .inl ⟨stack, rfl, rfl, nofun⟩
  | cons k ks ih =>
    simp only [List.map_cons, applyAll_cons]
    rcases apply_map_val stack k with ⟨e, hexact, hfixed⟩ | ⟨n, below, hexact, hfixed⟩
    · rw [hexact, hfixed]
      exact .inr (.inl ⟨e, rfl, rfl⟩)
    rw [hexact, hfixed, trail_cons_ok hexact]
    -- an integer that fits leaves the two stacks equal, and one that does not ends the calculation
    rcases Signed.checked_cases bits n with ⟨a, rfl, ha⟩ | ⟨hn, ho⟩
    · rw [ha]
      rcases ih (a :: below) with ⟨out, hf, he, hall⟩ | ⟨e, hf, he⟩ | ⟨hf, m, hm, hfit⟩
      · exact .inl ⟨out, hf, he, List.forall_mem_cons.2 ⟨a.fits, hall⟩⟩
      · exact .inr (.inl ⟨e, hf, he⟩)
      · exact .inr (.inr ⟨hf, m, List.mem_cons_of_mem _ hm, hfit⟩)
    · rw [ho]
      exact .inr (.inr ⟨rfl, n, List.mem_cons_self, hn⟩)

end Token

/-! ### Trees -/

namespace Tree

/-- The exact integers met when a tree is computed from its postfix order. -/
def trail (u : Tree Int) : List Int :=
  Token.trail [] u.postorder

/-- Exact integers never overflow. -/
theorem eval_ne_overflow (u : Tree Int) : u.eval ≠ .error .overflow := by
  have combine_ne : ∀ op (a b : Int), Numeric.combine op a b ≠ .error Fault.overflow := by
    intro op a b
    cases op with
    | add | subtract | multiply => exact nofun
    | divide =>
      show (if b = 0 then _ else _ : Except Fault Int) ≠ _
      split <;> exact nofun
  induction u with
  | value v => exact nofun
  | negate t ih =>
    intro h
    rcases Outcome.bind_eq_error_iff.1 h with h | ⟨v, -, h⟩
    · exact ih h
    · cases h
  | binary op l r ihl ihr =>
    intro h
    rcases Outcome.bind_eq_error_iff.1 h with h | ⟨a, -, h⟩
    · exact ihl h
    rcases Outcome.bind_eq_error_iff.1 h with h | ⟨b, -, h⟩
    · exact ihr h
    · exact combine_ne op a b h

variable {bits : Nat} [Numeric (Signed bits)] [HasWidth bits]

/-- The value of a tree in a fixed width: the exact value, if every integer met fits; else the
exact fault, or an overflow. -/
theorem eval_map_val (u : Tree (Signed bits)) :
    (∃ v, u.eval = .ok v ∧ (u.map Signed.val).eval = .ok v.val ∧
      ∀ n ∈ (u.map Signed.val).trail, Signed.Fits bits n) ∨
    (∃ f, u.eval = .error f ∧ (u.map Signed.val).eval = .error f) ∨
    (u.eval = .error .overflow ∧ ∃ n ∈ (u.map Signed.val).trail, ¬ Signed.Fits bits n) := by
  have key := Token.applyAll_map_val u.postorder []
  rw [← postorder_map, List.map_nil, Token.applyAll_postorder, Token.applyAll_postorder] at key
  rcases key with ⟨out, hf, he, hall⟩ | ⟨e, hf, he⟩ | ⟨hf, hn⟩
  · obtain ⟨v, hv, rfl⟩ := Outcome.map_eq_ok_iff.1 hf
    obtain ⟨n, hn, hl⟩ := Outcome.map_eq_ok_iff.1 he
    cases hl
    exact .inl ⟨v, Outcome.mapError_eq_ok_iff.1 hv, Outcome.mapError_eq_ok_iff.1 hn, hall⟩
  · obtain ⟨f, hu, rfl⟩ := Outcome.mapError_eq_error_iff.1 (Outcome.map_eq_error_iff.1 hf)
    obtain ⟨g, hx, hg⟩ := Outcome.mapError_eq_error_iff.1 (Outcome.map_eq_error_iff.1 he)
    cases hg
    exact .inr (.inl ⟨f, hu, hx⟩)
  · obtain ⟨f, hu, hf⟩ := Outcome.mapError_eq_error_iff.1 (Outcome.map_eq_error_iff.1 hf)
    cases hf
    exact .inr (.inr ⟨hu, hn⟩)

/-- The least integer divided by minus one: the quotient is the first one above the range. -/
example : (Tree.binary .divide (.value ⟨-2147483648, by decide, by decide⟩)
    (.value ⟨-1, by decide, by decide⟩) : Tree (Signed 32)).eval = .error .overflow := rfl

end Tree

end InfixArith
