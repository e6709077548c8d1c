import InfixArith.Proofs.Nesting

/-!
# The format as an alternation

`Follows` says of each terminal only whether it fits after the one before it; `Alternates` says
what the whole list is made of: operands, each with its parentheses, and binary operations in
turn.  The two are the same (`follows_iff_alternates`).

One direction puts the pieces together.  The other one is an induction along the list: behind an
operand there are closing parentheses, and then the end or a binary operation with the rest
(`ContinuesAlternation`); in front of it each opening parenthesis, with a minus or without, becomes
part of the operand (`IsAlternation.opening_minusSign`).
-/

namespace InfixArith

/-! ### From alternations to lists that follow -/

theorem Follows.closings_append {us : List Terminal} (h : Follows .continuation us) :
    ∀ n : Nat, Follows .continuation (List.replicate n .closing ++ us)
  | 0 => h
  | n + 1 => .step .closing (h.closings_append n)

theorem openings_cons (marked : Bool) (marks : List Bool) :
    openings (marked :: marks) = .opening :: (minusSign marked ++ openings marks) := by
  cases marked <;> rfl

theorem Follows.openings_append {us : List Terminal} (h : Follows .operand us) :
    ∀ marks : List Bool, Follows .operand (openings marks ++ us)
  | [] => h
  | marked :: marks => by
    have := Follows.minusSign_append marked (h.openings_append marks)
    rw [openings_cons, List.cons_append, List.append_assoc]
    exact .step (.opening (by decide)) this

theorem IsOperand.follows_append {ts us : List Terminal} (h : IsOperand ts)
    (hu : Follows .continuation us) : Follows .operand (ts ++ us) := by
  cases h with
  | number marks hs closings =>
    rw [List.append_assoc, List.cons_append]
    exact (Follows.step (.number (by decide) hs) (hu.closings_append closings)).openings_append marks

theorem IsAlternation.follows {ts : List Terminal} (h : IsAlternation ts) : Follows .operand ts := by
  induction h with
  | operand h =>
    have := h.follows_append .done
    rwa [List.append_nil] at this
  | binary op h _ ih => exact h.follows_append (.step (.binary op) ih)

theorem alternates_iff {ts : List Terminal} :
    Alternates ts ↔ ∃ minus us, ts = minusSign minus ++ us ∧ IsAlternation us := by
  constructor
  · intro h
    cases h with
    | plain h => exact ⟨false, _, rfl, h⟩
    | minus h => exact ⟨true, _, rfl, h⟩
  · rintro ⟨minus, us, rfl, h⟩
    cases minus with
    | false => exact .plain h
    | true => exact .minus h

theorem Alternates.follows {ts : List Terminal} (h : Alternates ts) : Follows .group ts := by
  obtain ⟨minus, us, rfl, hu⟩ := alternates_iff.1 h
  exact Follows.minusSign_append minus hu.follows

/-! ### From lists that follow to alternations -/

/-- What comes after the number of an operand. -/
inductive ContinuesAlternation : List Terminal → Prop where
  | done (closings : Nat) : ContinuesAlternation (List.replicate closings .closing)
  | binary (closings : Nat) (op : BinaryOp) {us : List Terminal} (h : IsAlternation us) :
      ContinuesAlternation (List.replicate closings .closing ++ .binary op :: us)

theorem ContinuesAlternation.closing {ts : List Terminal} (h : ContinuesAlternation ts) :
    ContinuesAlternation (.closing :: ts) := by
  cases h with
  | done n => exact .done (n + 1)
  | binary n op h => exact .binary (n + 1) op h

theorem IsAlternation.number {s : List Char} (hs : IsNumeral s) {ts : List Terminal}
    (h : ContinuesAlternation ts) : IsAlternation (.number s :: ts) := by
  cases h with
  | done n => exact .operand (.number [] hs n)
  | binary n op h => exact .binary op (.number [] hs n) h

theorem IsOperand.opening_minusSign {ts : List Terminal} (h : IsOperand ts) (marked : Bool) :
    IsOperand (.opening :: (minusSign marked ++ ts)) := by
  cases h with
  | number marks hs closings =>
    have := IsOperand.number (marked :: marks) hs closings
    rwa [openings_cons, List.cons_append, List.append_assoc] at this

/-- An opening parenthesis belongs to the operand after it, with a minus or without. -/
theorem IsAlternation.opening_minusSign {ts : List Terminal} (h : IsAlternation ts)
    (marked : Bool) : IsAlternation (.opening :: (minusSign marked ++ ts)) := by
  cases h with
  | operand h => exact .operand (h.opening_minusSign marked)
  | @binary ts us op h hs =>
    have := IsAlternation.binary op (h.opening_minusSign marked) hs
    rwa [List.cons_append, List.append_assoc] at this

theorem Alternates.opening {ts : List Terminal} (h : Alternates ts) :
    IsAlternation (.opening :: ts) := by
  obtain ⟨minus, us, rfl, hu⟩ := alternates_iff.1 h
  exact hu.opening_minusSign minus

/-- What a list is that follows an expectation. -/
def Expecting.Shape : Expecting → List Terminal → Prop
  | .group => Alternates
  | .operand => IsAlternation
  | .continuation => ContinuesAlternation

theorem Follows.shape {q : Expecting} {ts : List Terminal} (h : Follows q ts) : q.Shape ts := by
  induction h with
  | done => exact ContinuesAlternation.done 0
  | @step q t ts h _ ih =>
    cases h with
    | negation => exact Alternates.minus ih
    | opening hq => cases q with
      | group => exact Alternates.plain (Alternates.opening ih)
      | operand => exact Alternates.opening ih
      | continuation => exact absurd rfl hq
    | number hq hs => cases q with
      | group => exact Alternates.plain (.number hs ih)
      | operand => exact IsAlternation.number hs ih
      | continuation => exact absurd rfl hq
    | closing => exact ContinuesAlternation.closing ih
    | binary op => exact ContinuesAlternation.binary 0 op ih

/-- **The format as an alternation.** -/
theorem follows_iff_alternates {ts : List Terminal} : Follows .group ts ↔ Alternates ts :=
  ⟨Follows.shape, Alternates.follows⟩

theorem format_eq_ok_iff_alternates {text : String} {ts : List Terminal} :
    format text = .ok ts ↔ Alternates ts ∧ Spaced (ts.map Terminal.text) text.toList := by
  rw [format_eq_ok_iff, follows_iff_alternates]

end InfixArith
