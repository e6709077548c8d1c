import InfixArith.Proofs.Balance
import InfixArith.Proofs.Reading

/-!
# Parentheses and postfix order

The stack remembers the open parentheses, and it remembers all of them as long as no operator can
release one: as long as parentheses bind most loosely of all (`Loosest`).  Then a step keeps account
of the parentheses open on the stack and of those still to come (`Step.closes_iff`), and together
they decide whether tokens can be brought into postfix order (`closes_iff_readAll`).  So it can be
done exactly when the tokens are balanced (`exists_toPostfix_iff`).
-/

namespace InfixArith

open InfixArith.Balanced (Closes marks)

/-- By their own ranks, all other operators bind tighter than parentheses. -/
theorem Operator.parentheses_lt_rank {op : Operator} (ho : op ≠ .opening) (hc : op ≠ .closing) :
    .parentheses < op.rank := by
  cases op with
  | opening => exact absurd rfl ho
  | closing => exact absurd rfl hc
  | negate => decide
  | binary op => cases op <;> decide

/-- The open parentheses on a stack. -/
def opened (stack : List Waiting) : Nat :=
  stack.countP fun w => !w.isInner

theorem opened_append (stack below : List Waiting) :
    opened (stack ++ below) = opened stack + opened below :=
  List.countP_append

theorem opened_cons_inner {w : Waiting} (h : w.isInner = true) (stack : List Waiting) :
    opened (w :: stack) = opened stack := by
  simp [opened, h]

theorem opened_cons_opening (rank : Rank) (stack : List Waiting) :
    opened (⟨.opening, rank⟩ :: stack) = opened stack + 1 := by
  simp [opened, Waiting.isInner]

theorem opened_eq_zero_iff {stack : List Waiting} :
    opened stack = 0 ↔ ∀ w ∈ stack, w.isInner = true := by
  simp [opened, List.countP_eq_zero]

namespace Token

variable {α : Type}

theorem isClosing_of_isOpening (t : Token α) (h : t.isOpening = true) : t.isClosing = false := by
  cases t with
  | operand v => cases h
  | operator op r =>
    cases op with
    | opening => rfl
    | closing | negate | binary => cases h

/-- Each opening parenthesis binds more loosely than each operator that is no parenthesis. -/
def Loosest (ts : List (Token α)) : Prop :=
  ∀ r, .operator .opening r ∈ ts → ∀ op r', op ≠ .opening → op ≠ .closing →
    .operator op r' ∈ ts → r < r'

theorem Loosest.mono {ts us : List (Token α)} (h : Loosest ts) (hs : us ⊆ ts) : Loosest us :=
  fun r hr op r' ho hc hop => h r (hs hr) op r' ho hc (hs hop)

/-- Operators with their own ranks leave the parentheses loosest. -/
theorem loosest_of_hasOwnRank {ts : List (Token α)} (h : ∀ t ∈ ts, t.HasOwnRank) : Loosest ts := by
  intro r hr op r' ho hc hop
  obtain rfl : r = .parentheses := h _ hr
  obtain rfl : r' = op.rank := h _ hop
  exact Operator.parentheses_lt_rank ho hc

theorem marks_operand (v : α) (ts : List (Token α)) :
    marks isOpening isClosing (.operand v :: ts) = marks isOpening isClosing ts := rfl

theorem marks_opening (r : Rank) (ts : List (Token α)) :
    marks isOpening isClosing (.operator .opening r :: ts) =
      true :: marks isOpening isClosing ts := rfl

theorem marks_closing (r : Rank) (ts : List (Token α)) :
    marks isOpening isClosing (.operator .closing r :: ts) =
      false :: marks isOpening isClosing ts := rfl

theorem marks_operator {op : Operator} (ho : op ≠ .opening) (hc : op ≠ .closing) (r : Rank)
    (ts : List (Token α)) :
    marks isOpening isClosing (.operator op r :: ts) = marks isOpening isClosing ts := by
  cases op with
  | opening => exact absurd rfl ho
  | closing => exact absurd rfl hc
  | negate | binary => rfl

/-! ### What a step opens and closes -/

/-- What is read later is loosest above the new stack too. -/
theorem Step.loosest {stack stack' : List Waiting} {t : Token α} {out ts : List (Token α)}
    (h : Step stack t out stack') (hl : Loosest (stack.map Waiting.token ++ t :: ts)) :
    Loosest (stack'.map Waiting.token ++ ts) := by
  refine hl.mono fun k hk => ?_
  rcases List.mem_append.1 hk with hk | hk
  · obtain ⟨w, hw, rfl⟩ := List.mem_map.1 hk
    rcases h.mem w hw with hw | rfl
    · exact List.mem_append_left _ (List.mem_map_of_mem hw)
    · simp
  · exact List.mem_append_right _ (List.mem_cons_of_mem t hk)

/-- **A step keeps account of the open parentheses**: those on the stack, and those that the tokens
still to come open and close. -/
theorem Step.closes_iff {stack stack' : List Waiting} {t : Token α} {out ts : List (Token α)}
    (h : Step stack t out stack') (hl : Loosest (stack.map Waiting.token ++ t :: ts)) :
    Closes (opened stack) (marks isOpening isClosing (t :: ts)) ↔
      Closes (opened stack') (marks isOpening isClosing ts) := by
  cases h with
  | operand v => rw [marks_operand]
  | opening rank => rw [marks_opening, Closes, opened_cons_opening]
  | closing h rank rank' =>
    rw [marks_closing, opened_append, opened_eq_zero_iff.2 h, opened_cons_opening, Nat.zero_add,
      Closes]
  | @operator op rank released below ho hc hr hb =>
    -- an operator releases no opening parenthesis, for that is looser
    have hinner : ∀ w ∈ released, w.isInner = true := by
      intro w hw
      have hne : w.op ≠ .opening := by
        intro hop
        have hmem : (.operator .opening w.rank : Token α) ∈
            (released ++ below).map Waiting.token ++ .operator op rank :: ts :=
          List.mem_append_left _ (List.mem_map.2
            ⟨w, List.mem_append_left _ hw, by rw [Waiting.token, hop]⟩)
        exact Rank.not_le.2 (hl w.rank hmem op rank ho hc (by simp)) (hr w hw)
      simpa [Waiting.isInner] using hne
    rw [marks_operator ho hc, opened_append, opened_eq_zero_iff.2 hinner, Nat.zero_add,
      opened_cons_inner (by simpa [Waiting.isInner] using ho)]

/-- **The open parentheses decide.**  Tokens can be read, with none left open, exactly when they
close those open on the stack and all they open themselves. -/
theorem closes_iff_readAll {ts : List (Token α)} {stack : List Waiting}
    (h : Loosest (stack.map Waiting.token ++ ts)) :
    Closes (opened stack) (marks isOpening isClosing ts) ↔
      ∃ p, readAll stack ts = some p ∧ opened p.2 = 0 := by
  induction ts generalizing stack with
  | nil =>
    constructor
    · exact fun h => ⟨_, rfl, h⟩
    · rintro ⟨_, ⟨⟩, h⟩
      exact h
  | cons t ts ih =>
    cases hr : read stack t with
    | none =>
      obtain ⟨hc, hi⟩ := read_eq_none_iff.1 hr
      have ho : t.isOpening = false :=
        Bool.eq_false_iff.2 fun ho => by simp [isClosing_of_isOpening t ho] at hc
      rw [opened_eq_zero_iff.2 hi, Balanced.marks_cons_closing ho hc, readAll_cons, hr]
      exact ⟨False.elim, by simp⟩
    | some p =>
      have hstep := read_eq_some_iff.1 hr
      rw [hstep.closes_iff h, ih (hstep.loosest h), readAll_cons, hr, Option.bind_some]
      cases readAll p.2 ts <;> simp

/-- Tokens can be brought into postfix order exactly when they are balanced. -/
theorem exists_toPostfix_iff {ts : List (Token α)} (h : Loosest ts) :
    (∃ out, toPostfix ts = .ok out) ↔ Balanced isOpening isClosing ts := by
  rw [Balanced.balanced_iff_closes isClosing_of_isOpening]
  refine Iff.trans ?_ (@closes_iff_readAll α ts [] h).symm
  constructor
  · rintro ⟨out, ho⟩
    obtain ⟨p, hr, hz, -⟩ := toPostfix_eq_ok_iff.1 ho
    exact ⟨p, hr, opened_eq_zero_iff.2 (List.all_eq_true.1 hz)⟩
  · rintro ⟨p, hr, hz⟩
    have hi := List.all_eq_true.2 (opened_eq_zero_iff.1 hz)
    exact ⟨_, toPostfix_eq_ok_iff.2 ⟨p, hr, hi, rfl⟩⟩

/-- There is one way to fail. -/
theorem eq_unbalanced_of_toPostfix {ts : List (Token α)} {e : Error} (h : toPostfix ts = .error e) :
    e = .unbalanced := by
  unfold toPostfix at h
  split at h
  · cases h
  · exact (Except.error.inj h).symm

/-- Tokens fail when they are not balanced. -/
theorem toPostfix_eq_unbalanced {ts : List (Token α)} (h : Loosest ts)
    (hb : ¬ Balanced isOpening isClosing ts) : toPostfix ts = .error .unbalanced := by
  cases ht : toPostfix ts with
  | ok out => exact absurd ((exists_toPostfix_iff h).1 ⟨out, ht⟩) hb
  | error e => rw [eq_unbalanced_of_toPostfix ht]

end Token

end InfixArith
