import InfixArith.Proofs.Conservation

/-!
# A group acts as one operand

While a group is read, nothing below its opening parenthesis is touched (`Run.above`): operators
bind tighter than the parenthesis, and each closing one finds an opening one of the group.  At its
end the closing parenthesis releases what the end of input would have released.  So a group reads
whole, as an operand does (`ReadsWhole.group`), and what is around it cannot tell the two apart
(`ReadsWhole.toPostfix_eq_ok_iff`).

What is around it may be anything.  Its parentheses may even match across the group.
-/

namespace InfixArith.Token

variable {α : Type}

/-! ### Above an opening parenthesis -/

/-- A step goes on as it did above an opening parenthesis that is looser than its operator. -/
theorem Step.above {stack stack' : List Waiting} {t : Token α} {out : List (Token α)}
    (h : Step stack t out stack') {rank : Rank} (hl : Loosest [.operator .opening rank, t])
    (base : List Waiting) : Step (stack ++ ⟨.opening, rank⟩ :: base) t out
      (stack' ++ ⟨.opening, rank⟩ :: base) := by
  cases h with
  | operand v => exact .operand v _
  | opening r => exact .opening r _
  | closing h r r' =>
    rw [List.append_assoc]
    exact .closing h r r' _
  | @operator op r released below ho hc hr hb =>
    rw [List.append_assoc]
    refine .operator ho hc hr ?_
    cases below with
    | nil =>
      -- all above the parenthesis is released, and it stops the rest
      rintro _ ⟨⟩
      exact hl rank (by simp) op r ho hc (by simp)
    | cons w below => exact hb

theorem Run.above {stack stack' : List Waiting} {ts out : List (Token α)}
    (h : Run stack ts out stack') {rank : Rank} (hl : Loosest (.operator .opening rank :: ts))
    (base : List Waiting) : Run (stack ++ ⟨.opening, rank⟩ :: base) ts out
      (stack' ++ ⟨.opening, rank⟩ :: base) := by
  induction h with
  | nil => exact .nil _
  | cons h _ ih => exact .cons (h.above (hl.mono (by simp)) base) (ih (hl.mono (by simp)))

/-- **A group reads whole**, as what it holds would be brought into postfix order. -/
theorem ReadsWhole.group {ts out : List (Token α)} (h : toPostfix ts = .ok out) {rank : Rank}
    (hl : Loosest (.operator .opening rank :: ts)) (rank' : Rank) :
    ReadsWhole (.operator .opening rank :: ts ++ [.operator .closing rank']) out := by
  intro base
  obtain ⟨released, stack, hrun, hi, rfl⟩ := toPostfix_eq_ok_iff_run.1 h
  have hopen : Step base (.operator .opening rank : Token α) [] (⟨.opening, rank⟩ :: base) :=
    .opening rank base
  have hinner : Run (⟨.opening, rank⟩ :: base) ts released (stack ++ ⟨.opening, rank⟩ :: base) :=
    hrun.above hl base
  have hclose : Run (stack ++ ⟨.opening, rank⟩ :: base) [(.operator .closing rank' : Token α)]
      (stack.map Waiting.token ++ []) base := .cons (.closing hi rank' rank base) (.nil base)
  rw [List.append_nil] at hclose
  have hall := Run.cons hopen (run_append_iff.2 ⟨released, _, _, hinner, hclose, rfl⟩)
  rw [List.nil_append] at hall
  exact readAll_eq_some_iff.2 hall

/-! ### What is around -/

/-- Around something that leaves the stack as it was, `xs` releases `before`, and `zs` makes up
`after`, with what is left at the end. -/
def Around (xs zs before after : List (Token α)) : Prop :=
  ∃ stack released stack', Run [] xs before stack ∧ Run stack zs released stack' ∧
    (∀ w ∈ stack', w.isInner = true) ∧ released ++ stack'.map Waiting.token = after

/-- What is released before has the operands that stand before. -/
theorem Around.operands {xs zs before after : List (Token α)} (h : Around xs zs before after) :
    before.filter isOperand = xs.filter isOperand := by
  obtain ⟨stack, released, stack', hxs, -⟩ := h
  exact hxs.operands

/-- **What reads whole is not told apart by what is around it.** -/
theorem ReadsWhole.toPostfix_eq_ok_iff {xs ts zs out all : List (Token α)}
    (h : ReadsWhole ts out) :
    toPostfix (xs ++ ts ++ zs) = .ok all ↔
      ∃ before after, Around xs zs before after ∧ before ++ out ++ after = all := by
  rw [toPostfix_eq_ok_iff_run]
  constructor
  · rintro ⟨_, last, hrun, hi, rfl⟩
    obtain ⟨_, next, released, hfirst, hzs, rfl⟩ := run_append_iff.1 hrun
    obtain ⟨before, stack, out', hxs, hts, rfl⟩ := run_append_iff.1 hfirst
    obtain ⟨rfl, rfl⟩ : out' = out ∧ next = stack := by
      simpa [readAll_eq_some_iff.2 hts, eq_comm] using h stack
    exact ⟨before, _, ⟨next, released, last, hxs, hzs, hi, rfl⟩, by simp⟩
  · rintro ⟨before, _, ⟨stack, released, last, hxs, hzs, hi, rfl⟩, rfl⟩
    have hts := readAll_eq_some_iff.1 (h stack)
    exact ⟨before ++ out ++ released, last, run_append_iff.2 ⟨_, stack, _,
      run_append_iff.2 ⟨_, stack, _, hxs, hts, rfl⟩, hzs, rfl⟩, hi, by simp⟩

/-- **A group acts as one operand.**  Balanced tokens with their own ranks can be put in
parentheses in the place of any operand, whatever is around it.  The whole can be brought into
postfix order exactly when it could with the operand, and then the order of the group stands in
the place of the operand, between tokens that are the same. -/
theorem group_as_operand (xs zs : List (Token α)) {ys : List (Token α)}
    (hown : ∀ t ∈ ys, t.HasOwnRank) (hb : Balanced isOpening isClosing ys) (x : α) :
    ∃ out, toPostfix ys = .ok out ∧
      ((∃ all, toPostfix (xs ++ (.ofOperator .opening :: ys ++ [.ofOperator .closing]) ++ zs) =
          .ok all) ↔ ∃ all, toPostfix (xs ++ [.operand x] ++ zs) = .ok all) ∧
      ∀ all, toPostfix (xs ++ [.operand x] ++ zs) = .ok all →
        ∃ before after, before.filter isOperand = xs.filter isOperand ∧
          all = before ++ [.operand x] ++ after ∧
          toPostfix (xs ++ (.ofOperator .opening :: ys ++ [.ofOperator .closing]) ++ zs) =
            .ok (before ++ out ++ after) := by
  obtain ⟨out, ho⟩ := (exists_toPostfix_iff (loosest_of_hasOwnRank hown)).2 hb
  have hloose : Loosest (.ofOperator .opening :: ys) :=
    loosest_of_hasOwnRank (List.forall_mem_cons.2 ⟨rfl, hown⟩)
  have hgroup : ReadsWhole (.ofOperator .opening :: ys ++ [.ofOperator .closing]) out :=
    ReadsWhole.group ho hloose .parentheses
  refine ⟨out, ho, ?_, fun all hall => ?_⟩
  · simp only [hgroup.toPostfix_eq_ok_iff, (ReadsWhole.operand x).toPostfix_eq_ok_iff]
    constructor
    · rintro ⟨_, before, after, ha, -⟩
      exact ⟨_, before, after, ha, rfl⟩
    · rintro ⟨_, before, after, ha, -⟩
      exact ⟨_, before, after, ha, rfl⟩
  · obtain ⟨before, after, ha, rfl⟩ := (ReadsWhole.operand x).toPostfix_eq_ok_iff.1 hall
    exact ⟨before, after, ha.operands, rfl, hgroup.toPostfix_eq_ok_iff.2 ⟨_, _, ha, rfl⟩⟩

/-- A sum in the place of the operand of a minus, within parentheses that match across it. -/
theorem group_as_operand_across :
    (∀ t ∈ [.operand 1, .ofOperator (.binary .add), .ofOperator .opening, .operand 3,
      .ofOperator .closing], (t : Token Nat).HasOwnRank) ∧
    Balanced isOpening isClosing [(.operand 1 : Token Nat), .ofOperator (.binary .add),
      .ofOperator .opening, .operand 3, .ofOperator .closing] ∧
    ∃ before after, before.filter isOperand = [.operand 2] ∧
      [.operand 2, .operand 7, .ofOperator .negate, .ofOperator (.binary .multiply), .operand 4,
        .ofOperator (.binary .subtract)] = before ++ [.operand 7] ++ after ∧
      toPostfix [.ofOperator .opening, .operand 2, .ofOperator (.binary .multiply),
          .ofOperator .negate, .ofOperator .opening, .operand 1, .ofOperator (.binary .add),
          .ofOperator .opening, .operand 3, .ofOperator .closing, .ofOperator .closing,
          .ofOperator .closing, .ofOperator (.binary .subtract), .operand 4] =
        .ok (before ++ [.operand 1, .operand 3, .ofOperator (.binary .add)] ++ after) := by
  have hown : ∀ t ∈ [.operand 1, .ofOperator (.binary .add), .ofOperator .opening, .operand 3,
      .ofOperator .closing], (t : Token Nat).HasOwnRank := by
    simp [HasOwnRank, ofOperator]
  have hb := (exists_toPostfix_iff (loosest_of_hasOwnRank hown)).1 ⟨_, rfl⟩
  obtain ⟨out, ho, -, hall⟩ := group_as_operand [.ofOperator .opening, .operand 2,
      .ofOperator (.binary .multiply), .ofOperator .negate]
    [.ofOperator .closing, .ofOperator (.binary .subtract), .operand 4] hown hb 7
  cases ho
  exact ⟨hown, hb, hall _ rfl⟩

end InfixArith.Token
