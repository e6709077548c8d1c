import InfixArith.Proofs.Parentheses
import Mathlib.Data.List.Chain
import Mathlib.Logic.Relation

/-!
# The operators that wait

A token may take many operators from the stack, and in between there are stacks that no step of a
run shows.  Here the stack changes by one operator at a time.  A `Point` is what there is between
two such changes, and a `Move` goes from one point to the next.  The moves pass through the stacks
of a run (`Run.moves`).  They come to an end (`exists_ended`), and as none of them changes what
comes out (`Move.outcome_eq`), that is the end `toPostfix` tells of (`toPostfix_eq_ok_iff_moves`,
`toPostfix_eq_unbalanced_iff_moves`).

An operator that is put on the stack first takes away what binds as tightly.  So each operator on
the stack binds tighter than what is directly below it (`Ascends`), and a move keeps that.  There
are only three ranks for operators to have of their own.  So no more than three of them follow one
another, and the open parentheses bound the height of the stack (`Ascends.length_le`).
-/

namespace InfixArith

/-! ### Stacks that ascend -/

theorem Rank.ordinal_le (r : Rank) : r.ordinal ≤ 3 := by
  cases r <;> decide

/-- Only an opening parenthesis is not inner. -/
theorem Waiting.exists_eq_opening {w : Waiting} (h : ¬ w.isInner = true) :
    ∃ rank, w = ⟨.opening, rank⟩ := by
  obtain ⟨op, rank⟩ := w
  obtain rfl : op = .opening := by simpa [Waiting.isInner] using h
  exact ⟨rank, rfl⟩

/-- Each operator binds tighter than what is directly below it.  An opening parenthesis need not. -/
def Ascends (stack : List Waiting) : Prop :=
  stack.IsChain fun w below => w.isInner = true → below.rank < w.rank

namespace Ascends

variable {w : Waiting} {stack : List Waiting}

theorem nil : Ascends [] :=
  List.isChain_nil

theorem tail (h : Ascends (w :: stack)) : Ascends stack :=
  List.IsChain.tail h

/-- An opening parenthesis may be put on anything. -/
theorem cons_opening (h : Ascends stack) (rank : Rank) : Ascends (⟨.opening, rank⟩ :: stack) :=
  List.IsChain.cons h fun _ _ hi => by simp [Waiting.isInner] at hi

/-- An operator may be put on what is looser. -/
theorem cons (h : Ascends stack) (hb : ∀ v ∈ stack.head?, v.rank < w.rank) :
    Ascends (w :: stack) :=
  List.IsChain.cons h fun v hv _ => hb v hv

/-- From one open parenthesis to the next the ranks go up, so the rank at the top bounds what
stands above the last one. -/
theorem length_cons_le (h : Ascends (w :: stack))
    (hp : ∀ v ∈ w :: stack, v.isInner = true → .parentheses < v.rank) :
    (w :: stack).length ≤ 4 * opened (w :: stack) + w.rank.ordinal := by
  -- a rank makes room for one more operator, and an open parenthesis for all ranks again
  induction stack generalizing w with
  | nil =>
    rw [List.length_singleton]
    by_cases hi : w.isInner = true
    · have hlt : 0 < w.rank.ordinal := Rank.lt_def.1 (hp w List.mem_cons_self hi)
      omega
    · obtain ⟨rank, rfl⟩ := Waiting.exists_eq_opening hi
      rw [opened_cons_opening]
      omega
  | cons v stack ih =>
    have hv := ih h.tail fun u hu => hp u (List.mem_cons_of_mem w hu)
    rw [List.length_cons]
    by_cases hi : w.isInner = true
    · have hlt := Rank.lt_def.1 ((List.isChain_cons_cons.1 h).1 hi)
      rw [opened_cons_inner hi]
      omega
    · obtain ⟨rank, rfl⟩ := Waiting.exists_eq_opening hi
      have hle := v.rank.ordinal_le
      rw [opened_cons_opening]
      omega

/-- **The open parentheses bound the height.** -/
theorem length_le (h : Ascends stack)
    (hp : ∀ w ∈ stack, w.isInner = true → .parentheses < w.rank) :
    stack.length ≤ 4 * opened stack + 3 := by
  cases stack with
  | nil => exact Nat.zero_le _
  | cons w stack =>
    have hlen := h.length_cons_le hp
    have hle := w.rank.ordinal_le
    omega

/-- No more than three operators stand together without a parenthesis. -/
theorem length_le_of_isInner (h : Ascends stack)
    (hp : ∀ w ∈ stack, w.isInner = true → .parentheses < w.rank) {group : List Waiting}
    (hg : group <:+: stack) (hi : ∀ w ∈ group, w.isInner = true) : group.length ≤ 3 := by
  have hgroup : Ascends group := List.IsChain.infix h hg
  have hlen := hgroup.length_le fun w hw => hp w (hg.subset hw)
  rwa [opened_eq_zero_iff.2 hi] at hlen

end Ascends

namespace Token

variable {α : Type}

/-! ### One operator at a time -/

/-- What there is between two changes of the stack. -/
inductive Point (α : Type) where
  /-- The stack, what has been released, and the tokens still to be read. -/
  | reading (stack : List Waiting) (released pending : List (Token α))
  /-- The stack once the parentheses are known not to match. -/
  | failed (stack : List Waiting)

namespace Point

def stack : Point α → List Waiting
  | .reading stack _ _ => stack
  | .failed stack => stack

def pending : Point α → List (Token α)
  | .reading _ _ pending => pending
  | .failed _ => []

/-- The tokens are read and none waits, or they cannot be brought into postfix order. -/
inductive Ended : Point α → Prop where
  | done (released : List (Token α)) : Ended (.reading [] released [])
  | failed (stack : List Waiting) : Ended (.failed stack)

/-- A bound on the moves that are left: a token is put on the stack and taken from it. -/
def left : Point α → Nat
  | .reading stack _ pending => 2 * pending.length + stack.length + 1
  | .failed _ => 0

/-- What comes out in the end. -/
def outcome : Point α → Option (List (Token α))
  | .reading stack released pending =>
    (readAll stack pending).bind fun p => (flush p.2).map fun rest => released ++ p.1 ++ rest
  | .failed _ => none

end Point

/-- One change of the stack, or an operand that is released. -/
inductive Move : Point α → Point α → Prop where
  | operand (v : α) (stack : List Waiting) (released pending : List (Token α)) :
      Move (.reading stack released (.operand v :: pending))
        (.reading stack (released ++ [.operand v]) pending)
  | opening (rank : Rank) (stack : List Waiting) (released pending : List (Token α)) :
      Move (.reading stack released (.operator .opening rank :: pending))
        (.reading (⟨.opening, rank⟩ :: stack) released pending)
  /-- A closing parenthesis releases the operators on top, one by one, -/
  | release {w : Waiting} (h : w.isInner = true) (rank : Rank) (stack : List Waiting)
      (released pending : List (Token α)) :
      Move (.reading (w :: stack) released (.operator .closing rank :: pending))
        (.reading stack (released ++ [w.token]) (.operator .closing rank :: pending))
  /-- takes away the opening one below them, -/
  | close (rank rank' : Rank) (stack : List Waiting) (released pending : List (Token α)) :
      Move (.reading (⟨.opening, rank'⟩ :: stack) released (.operator .closing rank :: pending))
        (.reading stack released pending)
  /-- and fails without one. -/
  | unopened (rank : Rank) (released pending : List (Token α)) :
      Move (.reading [] released (.operator .closing rank :: pending)) (.failed [])
  /-- An operator releases those on top that are not looser, one by one, -/
  | yield {op : Operator} {rank : Rank} {w : Waiting} (ho : op ≠ .opening) (hc : op ≠ .closing)
      (h : rank ≤ w.rank) (stack : List Waiting) (released pending : List (Token α)) :
      Move (.reading (w :: stack) released (.operator op rank :: pending))
        (.reading stack (released ++ [w.token]) (.operator op rank :: pending))
  /-- and is put on what is. -/
  | wait {op : Operator} {rank : Rank} {stack : List Waiting} (ho : op ≠ .opening)
      (hc : op ≠ .closing) (hb : ∀ w ∈ stack.head?, w.rank < rank)
      (released pending : List (Token α)) :
      Move (.reading stack released (.operator op rank :: pending))
        (.reading (⟨op, rank⟩ :: stack) released pending)
  /-- At the end the operators that are left are released, one by one, -/
  | drain {w : Waiting} (h : w.isInner = true) (stack : List Waiting)
      (released : List (Token α)) :
      Move (.reading (w :: stack) released []) (.reading stack (released ++ [w.token]) [])
  /-- and an opening parenthesis among them is a failure. -/
  | unclosed (rank : Rank) (stack : List Waiting) (released : List (Token α)) :
      Move (.reading (⟨.opening, rank⟩ :: stack) released []) (.failed stack)

/-- Any number of moves. -/
abbrev Moves : Point α → Point α → Prop :=
  Relation.ReflTransGen Move

variable {p q : Point α} {stack stack' : List Waiting} {t : Token α}
  {ts out released pending : List (Token α)}

/-! ### Steps and runs are made of moves -/

/-- What can be taken from the top, whatever is below, is taken one by one. -/
theorem moves_pop {ws : List Waiting}
    (h : ∀ w ∈ ws, ∀ stack released, Move (.reading (w :: stack) released pending)
      (.reading stack (released ++ [w.token]) pending)) :
    Moves (.reading (ws ++ stack) released pending)
      (.reading stack (released ++ ws.map Waiting.token) pending) := by
  induction ws generalizing released with
  | nil =>
    rw [List.map_nil, List.append_nil]
    exact .refl
  | cons w ws ih =>
    obtain ⟨hw, hws⟩ := List.forall_mem_cons.1 h
    have hrest := @ih (released ++ [w.token]) hws
    rw [List.append_assoc, List.singleton_append, ← List.map_cons] at hrest
    exact .head (hw (ws ++ stack) released) hrest

theorem Step.moves (h : Step stack t out stack') :
    Moves (.reading stack released (t :: pending))
      (.reading stack' (released ++ out) pending) := by
  cases h with
  | operand v => exact .single (.operand v _ _ _)
  | opening rank =>
    rw [List.append_nil]
    exact .single (.opening rank _ _ _)
  | closing h rank rank' =>
    exact .tail (moves_pop fun w hw _ _ => .release (h w hw) rank _ _ _) (.close rank rank' _ _ _)
  | operator ho hc hr hb =>
    exact .tail (moves_pop fun w hw _ _ => .yield ho hc (hr w hw) _ _ _) (.wait ho hc hb _ _)

/-- **The moves pass through the stacks of a run.** -/
theorem Run.moves (h : Run stack ts out stack') :
    Moves (.reading stack released (ts ++ pending))
      (.reading stack' (released ++ out) pending) := by
  induction h generalizing released with
  | nil =>
    rw [List.append_nil]
    exact .refl
  | cons h _ ih =>
    rw [← List.append_assoc]
    exact h.moves.trans ih

/-! ### What comes out -/

/-- What is on top is released first by a closing parenthesis. -/
theorem read_closing_cons {w : Waiting} (h : w.isInner = true) (rank : Rank) :
    read (w :: stack) (.operator .closing rank : Token α) =
      (read stack (.operator .closing rank)).map fun p => (w.token :: p.1, p.2) := by
  simp only [read, List.dropWhile_cons_of_pos h, List.takeWhile_cons_of_pos h]
  cases stack.dropWhile Waiting.isInner <;> rfl

/-- What is on top is released first by an operator that it yields to. -/
theorem read_operator_cons {op : Operator} {rank : Rank} {w : Waiting} (ho : op ≠ .opening)
    (hc : op ≠ .closing) (h : rank ≤ w.rank) :
    read (w :: stack) (.operator op rank : Token α) =
      (read stack (.operator op rank)).map fun p => (w.token :: p.1, p.2) := by
  have hy := Waiting.yields_iff.2 h
  rw [read_operator ho hc, read_operator ho hc, List.dropWhile_cons_of_pos hy,
    List.takeWhile_cons_of_pos hy]
  rfl

theorem flush_cons {w : Waiting} (h : w.isInner = true) :
    (flush (w :: stack) : Option (List (Token α))) = (flush stack).map (w.token :: ·) := by
  by_cases hs : stack.all Waiting.isInner = true <;> simp [flush, h, hs]

namespace Point

theorem outcome_nil : outcome (.reading stack released []) =
    (flush stack).map fun rest => released ++ rest := by
  simp [outcome, readAll_nil]

theorem outcome_cons : outcome (.reading stack released (t :: pending)) =
    (read stack t).bind fun p => outcome (.reading p.2 (released ++ p.1) pending) := by
  rw [outcome, readAll_cons]
  cases read stack t with
  | none => rfl
  | some p =>
    rw [Option.bind_some, Option.bind_some, outcome]
    cases readAll p.2 pending <;> simp

/-- What the next token releases first may as well be released at once. -/
theorem outcome_pop {w : Waiting}
    (h : read (w :: stack) t = (read stack t).map fun p => (w.token :: p.1, p.2)) :
    outcome (.reading (w :: stack) released (t :: pending)) =
      outcome (.reading stack (released ++ [w.token]) (t :: pending)) := by
  rw [outcome_cons, outcome_cons, h]
  cases read stack t <;> simp

end Point

open Point

/-- **A move does not change what comes out.** -/
theorem Move.outcome_eq (h : Move p q) : p.outcome = q.outcome := by
  cases h with
  | operand v => rw [outcome_cons, read, Option.bind_some]
  | opening rank => rw [outcome_cons, read, Option.bind_some, List.append_nil]
  | release h rank => exact outcome_pop (read_closing_cons h rank)
  | close rank rank' stack released pending =>
    have hread : read (⟨.opening, rank'⟩ :: stack) (.operator .closing rank : Token α) =
        some ([], stack) := rfl
    rw [outcome_cons, hread, Option.bind_some, List.append_nil]
  | unopened rank =>
    rw [outcome_cons]
    rfl
  | yield ho hc h => exact outcome_pop (read_operator_cons ho hc h)
  | @wait op rank stack ho hc hb =>
    have hread : read stack (.operator op rank : Token α) = some ([], ⟨op, rank⟩ :: stack) :=
      read_eq_some_iff.2 (@Step.operator α op rank [] stack ho hc (List.forall_mem_nil _) hb)
    rw [outcome_cons, hread, Option.bind_some, List.append_nil]
  | drain h =>
    rw [outcome_nil, outcome_nil, flush_cons h, Option.map_map]
    simp [Function.comp_def]
  | unclosed rank =>
    rw [outcome_nil, flush, if_neg (by simp [Waiting.isInner])]
    rfl

theorem Moves.outcome_eq (h : Moves p q) : p.outcome = q.outcome := by
  induction h with
  | refl => rfl
  | tail _ h ih => rw [ih, h.outcome_eq]

theorem reorder?_eq_outcome : reorder? ts = outcome (.reading [] [] ts) := by
  simp only [reorder?, outcome]
  cases readAll [] ts with
  | none => rfl
  | some p => cases h : flush (α := α) p.2 <;> simp [h]

/-! ### The end -/

theorem exists_move_of_closing (rank : Rank) (stack : List Waiting)
    (released pending : List (Token α)) :
    ∃ q, Move (.reading stack released (.operator .closing rank :: pending)) q := by
  cases stack with
  | nil => exact ⟨_, .unopened rank _ _⟩
  | cons w stack =>
    by_cases hi : w.isInner = true
    · exact ⟨_, .release hi rank _ _ _⟩
    · obtain ⟨rank', rfl⟩ := Waiting.exists_eq_opening hi
      exact ⟨_, .close rank rank' _ _ _⟩

theorem exists_move_of_operator {op : Operator} (ho : op ≠ .opening) (hc : op ≠ .closing)
    (rank : Rank) (stack : List Waiting) (released pending : List (Token α)) :
    ∃ q, Move (.reading stack released (.operator op rank :: pending)) q := by
  cases stack with
  | nil => exact ⟨_, .wait ho hc (by simp) _ _⟩
  | cons w stack =>
    by_cases hle : rank ≤ w.rank
    · exact ⟨_, .yield ho hc hle _ _ _⟩
    · exact ⟨_, .wait ho hc (by simpa using Rank.not_le.1 hle) _ _⟩

theorem exists_move_of_cons (w : Waiting) (stack : List Waiting) (released : List (Token α)) :
    ∃ q, Move (.reading (w :: stack) released []) q := by
  by_cases hi : w.isInner = true
  · exact ⟨_, .drain hi _ _⟩
  · obtain ⟨rank, rfl⟩ := Waiting.exists_eq_opening hi
    exact ⟨_, .unclosed rank _ _⟩

/-- **What has not ended moves on.** -/
theorem exists_move (h : ¬ p.Ended) : ∃ q, Move p q := by
  cases p with
  | failed stack => exact absurd (.failed stack) h
  | reading stack released pending =>
    cases pending with
    | nil =>
      cases stack with
      | nil => exact absurd (.done released) h
      | cons w stack => exact exists_move_of_cons w stack released
    | cons t pending =>
      cases t with
      | operand v => exact ⟨_, .operand v _ _ _⟩
      | operator op rank =>
        cases op with
        | opening => exact ⟨_, .opening rank _ _ _⟩
        | closing => exact exists_move_of_closing rank stack released pending
        | negate | binary =>
          exact exists_move_of_operator (by simp) (by simp) rank stack released pending

theorem Move.left_lt (h : Move p q) : q.left < p.left := by
  cases h <;> simp only [left, List.length_cons, List.length_nil] <;> omega

/-- The moves come to an end, for each leaves less to do. -/
theorem exists_ended (p : Point α) : ∃ q, Moves p q ∧ q.Ended := by
  by_cases h : p.Ended
  · exact ⟨p, .refl, h⟩
  · obtain ⟨q, hq⟩ := exists_move h
    obtain ⟨r, hr, he⟩ := exists_ended q
    exact ⟨r, .head hq hr, he⟩
termination_by p.left
decreasing_by exact hq.left_lt

theorem toPostfix_eq_ok_iff_moves :
    toPostfix ts = .ok out ↔ Moves (.reading [] [] ts) (.reading [] out []) := by
  have hok : toPostfix ts = .ok out ↔ outcome (.reading [] [] ts) = some out := by
    rw [toPostfix, reorder?_eq_outcome]
    cases outcome (.reading [] [] ts) <;> simp
  rw [hok]
  constructor
  · intro h
    obtain ⟨q, hq, he⟩ := exists_ended (.reading [] [] ts)
    rw [hq.outcome_eq] at h
    cases he with
    | done released =>
      obtain rfl : released = out := by simpa [outcome_nil, flush] using h
      exact hq
    | failed stack => cases h
  · intro h
    simp [h.outcome_eq, outcome_nil, flush]

theorem toPostfix_eq_unbalanced_iff_moves :
    toPostfix ts = .error .unbalanced ↔ ∃ stack, Moves (.reading [] [] ts) (.failed stack) := by
  constructor
  · intro h
    obtain ⟨q, hq, he⟩ := exists_ended (.reading [] [] ts)
    cases he with
    | done released => simp [toPostfix_eq_ok_iff_moves.2 hq] at h
    | failed stack => exact ⟨stack, hq⟩
  · rintro ⟨stack, h⟩
    rw [toPostfix, reorder?_eq_outcome, h.outcome_eq]
    rfl

/-! ### What a move keeps -/

/-- **A move keeps the stack ascending.** -/
theorem Move.ascends (h : Move p q) (ha : Ascends p.stack) : Ascends q.stack := by
  cases h with
  | operand v => exact ha
  | opening rank => exact ha.cons_opening rank
  | release | close | yield | drain | unclosed => exact ha.tail
  | unopened => exact .nil
  | wait ho hc hb => exact ha.cons hb

/-- What waits after a move waited before, or it was read, and it is no closing parenthesis. -/
theorem Move.mem (h : Move p q) {w : Waiting} (hw : w ∈ q.stack) :
    w ∈ p.stack ∨ w.op ≠ .closing ∧ w.token ∈ p.pending := by
  cases h with
  | operand v => exact .inl hw
  | release | close | yield | drain | unclosed => exact .inl (List.mem_cons_of_mem _ hw)
  | unopened => cases hw
  | opening rank =>
    rcases List.mem_cons.1 hw with rfl | hw
    · exact .inr ⟨nofun, List.mem_cons_self⟩
    · exact .inl hw
  | wait ho hc hb =>
    rcases List.mem_cons.1 hw with rfl | hw
    · exact .inr ⟨hc, List.mem_cons_self⟩
    · exact .inl hw

theorem Move.pending_subset (h : Move p q) : q.pending ⊆ p.pending := by
  cases h with
  | operand | opening | close | wait => exact List.subset_cons_self _ _
  | release | yield | drain => exact List.Subset.refl _
  | unopened | unclosed => exact List.nil_subset _

theorem Moves.ascends (h : Moves (.reading [] [] ts) p) : Ascends p.stack := by
  induction h with
  | refl => exact .nil
  | tail _ h ih => exact h.ascends ih

theorem Moves.pending_subset (h : Moves p q) : q.pending ⊆ p.pending := by
  induction h with
  | refl => exact List.Subset.refl _
  | tail _ h ih => exact List.Subset.trans h.pending_subset ih

/-- What waits was read, and it is no closing parenthesis. -/
theorem Moves.mem (h : Moves (.reading [] [] ts) p) :
    ∀ w ∈ p.stack, w.op ≠ .closing ∧ w.token ∈ ts := by
  induction h with
  | refl => exact nofun
  | tail hs h ih =>
    -- what the last move reads was pending from the start
    intro w hw
    rcases h.mem hw with hw | ⟨hc, hw⟩
    · exact ih w hw
    · exact ⟨hc, Moves.pending_subset hs hw⟩

theorem Moves.parentheses_lt (h : Moves (.reading [] [] ts) p) (hown : ∀ t ∈ ts, t.HasOwnRank) :
    ∀ w ∈ p.stack, w.isInner = true → .parentheses < w.rank := by
  intro w hw hi
  obtain ⟨hc, hmem⟩ := h.mem w hw
  have hrank : w.rank = w.op.rank := hown _ hmem
  rw [hrank]
  exact Operator.parentheses_lt_rank (by simpa [Waiting.isInner] using hi) hc

/-- **The stack ascends at every point.**  The moves end as `toPostfix` does and pass through the
stacks of `readAll`.  At each point, whatever the tokens and their ranks, each operator on the stack
binds tighter than what is directly below it.  If the tokens have their own ranks, no more than
three operators stand together without a parenthesis, and so the height of the stack is bounded by
the number of parentheses that are open. -/
theorem stack_ascends (ts : List (Token α)) :
    (∀ out, toPostfix ts = .ok out ↔ Moves (.reading [] [] ts) (.reading [] out [])) ∧
    (toPostfix ts = .error .unbalanced ↔
      ∃ stack, Moves (.reading [] [] ts) (.failed stack)) ∧
    (∀ us vs out stack, ts = us ++ vs → readAll [] us = some (out, stack) →
      Moves (.reading [] [] ts) (.reading stack out vs)) ∧
    ∀ p, Moves (.reading [] [] ts) p →
      Ascends p.stack ∧
      ((∀ t ∈ ts, t.HasOwnRank) →
        (∀ group, group <:+: p.stack → (∀ w ∈ group, w.isInner = true) → group.length ≤ 3) ∧
        p.stack.length ≤ 4 * opened p.stack + 3) := by
  refine ⟨fun out => toPostfix_eq_ok_iff_moves, toPostfix_eq_unbalanced_iff_moves, ?_, ?_⟩
  · rintro us vs out stack rfl h
    exact (readAll_eq_some_iff.1 h).moves
  · intro p h
    have ha := h.ascends
    refine ⟨ha, fun hown => ?_⟩
    have hp := h.parentheses_lt hown
    exact ⟨fun group hg hi => ha.length_le_of_isInner hp hg hi, ha.length_le hp⟩

/-- Three operators wait below an open parenthesis and three above it, and the bound is reached. -/
theorem stack_ascends_full : ∃ ts : List (Token Nat),
    ts = [.operand 1, .ofOperator (.binary .add), .operand 2, .ofOperator (.binary .multiply),
      .ofOperator .negate, .ofOperator .opening, .operand 3, .ofOperator (.binary .subtract),
      .operand 4, .ofOperator (.binary .divide), .ofOperator .negate, .operand 5,
      .ofOperator .closing] ∧
    (∀ t ∈ ts, t.HasOwnRank) ∧
    ∃ p, Moves (.reading [] [] ts) p ∧ Ascends p.stack ∧ opened p.stack = 1 ∧
      p.stack.length = 7 ∧ p.stack.length ≤ 4 * opened p.stack + 3 := by
  refine ⟨_, rfl, by simp [HasOwnRank, ofOperator], ?_⟩
  obtain ⟨-, -, hpass, hkeep⟩ := stack_ascends [(.operand 1 : Token Nat),
    .ofOperator (.binary .add), .operand 2, .ofOperator (.binary .multiply), .ofOperator .negate,
    .ofOperator .opening, .operand 3, .ofOperator (.binary .subtract), .operand 4,
    .ofOperator (.binary .divide), .ofOperator .negate, .operand 5, .ofOperator .closing]
  -- all is read but the last operand and what closes the parenthesis
  have hp := hpass _ [.operand 5, .ofOperator .closing] _ _ (List.take_append_drop 11 _).symm rfl
  obtain ⟨ha, hown⟩ := hkeep _ hp
  exact ⟨_, hp, ha, rfl, rfl, (hown (by simp [HasOwnRank, ofOperator])).2⟩

end Token

end InfixArith
