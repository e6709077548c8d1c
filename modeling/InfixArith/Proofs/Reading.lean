import InfixArith.Proofs.Reorder
import Mathlib.Data.List.TakeWhile

/-!
# What reading a token does

Reading a token takes one of four forms (`Step`), and reading tokens is a run of them (`Run`).
What the stack and the tokens released keep, whatever the tokens and their ranks, is proved for
the four forms and holds of runs by induction.
-/

namespace InfixArith.Token

variable {α : Type}

/-- Reading the token turns the first stack into the second one and releases the tokens between
them. -/
inductive Step : List Waiting → Token α → List (Token α) → List Waiting → Prop where
  | operand (v : α) (stack : List Waiting) : Step stack (.operand v) [.operand v] stack
  | opening (rank : Rank) (stack : List Waiting) :
      Step stack (.operator .opening rank) [] (⟨.opening, rank⟩ :: stack)
  /-- All down to the next opening parenthesis is released, and the parenthesis dropped. -/
  | closing {released : List Waiting} (h : ∀ w ∈ released, w.isInner = true) (rank rank' : Rank)
      (below : List Waiting) : Step (released ++ ⟨.opening, rank'⟩ :: below)
        (.operator .closing rank) (released.map Waiting.token) below
  /-- All down to the next looser operator is released. -/
  | operator {op : Operator} {rank : Rank} {released below : List Waiting} (ho : op ≠ .opening)
      (hc : op ≠ .closing) (hr : ∀ w ∈ released, rank ≤ w.rank)
      (hb : ∀ w ∈ below.head?, w.rank < rank) : Step (released ++ below) (.operator op rank)
        (released.map Waiting.token) (⟨op, rank⟩ :: below)

/-- Steps one after the other, for tokens in order. -/
inductive Run : List Waiting → List (Token α) → List (Token α) → List Waiting → Prop where
  | nil (stack : List Waiting) : Run stack [] [] stack
  | cons {stack stack' stack'' : List Waiting} {t : Token α} {ts out out' : List (Token α)}
      (h : Step stack t out stack') (hs : Run stack' ts out' stack'') :
      Run stack (t :: ts) (out ++ out') stack''

variable {stack stack' : List Waiting} {t : Token α} {ts out : List (Token α)}

theorem step_of_read_closing {rank : Rank}
    (h : read stack (.operator .closing rank) = some (out, stack')) :
    Step stack (.operator .closing rank) out stack' := by
  cases hd : stack.dropWhile Waiting.isInner with
  | nil => simp [read, hd] at h
  | cons w below =>
    obtain ⟨op, rank'⟩ := w
    have hinner : (⟨op, rank'⟩ : Waiting).isInner = false := by
      have := List.head_dropWhile_not Waiting.isInner (l := stack) (by simp [hd])
      simpa only [hd, List.head_cons] using this
    obtain rfl : op = .opening := by simpa [Waiting.isInner] using hinner
    simp only [read, hd, Option.some.injEq, Prod.mk.injEq] at h
    obtain ⟨rfl, rfl⟩ := h
    have := Step.closing (α := α) (fun w => List.mem_takeWhile_imp (l := stack)) rank rank' below
    rwa [← hd, List.takeWhile_append_dropWhile] at this

theorem step_of_read_operator {op : Operator} {rank : Rank} (ho : op ≠ .opening)
    (hc : op ≠ .closing) (h : read stack (.operator op rank) = some (out, stack')) :
    Step stack (.operator op rank) out stack' := by
  rw [read_operator ho hc] at h
  cases h
  have hr : ∀ w ∈ stack.takeWhile (Waiting.yields rank), rank ≤ w.rank := fun w hw =>
    Waiting.yields_iff.1 (List.mem_takeWhile_imp hw)
  have hb : ∀ w ∈ (stack.dropWhile (Waiting.yields rank)).head?, w.rank < rank := by
    intro w hw
    have := List.head?_dropWhile_not (Waiting.yields rank) stack
    rw [hw] at this
    exact Rank.not_le.1 fun hle => by simp [Waiting.yields_iff.2 hle] at this
  have := Step.operator (α := α) ho hc hr hb
  rwa [List.takeWhile_append_dropWhile] at this

/-- **A token is read in one of the four forms.** -/
theorem read_eq_some_iff : read stack t = some (out, stack') ↔ Step stack t out stack' := by
  constructor
  · intro h
    cases t with
    | operand v =>
      cases h
      exact .operand v stack
    | operator op rank =>
      by_cases ho : op = .opening
      · subst ho
        cases h
        exact .opening rank stack
      by_cases hc : op = .closing
      · subst hc
        exact step_of_read_closing h
      · exact step_of_read_operator ho hc h
  · intro h
    cases h with
    | operand | opening => rfl
    | closing h rank rank' below => exact read_closing h
    | operator ho hc hr hb =>
      rw [read_operator ho hc, Waiting.takeWhile_yields hr hb, Waiting.dropWhile_yields hr hb]

/-- What waits after a step waited before, or it was read. -/
theorem Step.mem (h : Step stack t out stack') : ∀ w ∈ stack', w ∈ stack ∨ t = w.token := by
  intro w hw
  cases h with
  | operand => exact .inl hw
  | opening rank =>
    rcases List.mem_cons.1 hw with rfl | hw
    · exact .inr rfl
    · exact .inl hw
  | closing h rank rank' => exact .inl (List.mem_append_right _ (List.mem_cons_of_mem _ hw))
  | operator ho hc hr hb =>
    rcases List.mem_cons.1 hw with rfl | hw
    · exact .inr rfl
    · exact .inl (List.mem_append_right _ hw)

/-- A token that cannot be read is a closing parenthesis while none is open. -/
theorem read_eq_none_iff : read stack t = none ↔
    t.isClosing = true ∧ ∀ w ∈ stack, w.isInner = true := by
  cases t with
  | operand v => exact ⟨nofun, nofun⟩
  | operator op rank =>
    cases op with
    | opening | negate | binary => exact ⟨nofun, nofun⟩
    | closing =>
      have hnil : stack.dropWhile Waiting.isInner = [] ↔ ∀ w ∈ stack, w.isInner = true :=
        List.dropWhile_eq_nil_iff
      rw [← hnil]
      cases hd : stack.dropWhile Waiting.isInner with
      | nil => simp [read, hd, isClosing]
      | cons w below => simp [read, hd]

theorem readAll_eq_some_iff : readAll stack ts = some (out, stack') ↔ Run stack ts out stack' := by
  constructor
  · intro h
    induction ts generalizing stack out with
    | nil =>
      cases h
      exact .nil _
    | cons t ts ih =>
      rw [readAll_cons] at h
      obtain ⟨⟨out, next⟩, ht, h⟩ := Option.bind_eq_some_iff.1 h
      obtain ⟨⟨out', last⟩, hts, h⟩ := Option.map_eq_some_iff.1 h
      cases h
      exact .cons (read_eq_some_iff.1 ht) (ih hts)
  · intro h
    induction h with
    | nil => rfl
    | cons h _ ih =>
      rw [readAll_cons, read_eq_some_iff.2 h, Option.bind_some, ih]
      rfl

/-- A run over one part after the other. -/
theorem run_append_iff {us : List (Token α)} : Run stack (ts ++ us) out stack' ↔
    ∃ out₁ next out₂, Run stack ts out₁ next ∧ Run next us out₂ stack' ∧ out₁ ++ out₂ = out := by
  simp [← readAll_eq_some_iff, readAll_append, Option.bind_eq_some_iff, Option.map_eq_some_iff]

/-- Tokens come into postfix order by a run that leaves no parenthesis open. -/
theorem toPostfix_eq_ok_iff_run : toPostfix ts = .ok out ↔ ∃ released stack,
    Run [] ts released stack ∧ (∀ w ∈ stack, w.isInner = true) ∧
      released ++ stack.map Waiting.token = out := by
  simp only [toPostfix_eq_ok_iff, Prod.exists, readAll_eq_some_iff, List.all_eq_true]

end InfixArith.Token
