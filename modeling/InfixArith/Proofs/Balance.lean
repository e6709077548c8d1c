import InfixArith.Expression.Balance

/-!
# Balance, read from the left

Whether a list is balanced depends on its parentheses alone, that is on its *marks*: `true` for an
opening one and `false` for a closing one.  Marks are balanced when, read from the left, no closing
one comes while none is open and none is left open at the end (`Closes`).

`balanced_iff_closes`: the two ways to say it agree, if nothing both opens and closes.  So a list is
balanced when a text with the same marks is (`balanced_iff_text`).
-/

namespace InfixArith.Balanced

variable {α β : Type}

/-- The parentheses of a list: what opens, and what closes. -/
def marks (opens closes : α → Bool) (l : List α) : List Bool :=
  l.flatMap fun a => if opens a then [true] else if closes a then [false] else []

/-- The marks close `depth` parentheses that were open before them, and all they open. -/
def Closes : (depth : Nat) → List Bool → Prop
  | depth, [] => depth = 0
  | depth, true :: l => Closes (depth + 1) l
  | 0, false :: _ => False
  | depth + 1, false :: l => Closes depth l

theorem marks_append (opens closes : α → Bool) (l m : List α) :
    marks opens closes (l ++ m) = marks opens closes l ++ marks opens closes m :=
  List.flatMap_append

theorem marks_nil_of_forall {opens closes : α → Bool} {l : List α}
    (h : ∀ a ∈ l, opens a = false ∧ closes a = false) : marks opens closes l = [] := by
  refine List.flatMap_eq_nil_iff.2 fun a ha => ?_
  simp [h a ha]

section

variable {opens closes : α → Bool} {a : α}

theorem marks_cons_opening (ho : opens a = true) (l : List α) :
    marks opens closes (a :: l) = true :: marks opens closes l := by
  simp [marks, ho]

theorem marks_cons_closing (ho : opens a = false) (hc : closes a = true) (l : List α) :
    marks opens closes (a :: l) = false :: marks opens closes l := by
  simp [marks, ho, hc]

theorem marks_cons_other (ho : opens a = false) (hc : closes a = false) (l : List α) :
    marks opens closes (a :: l) = marks opens closes l := by
  simp [marks, ho, hc]

end

/-- There is a mark for each parenthesis. -/
theorem length_marks (opens closes : α → Bool) (l : List α) :
    (marks opens closes l).length = l.countP fun a => opens a || closes a := by
  induction l with
  | nil => rfl
  | cons a l ih =>
    cases ho : opens a with
    | true => simp [marks_cons_opening ho, ho, ih]
    | false =>
      cases hc : closes a with
      | true => simp [marks_cons_closing ho hc, ho, hc, ih]
      | false => simp [marks_cons_other ho hc, ho, hc, ih]

/-- The part at the start of a list is empty, or it holds the first element and a part at the
start of the rest. -/
theorem forall_prefix_cons_iff {P : List α → Prop} {a : α} {l : List α} :
    (∀ p, p <+: a :: l → P p) ↔ P [] ∧ ∀ p, p <+: l → P (a :: p) := by
  constructor
  · intro h
    exact ⟨h [] List.nil_prefix, fun p hp => h _ (List.cons_prefix_cons.2 ⟨rfl, hp⟩)⟩
  · rintro ⟨h₀, h⟩ p hp
    rcases List.prefix_cons_iff.1 hp with rfl | ⟨q, rfl, hq⟩
    · exact h₀
    · exact h q hq

/-- `depth` parentheses are open before the list; no part at the start closes more than are open,
and in the end none is. -/
theorem closes_iff {opens closes : α → Bool} (hd : ∀ a, opens a = true → closes a = false)
    (l : List α) (depth : Nat) : Closes depth (marks opens closes l) ↔
      (∀ p, p <+: l → p.countP closes ≤ p.countP opens + depth) ∧
        l.countP closes = l.countP opens + depth := by
  -- each element moves its count from the list into the depth
  induction l generalizing depth with
  | nil =>
    show depth = 0 ↔ _
    constructor
    · rintro rfl
      exact ⟨fun p hp => by simp [List.prefix_nil.1 hp], rfl⟩
    · rintro ⟨-, h⟩
      simpa using h.symm
  | cons a l ih =>
    rw [forall_prefix_cons_iff]
    by_cases ho : opens a = true
    · have hc := hd a ho
      rw [marks_cons_opening ho, Closes, ih (depth + 1)]
      simp only [List.countP_cons, ho, hc, List.countP_nil, if_true, Bool.false_eq_true, if_false]
      grind
    have ho : opens a = false := Bool.eq_false_iff.2 ho
    by_cases hc : closes a = true
    · rw [marks_cons_closing ho hc]
      simp only [List.countP_cons, ho, hc, List.countP_nil, if_true, Bool.false_eq_true, if_false]
      cases depth with
      | zero =>
        refine ⟨False.elim, fun h => ?_⟩
        have := h.1.2 [] List.nil_prefix
        simp at this
      | succ depth =>
        rw [Closes, ih depth]
        grind
    · have hc : closes a = false := Bool.eq_false_iff.2 hc
      rw [marks_cons_other ho hc, ih depth]
      simp only [List.countP_cons, ho, hc, List.countP_nil, Bool.false_eq_true, if_false]
      grind

/-- **Balance, read from the left.** -/
theorem balanced_iff_closes {opens closes : α → Bool}
    (hd : ∀ a, opens a = true → closes a = false) (l : List α) :
    Balanced opens closes l ↔ Closes 0 (marks opens closes l) := by
  rw [closes_iff hd]
  exact ⟨fun h => ⟨h.sound, h.settled⟩, fun h => ⟨h.1, h.2⟩⟩

/-- A list with the parentheses of a text is balanced when the text is. -/
theorem balanced_iff_text {opens closes : α → Bool} (hd : ∀ a, opens a = true → closes a = false)
    {l : List α} {s : List Char} (h : marks opens closes l = marks (· == '(') (· == ')') s) :
    Balanced opens closes l ↔ Text s := by
  have htext : ∀ c : Char, (c == '(') = true → (c == ')') = false := fun c hc => by
    rw [eq_of_beq hc]
    rfl
  rw [Text, balanced_iff_closes hd, balanced_iff_closes htext, h]

end InfixArith.Balanced
