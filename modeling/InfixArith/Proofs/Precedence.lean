import InfixArith.Proofs.Literals
import InfixArith.Proofs.Nesting

/-!
# A tree for every chain

A chain says nothing of precedence: its factors stand in a row, whatever operations are between
them.  The grammar of sums and products refines it, and refuses none of its lists
(`Chain.exists_derives`).  The links of a chain are taken from the left.  What came before them is
a product that may still grow, and a sum that waits for it (`Completes`): a multiplicative link
makes the product longer, an additive one hands it to the sum and starts another.

With all literals readable, the tree can be read (`Derives.exists_read`).
-/

namespace InfixArith

/-! ### Links from the left -/

/-- A product after `pre` makes a sum with it. -/
def Completes (sum product : Bool) (pre : List Terminal) : Prop :=
  ∀ {ts : List Terminal} {t : Tree (List Char)}, Derives (.product product) ts t →
    ∃ u, Derives (.sum sum) (pre ++ ts) u

theorem Completes.nil (b : Bool) : Completes b b [] :=
  fun h => ⟨_, .product h⟩

/-- A product that is handed to the sum leaves it waiting for another one. -/
theorem Completes.add {b b' : Bool} {pre ts : List Terminal} {t : Tree (List Char)}
    (h : Completes b b' pre) (ht : Derives (.product b') ts t) {op : BinaryOp}
    (hop : op = .add ∨ op = .subtract) : Completes b false (pre ++ ts ++ [.binary op]) := by
  intro us u hu
  obtain ⟨l, hl⟩ := h ht
  refine ⟨.binary op l u, ?_⟩
  have := Derives.add hop hl hu
  rwa [List.append_assoc, List.singleton_append]

/-- The start of a group is a product. -/
theorem Derives.minusSign_append {ts : List Terminal} {t : Tree (List Char)}
    (h : Derives .factor ts t) : ∀ minus : Bool,
      ∃ u, Derives (.product true) (minusSign minus ++ ts) u
  | true => ⟨.negate t, .minus h⟩
  | false => ⟨t, .factor true h⟩

mutual

/-- Every factor has a tree. -/
theorem Factor.exists_derives : ∀ f : Factor, ∃ t, Derives .factor f.terminals t
  | .number s h => ⟨.value s, .number h⟩
  | .group minus f l => by
    obtain ⟨t, ht⟩ := f.exists_derives
    obtain ⟨u, hu⟩ := ht.minusSign_append minus
    obtain ⟨v, hv⟩ := l.exists_derives (Completes.nil true) hu
    exact ⟨v, .group hv⟩

/-- Links after a product that completes a sum complete it too. -/
theorem Links.exists_derives : ∀ (l : Links) {b b' : Bool} {pre ts : List Terminal}
    {t : Tree (List Char)}, Completes b b' pre → Derives (.product b') ts t →
      ∃ u, Derives (.sum b) (pre ++ ts ++ l.terminals) u
  | .done, b, b', pre, ts, t, hp, ht => by
    rw [Links.terminals, List.append_nil]
    exact hp ht
  | .link op f l, b, b', pre, ts, t, hp, ht => by
    obtain ⟨v, hv⟩ := f.exists_derives
    -- the product grows, or it is complete
    have hlevel : (op = .multiply ∨ op = .divide) ∨ op = .add ∨ op = .subtract := by
      cases op <;> simp
    rcases hlevel with hop | hop
    · obtain ⟨u, hu⟩ := l.exists_derives hp (.multiply hop ht hv)
      exact ⟨u, by simpa [Links.terminals] using hu⟩
    · obtain ⟨u, hu⟩ := l.exists_derives (hp.add ht hop) (.factor false hv)
      exact ⟨u, by simpa [Links.terminals] using hu⟩

end

/-- Every chain has a tree. -/
theorem Chain.exists_derives (c : Chain) : ∃ t, Derives (.sum true) c.terminals t := by
  obtain ⟨t, ht⟩ := c.first.exists_derives
  obtain ⟨u, hu⟩ := ht.minusSign_append c.minus
  obtain ⟨v, hv⟩ := c.rest.exists_derives (Completes.nil true) hu
  exact ⟨v, hv⟩

/-! ### Readable trees -/

variable {α : Type} [Numeric α]

/-- A tree whose literals are all readable can be read. -/
theorem Derives.exists_read {p : Part} {ts : List Terminal} {t : Tree (List Char)}
    (h : Derives p ts t) (hl : ∀ l ∈ Terminal.literals ts, Readable α l) :
    ∃ u : Tree α, t.read = .ok u := by
  -- an operation has the literals of both its operands
  have operands : ∀ {op : BinaryOp} {ts us : List Terminal},
      (∀ l ∈ Terminal.literals (ts ++ .binary op :: us), Readable α l) →
      (∀ l ∈ Terminal.literals ts, Readable α l) ∧ ∀ l ∈ Terminal.literals us, Readable α l := by
    intro op ts us hl
    rw [Terminal.literals_append, Terminal.literals_cons_binary] at hl
    exact ⟨fun l h => hl l (List.mem_append_left _ h), fun l h => hl l (List.mem_append_right _ h)⟩
  induction h with
  | @number s hs =>
    obtain ⟨v, hv⟩ := hl (String.ofList s) (by simp [Terminal.literals])
    exact ⟨.value v, by rw [Tree.read, hv]; rfl⟩
  | @group ts t _ ih =>
    refine ih fun l h => hl l ?_
    rw [Terminal.literals_append]
    exact List.mem_append_left _ h
  | factor _ _ ih => exact ih hl
  | product _ ih => exact ih hl
  | minus _ ih =>
    obtain ⟨u, hu⟩ := ih hl
    exact ⟨.negate u, by rw [Tree.read, hu]; rfl⟩
  | multiply _ _ _ ihl ihr | add _ _ _ ihl ihr =>
    obtain ⟨hts, hus⟩ := operands hl
    obtain ⟨a, ha⟩ := ihl hts
    obtain ⟨b, hb⟩ := ihr hus
    exact ⟨.binary _ a b, by rw [Tree.read, ha, hb]; rfl⟩

end InfixArith
