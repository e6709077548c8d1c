import InfixArith.Proofs.Literals
import InfixArith.Proofs.Reorder
import InfixArith.Proofs.Tokens
import InfixArith.Proofs.Value

/-!
# What an expression means

An expression is a sum of products of factors, and its tree says what it means.  The calculation
never builds the tree: it checks the text against the format, cuts it into lexemes, tells one
minus from the other, and goes through a stack of operators and a stack of values.  It has the
value of the tree all the same, or the fault the tree meets first (`evaluate_eq_eval`).

* `Derives.follows_append`: what the grammar derives keeps to the format.
* `Derives.exists_tokens`: with its literals read, it is a derivation in tokens, of the tree with
  its literals read.
* The derivation in tokens is brought into the postfix order of its tree (`Reorder.lean`), and
  that has the value of the tree (`Value.lean`).
-/

namespace InfixArith

/-! ### The grammar and the format -/

/-- What the format expects where a part starts. -/
def Part.start : Part → Expecting
  | .product true | .sum true => .group
  | .factor | .product false | .sum false => .operand

/-- A part in front of what may follow an operand keeps to the format. -/
theorem Derives.follows_append {p : Part} {ts : List Terminal} {t : Tree (List Char)}
    (h : Derives p ts t) : ∀ {us : List Terminal}, Follows .continuation us →
      Follows p.start (ts ++ us) := by
  induction h with
  | number hs => exact fun hu => .step (.number (by decide) hs) hu
  | group _ ih =>
    intro us hu
    have := Follows.step (q := .operand) (.opening (by decide)) (ih (.step .closing hu))
    simpa [Part.start] using this
  | factor b _ ih =>
    intro us hu
    cases b with
    | false => exact ih hu
    | true => exact Follows.minusSign_append false (ih hu)
  | minus _ ih => exact fun hu => .step .negation (ih hu)
  | @multiply b ts us l r op _ _ _ ihl ihr =>
    intro vs hv
    rw [List.append_assoc, List.cons_append]
    exact ihl (.step (.binary op) (ihr hv))
  | @product b _ _ _ ih => cases b <;> exact ih
  | @add b ts us l r op _ _ _ ihl ihr =>
    intro vs hv
    rw [List.append_assoc, List.cons_append]
    have := ihl (.step (.binary op) (ihr hv))
    cases b <;> exact this

theorem Derives.follows {ts : List Terminal} {t : Tree (List Char)} (h : Derives (.sum true) ts t) :
    Follows .group ts := by
  have := h.follows_append .done
  rwa [List.append_nil] at this

/-- An expression keeps to the format. -/
theorem Spells.exists_format {text : String} {t : Tree (List Char)} (h : Spells text.toList t) :
    ∃ ts, format text = .ok ts ∧ Derives (.sum true) ts t := by
  obtain ⟨ts, hd, hs⟩ := h
  exact ⟨ts, format_eq_ok_iff.2 ⟨hd.follows, hs⟩, hd⟩

/-! ### Reading the literals -/

/-- A part of an expression, in tokens. -/
def Part.inTokens : Part → TokenPart
  | .factor => .primary
  | .product _ => .product
  | .sum _ => .sum

variable {α : Type} [Numeric α]

/-- An operation is read by reading its operands, the left one first. -/
theorem Tree.exists_of_read_binary {op : BinaryOp} {l r : Tree (List Char)} {u : Tree α}
    (h : (Tree.binary op l r).read = .ok u) :
    ∃ a b, l.read = .ok a ∧ r.read = .ok b ∧ u = .binary op a b := by
  obtain ⟨a, ha, h⟩ := Outcome.bind_eq_ok_iff.1 h
  obtain ⟨b, hb, h⟩ := Outcome.bind_eq_ok_iff.1 h
  cases h
  exact ⟨a, b, ha, hb, rfl⟩

/-- A derivation becomes a derivation in tokens when its literals are read. -/
theorem Derives.exists_tokens {p : Part} {ts : List Terminal} {t : Tree (List Char)}
    (h : Derives p ts t) : ∀ {u : Tree α}, t.read = .ok u →
      ∃ ks, ts.mapM Terminal.token = .ok ks ∧ DerivesTokens p.inTokens ks u := by
  induction h with
  | @number s hs =>
    intro u hu
    obtain ⟨v, hv, rfl⟩ := Outcome.map_eq_ok_iff.1 hu
    refine ⟨[.operand v], Terminal.mapM_token_cons ?_ rfl, .operand v⟩
    exact Outcome.map_eq_ok_iff.2 ⟨v, hv, rfl⟩
  | group _ ih =>
    intro u hu
    obtain ⟨ks, hks, hd⟩ := ih hu
    exact ⟨_, Terminal.mapM_token_append (Terminal.mapM_token_cons rfl hks) rfl, .group hd⟩
  | factor _ _ ih =>
    intro u hu
    obtain ⟨ks, hks, hd⟩ := ih hu
    exact ⟨ks, hks, .unary (.primary hd)⟩
  | minus _ ih =>
    intro u hu
    obtain ⟨v, hv, rfl⟩ := Outcome.map_eq_ok_iff.1 hu
    obtain ⟨ks, hks, hd⟩ := ih hv
    exact ⟨_, Terminal.mapM_token_cons rfl hks, .unary (.negate hd)⟩
  | multiply hop _ _ ihl ihr =>
    intro u hu
    obtain ⟨a, b, ha, hb, rfl⟩ := Tree.exists_of_read_binary hu
    obtain ⟨ks, hks, hl⟩ := ihl ha
    obtain ⟨ms, hms, hr⟩ := ihr hb
    exact ⟨_, Terminal.mapM_token_append hks (Terminal.mapM_token_cons rfl hms),
      .multiply hop hl (.primary hr)⟩
  | product _ ih =>
    intro u hu
    obtain ⟨ks, hks, hd⟩ := ih hu
    exact ⟨ks, hks, .product hd⟩
  | add hop _ _ ihl ihr =>
    intro u hu
    obtain ⟨a, b, ha, hb, rfl⟩ := Tree.exists_of_read_binary hu
    obtain ⟨ks, hks, hl⟩ := ihl ha
    obtain ⟨ms, hms, hr⟩ := ihr hb
    exact ⟨_, Terminal.mapM_token_append hks (Terminal.mapM_token_cons rfl hms), .add hop hl hr⟩

/-! ### The meaning -/

/-- An expression is brought into the postfix order of its tree. -/
theorem postfixOf_of_derives {text : String} {ts : List Terminal} {t : Tree (List Char)}
    {u : Tree α} (hf : format text = .ok ts) (hd : Derives (.sum true) ts t)
    (hu : t.read = .ok u) : postfixOf text = .ok u.postorder := by
  obtain ⟨ks, hks, hk⟩ := hd.exists_tokens hu
  rw [postfixOf_of_format hf, hks]
  exact toPostfix_of_derivesTokens hk

/-- It has the value of its tree. -/
theorem evaluate_of_derives {text : String} {ts : List Terminal} {t : Tree (List Char)}
    {u : Tree α} (hf : format text = .ok ts) (hd : Derives (.sum true) ts t)
    (hu : t.read = .ok u) : evaluate text = u.eval.mapError Error.arithmetic := by
  rw [evaluate_eq, postfixOf_of_derives hf hd hu]
  exact evaluatePostfix_postorder u

/-- **What an expression means.**  A text that spells an expression, with literals that can be
read, has the value of the expression's tree, or the fault that the tree meets first. -/
theorem evaluate_eq_eval {text : String} {t : Tree (List Char)} {u : Tree α}
    (h : Spells text.toList t) (hu : t.read = .ok u) :
    evaluate text = u.eval.mapError Error.arithmetic := by
  obtain ⟨ts, hf, hd⟩ := h.exists_format
  exact evaluate_of_derives hf hd hu

/-- The sum overflows before the quotient on its right divides by zero. -/
theorem evaluate_first_fault :
    (∃ t, Spells "-1+(2147483647+1)-1/0".toList t ∧ ∃ u : Tree (Signed 32), t.read = .ok u) ∧
    evaluate (α := Signed 32) "-1+(2147483647+1)-1/0" = .error (.arithmetic .overflow) := by
  have digits : ∀ {s : List Char}, s ≠ [] ∧ s.all Char.isDigit = true → IsNumeral s := fun h =>
    .whole ⟨h.1, List.all_eq_true.1 h.2⟩
  have one : Derives .factor [.number ['1']] (.value ['1']) := .number (digits (by decide))
  have most : Derives .factor [.number "2147483647".toList] (.value "2147483647".toList) :=
    .number (digits (by decide))
  have zero : Derives .factor [.number ['0']] (.value ['0']) := .number (digits (by decide))
  have sum : Derives (.sum true) _ (.binary .add _ _) :=
    .add (.inl rfl) (.product (.factor true most)) (.factor false one)
  have left : Derives (.sum true) _ (.binary .add _ _) :=
    .add (.inl rfl) (.product (.minus one)) (.factor false (.group sum))
  have right : Derives (.product false) _ (.binary .divide _ _) :=
    .multiply (.inr rfl) (.factor false one) zero
  have whole : Derives (.sum true) _ (.binary .subtract _ _) := .add (.inr rfl) left right
  have hs : Spells "-1+(2147483647+1)-1/0".toList _ := ⟨_, whole, Spaced.flatten _⟩
  have hu : Tree.read (.binary .subtract (.binary .add (.negate (.value ['1']))
        (.binary .add (.value "2147483647".toList) (.value ['1'])))
        (.binary .divide (.value ['1']) (.value ['0']))) =
      .ok (.binary .subtract (.binary .add (.negate (.value ⟨1, by decide, by decide⟩))
        (.binary .add (.value (⟨2147483647, by decide, by decide⟩ : Signed 32))
          (.value ⟨1, by decide, by decide⟩)))
        (.binary .divide (.value ⟨1, by decide, by decide⟩) (.value (Signed.zero 32)))) := rfl
  exact ⟨⟨_, hs, _, hu⟩, evaluate_eq_eval hs hu⟩

end InfixArith
