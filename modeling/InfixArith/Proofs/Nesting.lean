import InfixArith.Evaluate
import InfixArith.Proofs.Format

/-!
# Nested groups out of a flat format

The format knows no groups: it asks of each terminal only whether it fits after the one before.
The parentheses of a text are counted, and no more.  Together the two recognise the nested
language of `Chain`, and the derivation they find is the only one.

*A chain keeps to the format and is balanced* (`Chain.follows`, `Chain.balanced`), by induction
on the chain.

*What keeps to the format and is balanced is a chain* (`exists_chain`).  The induction is on the
length of the list: behind an opening parenthesis a factor is cut off, then the links after it,
and these end at the closing parenthesis that matches, which the count provides.

*Two chains with the same terminals are the same* (`Chain.terminals_injective`).  A factor is
determined by any list that starts with it (`Factor.append_inj`), and so are links, if no binary
operation comes after them.
-/

namespace InfixArith

open Terminal (Fits)

/-- The terminals close `depth` parentheses that were open before them, and all they open. -/
def Closes (depth : Nat) (ts : List Terminal) : Prop :=
  Balanced.Closes depth (Balanced.marks (· == Terminal.opening) (· == Terminal.closing) ts)

namespace Closes

variable {depth : Nat} {ts : List Terminal}

theorem opening_iff : Closes depth (.opening :: ts) ↔ Closes (depth + 1) ts := Iff.rfl

theorem number_iff {s : List Char} : Closes depth (.number s :: ts) ↔ Closes depth ts := Iff.rfl

theorem binary_iff {op : BinaryOp} : Closes depth (.binary op :: ts) ↔ Closes depth ts := Iff.rfl

theorem closing_iff : Closes depth (.closing :: ts) ↔ ∃ d, depth = d + 1 ∧ Closes d ts := by
  cases depth with
  | zero => exact ⟨False.elim, nofun⟩
  | succ d =>
    constructor
    · exact fun h => ⟨d, rfl, h⟩
    · rintro ⟨_, ⟨⟩, h⟩
      exact h

theorem minusSign_append_iff {minus : Bool} :
    Closes depth (minusSign minus ++ ts) ↔ Closes depth ts := by
  cases minus <;> exact Iff.rfl

end Closes

theorem balanced_iff_closes {ts : List Terminal} :
    Balanced (· == Terminal.opening) (· == Terminal.closing) ts ↔ Closes 0 ts :=
  Balanced.balanced_iff_closes (fun t ht => by rw [eq_of_beq ht]; rfl) ts

/-! ### From chains to lists -/

/-- At the start of a group there may be a minus. -/
theorem Follows.minusSign_append {ts : List Terminal} (minus : Bool) (h : Follows .operand ts) :
    Follows .group (minusSign minus ++ ts) := by
  cases minus with
  | true => exact .step .negation h
  | false =>
    cases h with
    | step h hs =>
      refine .step ?_ hs
      cases h with
      | opening => exact .opening (by decide)
      | number _ hn => exact .number (by decide) hn

mutual

/-- A factor in front of what may follow an operand keeps to the format. -/
theorem Factor.follows_append : ∀ (f : Factor) {us : List Terminal}, Follows .continuation us →
    Follows .operand (f.terminals ++ us)
  | .number _ h, _, hu => .step (.number (by decide) h) hu
  | .group minus f l, us, hu => by
    have := Follows.minusSign_append minus (f.follows_append (l.follows_append (.step .closing hu)))
    simpa [Factor.terminals] using Follows.step (.opening (by decide)) this

/-- So do links. -/
theorem Links.follows_append : ∀ (l : Links) {us : List Terminal}, Follows .continuation us →
    Follows .continuation (l.terminals ++ us)
  | .done, _, hu => hu
  | .link op f l, us, hu => by
    have := f.follows_append (l.follows_append hu)
    simpa [Links.terminals] using Follows.step (.binary op) this

end

mutual

/-- A factor closes what it opens. -/
theorem Factor.closes_append : ∀ (f : Factor) {us : List Terminal} {depth : Nat},
    Closes depth (f.terminals ++ us) ↔ Closes depth us
  | .number _ _, _, _ => Iff.rfl
  | .group minus f l, us, depth => by
    have : (Factor.group minus f l).terminals ++ us =
        .opening :: (minusSign minus ++ (f.terminals ++ (l.terminals ++ .closing :: us))) := by
      simp [Factor.terminals]
    rw [this, Closes.opening_iff, Closes.minusSign_append_iff, f.closes_append, l.closes_append,
      Closes.closing_iff]
    simp

theorem Links.closes_append : ∀ (l : Links) {us : List Terminal} {depth : Nat},
    Closes depth (l.terminals ++ us) ↔ Closes depth us
  | .done, _, _ => Iff.rfl
  | .link op f l, us, depth => by
    have : (Links.link op f l).terminals ++ us =
        .binary op :: (f.terminals ++ (l.terminals ++ us)) := by
      simp [Links.terminals]
    rw [this, Closes.binary_iff, f.closes_append, l.closes_append]

end

theorem Chain.follows (c : Chain) : Follows .group c.terminals := by
  have := Follows.minusSign_append c.minus (c.first.follows_append (c.rest.follows_append .done))
  simpa [Chain.terminals] using this

theorem Chain.balanced (c : Chain) :
    Balanced (· == Terminal.opening) (· == Terminal.closing) c.terminals := by
  have : c.terminals = minusSign c.minus ++ (c.first.terminals ++ (c.rest.terminals ++ [])) := by
    simp [Chain.terminals]
  rw [balanced_iff_closes, this, Closes.minusSign_append_iff, Factor.closes_append,
    Links.closes_append]
  exact rfl

/-! ### From lists to chains -/

/-- At the start of a group there is an operand, or a minus and then an operand. -/
theorem Follows.exists_minusSign {ts : List Terminal} (h : Follows .group ts) :
    ∃ minus us, ts = minusSign minus ++ us ∧ Follows .operand us := by
  cases h with
  | step h hs =>
    cases h with
    | negation => exact ⟨true, _, rfl, hs⟩
    | opening => exact ⟨false, _, rfl, .step (.opening (by decide)) hs⟩
    | number _ hn => exact ⟨false, _, rfl, .step (.number (by decide) hn) hs⟩

/-- What may come after links: the end, or the parenthesis that closes the group they are in. -/
inductive Ends : Nat → List Terminal → Prop where
  | done : Ends 0 []
  | closing {depth : Nat} {us : List Terminal} (h : Follows .continuation us)
      (hc : Closes depth us) : Ends (depth + 1) (.closing :: us)

mutual

/-- A factor can be cut off where an operand may come. -/
theorem exists_factor (ts : List Terminal) {depth : Nat} (h : Follows .operand ts)
    (hc : Closes depth ts) : ∃ (f : Factor) (us : List Terminal), ts = f.terminals ++ us ∧
      us.length < ts.length ∧ Follows .continuation us ∧ Closes depth us := by
  match h with
  | .step (.number _ hn) hs => exact ⟨.number _ hn, _, rfl, by simp, hs, Closes.number_iff.1 hc⟩
  | @Follows.step _ _ us (.opening _) hs =>
    -- a group: the factor and the links in it, up to the parenthesis that closes it
    obtain ⟨minus, vs, hus, hv⟩ := hs.exists_minusSign
    have hvs : vs.length ≤ us.length := by simp [hus]
    have hcv := Closes.minusSign_append_iff.1 (hus ▸ Closes.opening_iff.1 hc)
    obtain ⟨f, ws, hvw, hlt, hw, hcw⟩ := exists_factor vs hv hcv
    obtain ⟨l, xs, hwx, hle, hx⟩ := exists_links ws hw hcw
    cases hx with
    | @closing _ ys hy hcy =>
      refine ⟨.group minus f l, ys, ?_, ?_, hy, hcy⟩
      · simp [Factor.terminals, hus, hvw, hwx]
      · simp only [List.length_cons] at hle ⊢
        omega
termination_by ts.length
decreasing_by all_goals simp only [List.length_cons]; omega

/-- Links can be cut off after an operand, up to the end of the group. -/
theorem exists_links (ts : List Terminal) {depth : Nat} (h : Follows .continuation ts)
    (hc : Closes depth ts) : ∃ (l : Links) (us : List Terminal), ts = l.terminals ++ us ∧
      us.length ≤ ts.length ∧ Ends depth us := by
  match h with
  | .done =>
    obtain rfl : depth = 0 := hc
    exact ⟨.done, [], rfl, Nat.le_refl _, .done⟩
  | .step .closing hs =>
    obtain ⟨d, rfl, hcs⟩ := Closes.closing_iff.1 hc
    exact ⟨.done, _, rfl, Nat.le_refl _, .closing hs hcs⟩
  | @Follows.step _ _ us (.binary op) hs =>
    obtain ⟨f, vs, hus, hlt, hv, hcv⟩ := exists_factor us hs (Closes.binary_iff.1 hc)
    obtain ⟨l, ws, hvw, hle, hw⟩ := exists_links vs hv hcv
    refine ⟨.link op f l, ws, ?_, ?_, hw⟩
    · simp [Links.terminals, hus, hvw]
    · simp only [List.length_cons]
      omega
termination_by ts.length
decreasing_by all_goals simp only [List.length_cons]; omega

end

/-- What keeps to the format and is balanced is a chain. -/
theorem exists_chain {ts : List Terminal} (h : Follows .group ts)
    (hb : Balanced (· == Terminal.opening) (· == Terminal.closing) ts) :
    ∃ c : Chain, c.terminals = ts := by
  obtain ⟨minus, us, rfl, hu⟩ := h.exists_minusSign
  have hc := Closes.minusSign_append_iff.1 (balanced_iff_closes.1 hb)
  obtain ⟨f, vs, rfl, -, hv, hcv⟩ := exists_factor us hu hc
  obtain ⟨l, ws, rfl, -, hw⟩ := exists_links vs hv hcv
  cases hw with
  | done => exact ⟨⟨minus, f, l⟩, by simp [Chain.terminals]⟩

/-! ### One derivation -/

/-- A factor starts with a number or a parenthesis, never with a minus. -/
theorem Factor.ne_minusSign_append (f : Factor) {us vs : List Terminal} :
    f.terminals ++ us ≠ minusSign true ++ vs := by
  cases f with
  | number | group => simp [Factor.terminals, minusSign]

theorem minusSign_append_inj {minus minus' : Bool} {f f' : Factor} {us us' : List Terminal}
    (h : minusSign minus ++ (f.terminals ++ us) = minusSign minus' ++ (f'.terminals ++ us')) :
    minus = minus' ∧ f.terminals ++ us = f'.terminals ++ us' := by
  cases minus <;> cases minus'
  · exact ⟨rfl, h⟩
  · exact absurd h f.ne_minusSign_append
  · exact absurd h.symm f'.ne_minusSign_append
  · exact ⟨rfl, (List.cons.inj h).2⟩

mutual

/-- A list starts with one factor at most. -/
theorem Factor.append_inj : ∀ (f g : Factor) {us vs : List Terminal},
    f.terminals ++ us = g.terminals ++ vs → f = g ∧ us = vs
  | .number s hs, .number t ht, us, vs, h => by
    obtain ⟨he, rfl⟩ := List.cons.inj h
    cases he
    exact ⟨rfl, rfl⟩
  | .number s hs, .group minus g k, us, vs, h => by
    cases (List.cons.inj h).1
  | .group minus f l, .number t ht, us, vs, h => by
    cases (List.cons.inj h).1
  | .group minus f l, .group minus' g k, us, vs, h => by
    have hin : minusSign minus ++ (f.terminals ++ (l.terminals ++ .closing :: us)) =
        minusSign minus' ++ (g.terminals ++ (k.terminals ++ .closing :: vs)) := by
      simpa [Factor.terminals] using h
    obtain ⟨rfl, hf⟩ := minusSign_append_inj hin
    obtain ⟨rfl, hl⟩ := f.append_inj g hf
    obtain ⟨rfl, hr⟩ := l.append_inj k (by simp) (by simp) hl
    exact ⟨rfl, (List.cons.inj hr).2⟩

/-- A list starts with one row of links at most, unless it goes on with a binary operation. -/
theorem Links.append_inj : ∀ (l k : Links) {us vs : List Terminal},
    (∀ op, us.head? ≠ some (.binary op)) → (∀ op, vs.head? ≠ some (.binary op)) →
    l.terminals ++ us = k.terminals ++ vs → l = k ∧ us = vs
  | .done, .done, _, _, _, _, h => ⟨rfl, h⟩
  | .done, .link op g k, us, vs, hu, _, h => by
    subst h
    exact absurd rfl (hu op)
  | .link op f l, .done, us, vs, _, hv, h => by
    subst h
    exact absurd rfl (hv op)
  | .link op f l, .link op' g k, us, vs, hu, hv, h => by
    have hin : Terminal.binary op :: (f.terminals ++ (l.terminals ++ us)) =
        .binary op' :: (g.terminals ++ (k.terminals ++ vs)) := by
      simpa [Links.terminals] using h
    obtain ⟨he, hf⟩ := List.cons.inj hin
    cases he
    obtain ⟨rfl, hl⟩ := f.append_inj g hf
    obtain ⟨rfl, hr⟩ := l.append_inj k hu hv hl
    exact ⟨rfl, hr⟩

end

/-- Chains with the same terminals are the same. -/
theorem Chain.terminals_injective {c d : Chain} (h : c.terminals = d.terminals) : c = d := by
  obtain ⟨minus, f, l⟩ := c
  obtain ⟨minus', g, k⟩ := d
  have hin : minusSign minus ++ (f.terminals ++ (l.terminals ++ [])) =
      minusSign minus' ++ (g.terminals ++ (k.terminals ++ [])) := by
    simpa [Chain.terminals] using h
  obtain ⟨rfl, hf⟩ := minusSign_append_inj hin
  obtain ⟨rfl, hl⟩ := f.append_inj g hf
  obtain ⟨rfl, -⟩ := l.append_inj k (by simp) (by simp) hl
  rfl

/-! ### The accepted language -/

/-- A text spells a chain: its terminals, with blanks between them at will. -/
def Chain.Spells (c : Chain) (s : List Char) : Prop :=
  Spaced (c.terminals.map Terminal.text) s

theorem validate_eq_ok_iff {text : String} :
    validate text = .ok () ↔ ∃ ts, format text = .ok ts := by
  unfold validate
  cases format text with
  | ok ts => exact ⟨fun _ => ⟨ts, rfl⟩, fun _ => rfl⟩
  | error e => exact ⟨nofun, nofun⟩

/-- **The accepted language.**  A text keeps to the format and its parentheses match exactly when
it spells a chain, and it spells one chain at most. -/
theorem valid_and_balanced_iff_chain (text : String) :
    (validate text = .ok () ∧ Balanced.Text text.toList ↔
      ∃ c : Chain, c.Spells text.toList) ∧
    ∀ c d : Chain, c.Spells text.toList → d.Spells text.toList → c = d := by
  refine ⟨⟨?_, ?_⟩, fun c d hc hd => ?_⟩
  · rintro ⟨hv, hb⟩
    obtain ⟨ts, hts⟩ := validate_eq_ok_iff.1 hv
    obtain ⟨hf, hs⟩ := format_eq_ok_iff.1 hts
    obtain ⟨c, rfl⟩ := exists_chain hf ((hf.balanced_text_iff hs).1 hb)
    exact ⟨c, hs⟩
  · rintro ⟨c, hs⟩
    exact ⟨validate_eq_ok_iff.2 ⟨_, format_eq_ok_iff.2 ⟨c.follows, hs⟩⟩,
      (c.follows.balanced_text_iff hs).2 c.balanced⟩
  · exact Chain.terminals_injective (c.follows.unique d.follows hc hd)

end InfixArith
