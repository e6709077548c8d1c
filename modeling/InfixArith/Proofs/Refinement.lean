import InfixArith.Proofs.Classification
import InfixArith.Proofs.FixedWidth

/-!
# A fixed width refines any size

A calculation in a fixed width has a value exactly when the exact calculation has it and never
leaves the width (`StaysWithin`).  Where it has none, the literals or the operations are too large
for the width, or the exact calculation fails as well (`RefinesExact`).  In particular the widths
agree as far as the smaller one goes.

Both calculations read the same tree.  A fixed width reads it if and only if it reads the
literals, and then its tree has the integers of the exact one (`Derives.read_exact`).  All literals
are met in the exact calculation if it comes to its end, so it is enough that what is met fits
(`Derives.exists_read_of_fits`).  The operations go in step (`Tree.eval_map_val`).
-/

namespace InfixArith

/-! ### Literals -/

/-- A numeral is an integer, and is read in the width or too large for it; or it is no integer. -/
theorem IsNumeral.parse_cases (bits : Nat) [Numeric (Signed bits)] [HasWidth bits]
    {s : List Char} (h : IsNumeral s) :
    (∃ n : Int, Numeric.parse (String.ofList s) = .ok n ∧
      ((∃ a : Signed bits, a.val = n ∧ Numeric.parse (String.ofList s) = .ok a) ∨
        (¬ Signed.Fits bits n ∧ Numeric.parse (α := Signed bits) (String.ofList s) =
          .error ⟨String.ofList s, Numeric.kind (Signed bits), .tooLarge⟩))) ∨
    (¬ Readable Int (String.ofList s) ∧ ¬ Readable (Signed bits) (String.ofList s)) := by
  simp only [Readable, parse_eq_mapError_read (α := Int) (fun _ => rfl),
    parse_eq_mapError_read (α := Signed bits) HasWidth.isFinite_eq, String.toList_ofList,
    HasWidth.read_eq]
  rcases h.read_cases bits with ⟨n, hexact, hfixed⟩ | ⟨e, e', hexact, hfixed⟩
  · rw [show (Numeric.read s : Except Reason Int) = .ok n from hexact, hfixed]
    refine .inl ⟨n, rfl, ?_⟩
    by_cases hn : Signed.Fits bits n
    · have ha : Signed.fitted bits n = .ok ⟨n, hn.1, hn.2⟩ := Signed.fitted_eq_ok_iff.2 rfl
      exact .inl ⟨_, rfl, by rw [ha]; rfl⟩
    · exact .inr ⟨hn, by rw [Signed.fitted_of_not_fits hn]; rfl⟩
  · rw [show (Numeric.read s : Except Reason Int) = .error e from hexact, hfixed]
    exact .inr ⟨nofun, nofun⟩

/-- The literals of a text that keeps to the format are numerals. -/
theorem Follows.exists_numeral {q : Expecting} {ts : List Terminal} (h : Follows q ts) :
    ∀ l ∈ Terminal.literals ts, ∃ s, IsNumeral s ∧ l = String.ofList s := by
  induction h with
  | done => exact nofun
  | step h _ ih =>
    cases h with
    | number _ hs => exact List.forall_mem_cons.2 ⟨⟨_, hs, rfl⟩, ih⟩
    | negation | opening | closing | binary => exact ih

/-! ### Trees with their literals read -/

section

variable {bits : Nat} [Numeric (Signed bits)] [HasWidth bits]

/-- What is read in a fixed width is read in any size, as the same integers. -/
theorem Derives.read_exact {p : Part} {ts : List Terminal} {t : Tree (List Char)}
    (h : Derives p ts t) : ∀ {u : Tree (Signed bits)}, t.read = .ok u →
      t.read = .ok (u.map Signed.val) := by
  induction h with
  | @number s hs =>
    intro u hu
    obtain ⟨a, ha, rfl⟩ := Outcome.map_eq_ok_iff.1 hu
    rcases hs.parse_cases bits with ⟨n, hn, ⟨b, rfl, hb⟩ | ⟨-, hb⟩⟩ | ⟨-, hb⟩
    · cases hb.symm.trans ha
      exact Outcome.map_eq_ok_iff.2 ⟨_, hn, rfl⟩
    · cases hb.symm.trans ha
    · exact absurd ⟨a, ha⟩ hb
  | group _ ih | factor _ _ ih | product _ ih => exact ih
  | minus _ ih =>
    intro u hu
    obtain ⟨v, hv, rfl⟩ := Outcome.map_eq_ok_iff.1 hu
    exact Outcome.map_eq_ok_iff.2 ⟨_, ih hv, rfl⟩
  | multiply _ _ _ ihl ihr | add _ _ _ ihl ihr =>
    intro u hu
    obtain ⟨a, b, ha, hb, rfl⟩ := Tree.exists_of_read_binary hu
    rw [Tree.read, ihl ha, ihr hb]
    rfl

/-- What is read in any size is read in a fixed width, if all of its integers fit. -/
theorem Derives.exists_read_of_fits {p : Part} {ts : List Terminal} {t : Tree (List Char)}
    (h : Derives p ts t) : ∀ {x : Tree Int}, t.read = .ok x →
      (∀ n, .operand n ∈ x.postorder → Signed.Fits bits n) →
      ∃ u : Tree (Signed bits), t.read = .ok u := by
  induction h with
  | @number s hs =>
    intro x hx hfit
    obtain ⟨n, hn, rfl⟩ := Outcome.map_eq_ok_iff.1 hx
    rcases hs.parse_cases bits with ⟨m, hm, ⟨a, -, ha⟩ | ⟨hnot, -⟩⟩ | ⟨hno, -⟩
    · exact ⟨.value a, Outcome.map_eq_ok_iff.2 ⟨a, ha, rfl⟩⟩
    · cases hm.symm.trans hn
      exact absurd (hfit _ List.mem_cons_self) hnot
    · exact absurd ⟨n, hn⟩ hno
  | group _ ih | factor _ _ ih | product _ ih => exact ih
  | minus _ ih =>
    intro x hx hfit
    obtain ⟨v, hv, rfl⟩ := Outcome.map_eq_ok_iff.1 hx
    obtain ⟨u, hu⟩ := ih hv fun n hn => hfit n (List.mem_append_left _ hn)
    exact ⟨.negate u, Outcome.map_eq_ok_iff.2 ⟨u, hu, rfl⟩⟩
  | multiply _ _ _ ihl ihr | add _ _ _ ihl ihr =>
    intro x hx hfit
    obtain ⟨a, b, ha, hb, rfl⟩ := Tree.exists_of_read_binary hx
    obtain ⟨l, hl⟩ := ihl ha fun n hn =>
      hfit n (List.mem_append_left _ (List.mem_append_left _ hn))
    obtain ⟨r, hr⟩ := ihr hb fun n hn =>
      hfit n (List.mem_append_left _ (List.mem_append_right _ hn))
    exact ⟨.binary _ l r, by rw [Tree.read, hl, hr]; rfl⟩

end

/-! ### Texts -/

/-- All integers that the exact calculation of a text meets, its literals and the results of its
operations, fit in `bits` bits. -/
def StaysWithin (bits : Nat) (text : String) : Prop :=
  ∃ ks : List (Token Int), postfixOf text = .ok ks ∧ ∀ n ∈ Token.trail [] ks, Signed.Fits bits n

/-- The calculation in a fixed width, by the exact one. -/
structure RefinesExact (bits : Nat) [Numeric (Signed bits)] (text : String) : Prop where
  /-- The value is the exact one, and is there when nothing on the way to it is out of range. -/
  ok_iff : ∀ v : Signed bits, evaluate text = .ok v ↔
    evaluate text = .ok v.val ∧ StaysWithin bits text
  /-- If only the width is too small, the error says so. -/
  error_of_ok : ∀ (n : Int) (e : Error), evaluate text = .ok n →
    evaluate (α := Signed bits) text = .error e →
      (∃ u, e = .unreadable u ∧ u.reason.message = "number too large to fit in target type") ∨
        e = .arithmetic .overflow
  /-- A division by zero is one in any size. -/
  divisionByZero : evaluate (α := Signed bits) text = .error (.arithmetic .divisionByZero) →
    evaluate (α := Int) text = .error (.arithmetic .divisionByZero)

section

variable {bits : Nat} [Numeric (Signed bits)] [HasWidth bits] {text : String}

/-- A tree of the text in a fixed width is a tree of it in any size. -/
theorem evaluate_cases {ts : List Terminal} {t : Tree (List Char)} {u : Tree (Signed bits)}
    (hf : format text = .ok ts) (hd : Derives (.sum true) ts t) (hu : t.read = .ok u) :
    (∃ v : Signed bits, evaluate text = .ok v ∧ evaluate text = .ok v.val ∧ StaysWithin bits text) ∨
    (∃ f, evaluate (α := Signed bits) text = .error (.arithmetic f) ∧
      evaluate (α := Int) text = .error (.arithmetic f)) ∨
    (evaluate (α := Signed bits) text = .error (.arithmetic .overflow) ∧
      ¬ StaysWithin bits text) := by
  have hx := hd.read_exact hu
  rw [evaluate_of_derives hf hd hu, evaluate_of_derives hf hd hx, StaysWithin,
    postfixOf_of_derives hf hd hx]
  rcases u.eval_map_val with ⟨v, hv, hn, hall⟩ | ⟨f, hu, hn⟩ | ⟨hu, n, hn, hfit⟩
  · exact .inl ⟨v, by rw [hv]; rfl, by rw [hn]; rfl, _, rfl, hall⟩
  · exact .inr (.inl ⟨f, by rw [hu]; rfl, by rw [hn]; rfl⟩)
  · refine .inr (.inr ⟨by rw [hu]; rfl, ?_⟩)
    rintro ⟨_, ⟨⟩, hall⟩
    exact hfit (hall n hn)

/-- **A fixed width refines any size.** -/
theorem refinesExact (bits : Nat) [Numeric (Signed bits)] [HasWidth bits] (text : String) :
    RefinesExact bits text where
  ok_iff v := by
    constructor
    · intro hv
      obtain ⟨ts, t, hf, hr, ht⟩ := exists_of_computed (.inl ⟨v, hv⟩)
      obtain ⟨u, hu⟩ := ht.exists_read hr
      rcases evaluate_cases hf ht hu with ⟨w, hw, hn, hs⟩ | ⟨f, hw, -⟩ | ⟨hw, -⟩
      · cases hw.symm.trans hv
        exact ⟨hn, hs⟩
      · cases hw.symm.trans hv
      · cases hw.symm.trans hv
    · rintro ⟨hn, hs⟩
      obtain ⟨ts, t, hf, hr, ht⟩ := exists_of_computed (.inl ⟨v.val, hn⟩)
      obtain ⟨x, hx⟩ := ht.exists_read hr
      -- the exact calculation came to its end, so it met all literals and they fit
      obtain ⟨u, hu⟩ : ∃ u : Tree (Signed bits), t.read = .ok u := by
        obtain ⟨ks, hks, hall⟩ := hs
        cases hks.symm.trans (postfixOf_of_derives hf ht hx)
        have happly : Token.applyAll [] x.postorder = .ok [v.val] := by
          rw [evaluate_of_derives hf ht hx] at hn
          rw [Token.applyAll_postorder, hn]
          rfl
        exact ht.exists_read_of_fits hx fun n hmem =>
          hall n (Token.mem_trail_of_operand_mem happly hmem)
      rcases evaluate_cases hf ht hu with ⟨w, hw, hn', -⟩ | ⟨f, -, hn'⟩ | ⟨-, hs'⟩
      · have : w.val = v.val := Except.ok.inj (hn'.symm.trans hn)
        rw [hw, Signed.ext this]
      · cases hn'.symm.trans hn
      · exact absurd hs hs'
  error_of_ok n e hn he := by
    obtain ⟨ts, t, hf, hr, ht⟩ := exists_of_computed (.inl ⟨n, hn⟩)
    -- the width is too small for an operation, or else for a literal
    rcases readable_or_leftmost (α := Signed bits) (Terminal.literals ts) with
      hrw | ⟨before, l, after, e', hl, hbefore, he'⟩
    · obtain ⟨u, hu⟩ := ht.exists_read hrw
      rcases evaluate_cases hf ht hu with ⟨v, hv, -⟩ | ⟨f, -, hn'⟩ | ⟨ho, -⟩
      · cases hv.symm.trans he
      · cases hn'.symm.trans hn
      · exact .inr (Except.error.inj (he.symm.trans ho))
    · have hu := evaluate_of_postfixOf_eq_error (postfixOf_of_unreadable hf hl hbefore he')
      refine .inl ⟨e', Except.error.inj (he.symm.trans hu), ?_⟩
      have hmem : l ∈ Terminal.literals ts := by simp [hl]
      obtain ⟨s, hs, rfl⟩ := (format_eq_ok_iff.1 hf).1.exists_numeral l hmem
      rcases hs.parse_cases bits with ⟨m, hm, ⟨a, -, ha⟩ | ⟨-, hlarge⟩⟩ | ⟨hno, -⟩
      · cases ha.symm.trans he'
      · cases hlarge.symm.trans he'
        rfl
      · exact absurd (hr _ hmem) hno
  divisionByZero hz := by
    obtain ⟨ts, t, hf, hr, ht⟩ := exists_of_computed (.inr ⟨_, hz⟩)
    obtain ⟨u, hu⟩ := ht.exists_read hr
    rcases evaluate_cases hf ht hu with ⟨v, hv, -⟩ | ⟨f, hf, hn⟩ | ⟨ho, -⟩
    · cases hv.symm.trans hz
    · cases hf.symm.trans hz
      exact hn
    · cases ho.symm.trans hz

end

/-- Exact calculations never overflow. -/
theorem evaluate_ne_overflow (text : String) :
    evaluate (α := Int) text ≠ .error (.arithmetic .overflow) := by
  intro h
  obtain ⟨ts, t, hf, hr, ht⟩ := exists_of_computed (.inr ⟨_, h⟩)
  obtain ⟨x, hx⟩ := ht.exists_read hr
  rw [evaluate_of_derives hf ht hx] at h
  obtain ⟨f, hxf, hf⟩ := Outcome.mapError_eq_error_iff.1 h
  cases hf
  exact x.eval_ne_overflow hxf

/-- What fits in a width fits in a larger one. -/
theorem Signed.Fits.mono {bits bits' : Nat} (hle : bits ≤ bits') {n : Int}
    (h : Signed.Fits bits n) : Signed.Fits bits' n := by
  have : half bits ≤ half bits' := Nat.pow_le_pow_right (by decide) (by omega)
  obtain ⟨hleast, hbound⟩ := h
  constructor <;> omega

/-- A wider calculation has the values of a narrower one. -/
theorem evaluate_mono {bits bits' : Nat} [Numeric (Signed bits)] [HasWidth bits]
    [Numeric (Signed bits')] [HasWidth bits'] (hle : bits ≤ bits') {text : String}
    {v : Signed bits} (h : evaluate text = .ok v) :
    ∃ w : Signed bits', evaluate text = .ok w ∧ w.val = v.val := by
  obtain ⟨hn, ks, hks, hall⟩ := ((refinesExact bits text).ok_iff v).1 h
  have hv : Signed.Fits bits' v.val := Signed.Fits.mono hle v.fits
  refine ⟨⟨v.val, hv.1, hv.2⟩, ?_, rfl⟩
  exact ((refinesExact bits' text).ok_iff _).2 ⟨hn, ks, hks, fun n hmem => (hall n hmem).mono hle⟩

/-- **Fixed widths refine exact evaluation.**  Integers of 32 and of 64 bits have the exact values
as long as nothing leaves the range, the exact calculation never overflows, and the larger width
has the values of the smaller one. -/
theorem fixed_widths_refine_exact (text : String) :
    RefinesExact 32 text ∧ RefinesExact 64 text ∧
    evaluate (α := Int) text ≠ .error (.arithmetic .overflow) ∧
    ∀ v : Signed 32, evaluate text = .ok v →
      ∃ w : Signed 64, evaluate text = .ok w ∧ w.val = v.val :=
  ⟨refinesExact 32 text, refinesExact 64 text, evaluate_ne_overflow text,
    fun _ h => evaluate_mono (by decide) h⟩

end InfixArith
