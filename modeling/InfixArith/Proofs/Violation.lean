import InfixArith.Proofs.Format
import InfixArith.Proofs.Munch
import InfixArith.Proofs.Outcome

/-!
# Where a text violates the format

From the start of a text the terminals and the blanks of the format lead as far as they can, each
number as long as possible (`Leads`).  Where they lead no further the text halts (`Halts`): there
stands no blank and no terminal that may come next, and the text may not end there either.

The reader stops where the text halts (`terminals_eq_error_iff`), so it halts at one place at most
(`Leads.halts_unique`).  Up to there it has neither line breaks nor characters of more than one byte
(`Leads.plain`).
-/

namespace InfixArith

/-- In front of `v`, the text `u` is made of blanks and of the terminals `ts`, the numbers as long
as possible, and they lead from one expectation to the other. -/
inductive Leads : Expecting → List Terminal → List Char → Expecting → List Char → Prop where
  | done (q : Expecting) (v : List Char) : Leads q [] [] q v
  | blank {q q' : Expecting} {ts : List Terminal} {c : Char} {u v : List Char}
      (hc : Text.isBlank c = true) (h : Leads q ts u q' v) : Leads q ts (c :: u) q' v
  | terminal {q q' : Expecting} {t : Terminal} {ts : List Terminal} {u v : List Char}
      (ht : t.Fits q) (hn : ∀ n, t = .number n → IsLongest IsNumeral n (n ++ (u ++ v)))
      (h : Leads t.follow ts u q' v) : Leads q (t :: ts) (t.text ++ u) q' v

/-- At the start of `v`, where `q` may come next, there is no going on and no end. -/
structure Halts (q : Expecting) (v : List Char) : Prop where
  isBlank_eq_false : ∀ c ∈ v.head?, Text.isBlank c = false
  refuses : ∀ t : Terminal, t.Fits q → ¬ t.text <+: v
  unfinished : ¬ (q = .continuation ∧ v = [])

variable {q q' : Expecting} {ts us : List Terminal} {s u v w : List Char}

/-! ### What leads on -/

namespace Leads

theorem blanks_append (hb : IsBlanks u) (h : Leads q ts w q' v) : Leads q ts (u ++ w) q' v := by
  induction u with
  | nil => exact h
  | cons c u ih =>
    obtain ⟨hc, hu⟩ := List.forall_mem_cons.1 hb
    exact .blank hc (ih hu)

theorem of_blanks (hb : IsBlanks u) : Leads q [] u q v := by
  have := (done q v).blanks_append hb
  rwa [List.append_nil] at this

theorem append {q'' : Expecting} (h : Leads q ts u q' (w ++ v)) (hw : Leads q' us w q'' v) :
    Leads q (ts ++ us) (u ++ w) q'' v := by
  generalize hr : w ++ v = r at h
  induction h with
  | done => exact hw
  | blank hc _ ih => exact .blank hc (ih hw hr)
  | terminal ht hn _ ih =>
    subst hr
    rw [List.append_assoc]
    refine .terminal ht ?_ (ih hw rfl)
    rwa [List.append_assoc]

/-- The last terminal tells what may come next. -/
theorem expecting_eq (h : Leads q ts u q' v) : q' = ts.getLast?.elim q Terminal.follow := by
  induction h with
  | done => rfl
  | blank _ _ ih => exact ih
  | @terminal q q' t ts u v _ _ h ih =>
    rw [ih]
    cases ts with
    | nil => rfl
    | cons t' ts => rw [List.getLast?_cons_cons, List.getLast?_cons]; rfl

/-- What leads on is made of blanks and of what terminals are written with. -/
theorem forall_mem (h : Leads q ts u q' v) :
    ∀ c ∈ u, Text.isBlank c = true ∨ c.isDigit = true ∨ c = '.' ∨ Lexeme.isSymbol c = true := by
  induction h with
  | done => exact nofun
  | blank hc _ ih => exact List.forall_mem_cons.2 ⟨.inl hc, ih⟩
  | terminal ht _ _ ih =>
    refine List.forall_mem_append.2 ⟨fun c hc => ?_, ih⟩
    cases ht with
    | number _ hn => exact .inr ((hn.digit_or_point hc).imp_right .inl)
    | negation | opening | closing =>
      obtain rfl := List.mem_singleton.1 hc
      decide
    | binary op =>
      obtain rfl := List.mem_singleton.1 hc
      exact .inr (.inr (.inr (Terminal.isSymbol_symbol op)))

end Leads

/-! ### Where the reader stops -/

theorem terminals_cons_of_isBlank {c : Char} (hc : Text.isBlank c = true) :
    terminals q (c :: s) = terminals q s := by
  have hskip : skipBlanks (c :: s) = skipBlanks s := List.dropWhile_cons_of_pos hc
  cases hr : Terminal.read? q (skipBlanks s) with
  | none => rw [terminals_of_read?_none hr, terminals_of_read?_none (hskip ▸ hr), hskip]
  | some p => rw [terminals_of_read?_some hr, terminals_of_read?_some (hskip ▸ hr)]

namespace Terminal

/-- Where a terminal stands that may come next, one is read. -/
theorem Fits.exists_read? {t : Terminal} (h : t.Fits q) (r : List Char) :
    ∃ p, read? q (t.text ++ r) = some p := by
  cases h with
  | @number _ hq n hn =>
    obtain ⟨c, n, rfl, hc⟩ := hn.exists_cons
    obtain ⟨m, r', hm⟩ := exists_numeral? hc (n ++ r)
    obtain ⟨happend, hends⟩ := numeral?_eq_some_iff.1 hm
    have hfits : Fits q (.number m) := .number hq hends.isNumeral
    refine ⟨_, (congrArg (read? q) happend).trans (hfits.read?_append ?_)⟩
    rintro _ ⟨⟩
    exact hends
  | negation => exact ⟨_, Fits.negation.read?_append nofun⟩
  | opening hq => exact ⟨_, (Fits.opening hq).read?_append nofun⟩
  | closing => exact ⟨_, Fits.closing.read?_append nofun⟩
  | binary op => exact ⟨_, (Fits.binary op).read?_append nofun⟩

/-- Nothing is read where no terminal stands that may come next. -/
theorem read?_eq_none_iff : read? q v = none ↔ ∀ t : Terminal, t.Fits q → ¬ t.text <+: v := by
  constructor
  · rintro h t ht ⟨r, rfl⟩
    obtain ⟨p, hp⟩ := ht.exists_read? r
    cases h.symm.trans hp
  · intro h
    refine Option.eq_none_iff_forall_ne_some.2 ?_
    rintro ⟨t, r⟩ hr
    exact h t (fits_of_read? hr) ⟨r, (append_of_read? hr).symm⟩

end Terminal

theorem skipBlanks_eq_self_iff : skipBlanks v = v ↔ ∀ c ∈ v.head?, Text.isBlank c = false := by
  cases v with
  | nil => exact ⟨fun _ => nofun, fun _ => rfl⟩
  | cons c v =>
    rw [skipBlanks, List.dropWhile_eq_self_iff]
    simp

theorem Halts.terminals_eq (h : Halts q v) : terminals q v = .error (q, v) := by
  have hskip := skipBlanks_eq_self_iff.2 h.isBlank_eq_false
  rw [terminals_of_read?_none (hskip.symm ▸ Terminal.read?_eq_none_iff.2 h.refuses), hskip,
    if_neg h.unfinished]

/-- The reader goes on where terminals lead. -/
theorem Leads.terminals_eq (h : Leads q ts u q' v) :
    terminals q (u ++ v) = (terminals q' v).map (ts ++ ·) := by
  induction h with
  | done q v =>
    rw [List.nil_append]
    cases terminals q v <;> rfl
  | blank hc _ ih => exact (terminals_cons_of_isBlank hc).trans ih
  | @terminal q q' t ts u v ht hn _ ih =>
    have hskip : skipBlanks (t.text ++ u ++ v) = t.text ++ (u ++ v) := by
      have := ht.skipBlanks_append (b := []) nofun (u ++ v)
      simpa using this
    have hread := ht.read?_append fun n h => numeralEnds_iff_isLongest.2 (hn n h)
    rw [terminals_of_read?_some (hskip ▸ hread), ih]
    cases terminals q' v <;> rfl

/-- **A text halts where the reader stops.** -/
theorem terminals_eq_error_iff : terminals q s = .error (q', v) ↔
    ∃ ts u, s = u ++ v ∧ Leads q ts u q' v ∧ Halts q' v := by
  constructor
  · intro h
    -- the reader goes on with a shorter text, not with a part of a list
    induction hn : s.length using Nat.strong_induction_on generalizing q s with
    | _ n ih =>
      obtain ⟨b, hb, hs⟩ := exists_blanks_append s
      cases hr : Terminal.read? q (skipBlanks s) with
      | none =>
        rw [terminals_of_read?_none hr] at h
        split at h
        · cases h
        · next hend =>
          cases h
          have hblank := skipBlanks_eq_self_iff.1 (skipBlanks_idem s)
          exact ⟨[], b, hs, .of_blanks hb, hblank, Terminal.read?_eq_none_iff.1 hr, hend⟩
      | some p =>
        obtain ⟨t, r⟩ := p
        rw [terminals_of_read?_some hr, Outcome.map_eq_error_iff] at h
        have hlt : r.length < n := by
          have := Terminal.length_lt_of_read? hr
          have := length_skipBlanks_le s
          omega
        obtain ⟨ts, u, rfl, hleads, hhalts⟩ := ih _ hlt h rfl
        have happend := Terminal.append_of_read? hr
        have hmax : ∀ m, t = .number m → IsLongest IsNumeral m (m ++ (u ++ v)) := by
          rintro m rfl
          exact (numeral?_eq_some_iff.1 (Terminal.numeral?_of_read? hr)).2.isLongest
        refine ⟨t :: ts, b ++ (t.text ++ u), ?_,
          (Leads.terminal (Terminal.fits_of_read? hr) hmax hleads).blanks_append hb, hhalts⟩
        rw [List.append_assoc, List.append_assoc, ← happend]
        exact hs
  · rintro ⟨ts, u, rfl, hleads, hhalts⟩
    rw [hleads.terminals_eq, hhalts.terminals_eq]
    rfl

/-- A text halts at one place at most. -/
theorem Leads.halts_unique {p p' : Expecting} {v' : List Char} (hs : s = u ++ v)
    (h : Leads q ts u p v) (hv : Halts p v) (hs' : s = w ++ v') (h' : Leads q us w p' v')
    (hv' : Halts p' v') : p = p' ∧ v = v' := by
  have hread := terminals_eq_error_iff.2 ⟨ts, u, hs, h, hv⟩
  have hread' := terminals_eq_error_iff.2 ⟨us, w, hs', h', hv'⟩
  exact Prod.mk.inj (Except.error.inj (hread.symm.trans hread'))

/-! ### The place of the error -/

theorem format_eq_error_iff {text : String} {e : FormatError} : format text = .error e ↔
    ∃ ts, text.toList = e.before ++ e.after ∧
      Leads .group ts e.before e.expecting e.after ∧ Halts e.expecting e.after := by
  have htake : ∀ {u v : List Char}, text.toList = u ++ v →
      text.toList.take (text.toList.length - v.length) = u := fun h => by simp [h]
  rw [format, Outcome.mapError_eq_error_iff]
  constructor
  · rintro ⟨⟨q, v⟩, h, rfl⟩
    obtain ⟨ts, u, hs, hleads, hhalts⟩ := terminals_eq_error_iff.1 h
    rw [htake hs]
    exact ⟨ts, hs, hleads, hhalts⟩
  · rintro ⟨ts, hs, hleads, hhalts⟩
    refine ⟨(e.expecting, e.after), terminals_eq_error_iff.2 ⟨ts, _, hs, hleads, hhalts⟩, ?_⟩
    rw [htake hs]

/-- What leads on has one byte for each character, and no line breaks. -/
theorem Leads.plain (h : Leads q ts u q' v) : ∀ c ∈ u, c.utf8Size = 1 ∧ c ≠ '\n' := by
  intro c hc
  rcases h.forall_mem c hc with hb | hd | rfl | hs
  · rcases isBlank_iff.1 hb with rfl | rfl <;> decide
  · refine ⟨?_, fun e => by subst e; cases hd⟩
    simp only [Char.isDigit, ge_iff_le, Bool.and_eq_true, decide_eq_true_eq] at hd
    exact Char.utf8Size_eq_one_iff.2 (UInt32.le_trans hd.2 (by decide))
  · decide
  · rcases isSymbol_iff.1 hs with rfl | rfl | rfl | rfl | rfl | rfl <;> decide

theorem byteSize_eq_length (h : ∀ c ∈ u, c.utf8Size = 1) : Text.byteSize u = u.length := by
  induction u with
  | nil => rfl
  | cons c u ih =>
    obtain ⟨hc, hu⟩ := List.forall_mem_cons.1 h
    rw [Text.byteSize_cons, hc, ih hu, List.length_cons, Nat.add_comm]

namespace FormatError

variable {e : FormatError}

theorem line_eq_one (h : '\n' ∉ e.before) : e.line = 1 := by
  rw [line, List.count_eq_zero_of_not_mem h]

theorem margin_eq_before (h : '\n' ∉ e.before) : e.margin = e.before := by
  rw [margin, List.takeWhile_eq_self_iff.2, List.reverse_reverse]
  intro c hc
  have : c ≠ '\n' := fun e => h (e ▸ List.mem_reverse.1 hc)
  simpa using this

end FormatError

end InfixArith
