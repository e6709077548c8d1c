import InfixArith.Evaluate
import InfixArith.Proofs.Furthest
import InfixArith.Proofs.Places

/-!
# What the error of the format tells

A text that does not keep to the format violates it at one place, where terminals and blanks lead
and no further (`Violates`).  The error tells this place, and the names of all that might have
stood there (`PointsAtViolation`).  They are what the grammar missed furthest on.
-/

namespace InfixArith

variable {q : Expecting} {text : String} {e : FormatError}

/-! ### What the grammar tells -/

/-- What is expected are the names of the terminals that may come next, and the end of the text if
it may. -/
theorem Expecting.mem_names_iff {n : String} : n ∈ q.names ↔
    (∃ t : Terminal, t.Fits q ∧ t.rule = n) ∨ q = .continuation ∧ n = "EOI" := by
  have hzero : IsNumeral ['0'] := .whole ⟨nofun, by simp⟩
  constructor
  · intro h
    cases q with
    | group =>
      simp only [names, List.mem_cons, List.not_mem_nil, or_false] at h
      rcases h with rfl | rfl | rfl
      · exact .inl ⟨_, .number (by decide) hzero, rfl⟩
      · exact .inl ⟨_, .negation, rfl⟩
      · exact .inl ⟨_, .opening (by decide), rfl⟩
    | operand =>
      simp only [names, List.mem_cons, List.not_mem_nil, or_false] at h
      rcases h with rfl | rfl
      · exact .inl ⟨_, .number (by decide) hzero, rfl⟩
      · exact .inl ⟨_, .opening (by decide), rfl⟩
    | continuation =>
      simp only [names, List.mem_cons, List.not_mem_nil, or_false] at h
      rcases h with rfl | rfl | rfl | rfl | rfl | rfl
      · exact .inr ⟨rfl, rfl⟩
      · exact .inl ⟨_, .binary .add, rfl⟩
      · exact .inl ⟨_, .binary .subtract, rfl⟩
      · exact .inl ⟨_, .binary .multiply, rfl⟩
      · exact .inl ⟨_, .binary .divide, rfl⟩
      · exact .inl ⟨_, .closing, rfl⟩
  · rintro (⟨t, ht, rfl⟩ | ⟨rfl, rfl⟩)
    · cases ht with
      | negation | closing => decide
      | opening hq => cases q with
        | group | operand => decide
        | continuation => exact absurd rfl hq
      | number hq _ => cases q with
        | group | operand => simp [names, Terminal.rule]
        | continuation => exact absurd rfl hq
      | binary op => cases op <;> decide
    · decide

theorem Peg.Stands.halts {text s : List Char} {ms : List Miss} (h : Stands text q s q.names ms) :
    Halts q (skipBlanks s) where
  isBlank_eq_false := skipBlanks_eq_self_iff.1 (skipBlanks_idem s)
  refuses t ht :=
    (h.furthest.missed _ (Expecting.mem_names_iff.2 (.inl ⟨t, ht, rfl⟩))).refuses ht rfl
  unfinished := by
    rintro ⟨rfl, hv⟩
    exact (h.furthest.missed "EOI" (by decide)).ne_nil rfl hv

/-- The grammar tells the violation that the reader tells. -/
theorem Peg.report?_of_format_eq_error (h : format text = .error e) :
    Peg.report? text.toList = some (e.after, e.expecting.names) := by
  obtain ⟨ts, hs, hleads, hhalts⟩ := format_eq_error_iff.1 h
  have hrun : Peg.calculation.run text.toList skipBlanks text.toList = none := by
    refine Option.eq_none_iff_forall_ne_some.2 fun p hp => ?_
    have hmatch : Peg.match? text.toList = some p.1 := Option.map_eq_some_iff.2 ⟨p, hp, rfl⟩
    cases h.symm.trans (match?_eq_some_iff_format.1 hmatch)
  obtain ⟨q, s, hstands⟩ := Peg.exists_stands_of_run_eq_none hrun
  obtain ⟨us, u, hu, hleads'⟩ := hstands.reaches.of_blanks
  obtain ⟨rfl, hv⟩ := hleads'.halts_unique hu hstands.halts hs hleads hhalts
  have hfurthest := hstands.furthest
  rw [hv] at hfurthest
  have hplace : Peg.furthest text.toList
      (Peg.calculation.misses text.toList skipBlanks text.toList) = e.after := by
    refine hfurthest.furthest_eq (by cases e.expecting <;> exact nofun) ?_
    rw [hs, List.length_append]
    omega
  have hnames : Peg.rules.filter (fun rule => decide (rule ∈ e.expecting.names)) =
      e.expecting.names := by
    cases e.expecting <;> decide
  rw [Peg.report?, hrun]
  simp only [hplace, hfurthest.mem_iff, hnames]

-- The second operation stands where an operand is missed.
example : Peg.report? "1 + * 2".toList = some ("* 2".toList, ["number", "open"]) := by
  decide +kernel

/-! ### What the error tells -/

/-- What may come after the given terminal, or at the start, in the order in which it is told. -/
def expectedAfter : Option Terminal → List String
  | none | some .opening => ["number", "neg", "open"]
  | some .negation | some (.binary _) => ["number", "open"]
  | some (.number _) | some .closing => ["EOI", "add", "subtract", "multiply", "divide", "close"]

/-- At the byte `p` of a text, where `q` may come next, the text violates the format: terminals and
blanks lead there and no further. -/
def Violates (text : String) (p : Nat) (q : Expecting) : Prop :=
  ∃ ts u v, text.toList = u ++ v ∧ p = (String.ofList u).utf8ByteSize ∧
    Leads .group ts u q v ∧ Halts q v

/-- What the error tells of a text that violates the format. -/
structure PointsAtViolation (text : String) (e : FormatError) : Prop where
  isValid : (⟨e.position⟩ : String.Pos.Raw).IsValid text
  line_eq : e.line = 1
  column_eq : e.column = e.position + 1
  violates : Violates text e.position e.expecting
  unique : ∀ p q, Violates text p q → p = e.position ∧ q = e.expecting
  /-- The names are told by the last terminal in front of the place, and say what may come next. -/
  expected : ∃ ts, text.toList = e.before ++ e.after ∧
    Leads .group ts e.before e.expecting e.after ∧
    e.expecting.names = expectedAfter ts.getLast?
  mem_names : ∀ n, n ∈ e.expecting.names ↔
    (∃ t : Terminal, t.Fits e.expecting ∧ t.rule = n) ∨ e.expecting = .continuation ∧ n = "EOI"
  /-- The grammar looked for them there, and nowhere further on. -/
  report : Peg.report? text.toList = some (e.after, e.expecting.names)

theorem names_eq_expectedAfter {ts : List Terminal} {u v : List Char}
    (h : Leads .group ts u q v) : q.names = expectedAfter ts.getLast? := by
  rw [h.expecting_eq]
  cases ts.getLast? with
  | none => rfl
  | some t => cases t <;> rfl

/-- A text violates the format at one place at most. -/
theorem violates_unique {p p' : Nat} {q' : Expecting} (h : Violates text p q)
    (h' : Violates text p' q') : p = p' ∧ q = q' := by
  obtain ⟨ts, u, v, hs, rfl, hleads, hhalts⟩ := h
  obtain ⟨us, w, v', hs', rfl, hleads', hhalts'⟩ := h'
  obtain ⟨rfl, rfl⟩ := hleads.halts_unique hs hhalts hs' hleads' hhalts'
  exact ⟨by rw [List.append_cancel_right (hs.symm.trans hs')], rfl⟩

theorem pointsAtViolation_of_format_eq_error (h : format text = .error e) :
    PointsAtViolation text e := by
  obtain ⟨ts, hs, hleads, hhalts⟩ := format_eq_error_iff.1 h
  have hplain := hleads.plain
  have hline : '\n' ∉ e.before := fun hc => (hplain _ hc).2 rfl
  have hsize : e.position = (String.ofList e.before).utf8ByteSize :=
    (Text.utf8ByteSize_ofList e.before).symm
  have hviolates : Violates text e.position e.expecting :=
    ⟨ts, _, _, hs, hsize, hleads, hhalts⟩
  constructor
  case isValid =>
    have := Text.isValid_byteSize e.before e.after
    rwa [← hs, String.ofList_toList] at this
  case line_eq => exact FormatError.line_eq_one hline
  case column_eq =>
    rw [FormatError.column, FormatError.margin_eq_before hline, FormatError.position,
      byteSize_eq_length fun c hc => (hplain c hc).1]
  case violates => exact hviolates
  case unique => exact fun p q hp => violates_unique hp hviolates
  case expected => exact ⟨ts, hs, hleads, names_eq_expectedAfter hleads⟩
  case mem_names => exact fun _ => Expecting.mem_names_iff
  case report => exact Peg.report?_of_format_eq_error h

/-- **An error of the format points at its violation.**  A text that keeps to the format violates it
nowhere; any other has an error, and this tells the one place where the text violates it. -/
theorem validate_points_at_violation (text : String) :
    (validate text = .ok () ∧ ∀ p q, ¬ Violates text p q) ∨
      ∃ e, validate text = .error (.format e) ∧ PointsAtViolation text e := by
  unfold validate
  cases h : format text with
  | error e => exact .inr ⟨e, rfl, pointsAtViolation_of_format_eq_error h⟩
  | ok ts =>
    refine .inl ⟨rfl, ?_⟩
    rintro p q ⟨us, u, v, hs, -, hleads, hhalts⟩
    have hread := terminals_eq_error_iff.2 ⟨_, _, hs, hleads, hhalts⟩
    rw [format, hread] at h
    cases h

end InfixArith
