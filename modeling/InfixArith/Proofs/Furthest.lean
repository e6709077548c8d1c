import InfixArith.Expression.Misses
import InfixArith.Proofs.Greedy
import InfixArith.Proofs.Violation

/-!
# The furthest misses of the grammar

Of what the grammar looks for in vain, only the furthest on counts (`Furthest`): what was missed
before a place is forgotten as soon as something is taken there.

`Tries` says of an expression what holds when it matches and what holds when it does not, of the
text that is left and of all that has been missed.  There is a rule for each way to build
expressions, and for a repetition the rule of an invariant (`Tries.many`).  With these the rules of
the grammar are followed, one lemma for each.  Where an operand is missed the grammar goes back in
front of the operation before it, and yet what is missed there later is not as far on
(`tries_link`).

Main statement: `exists_stands_of_run_eq_none`.  If a text has no match, terminals lead to a place
at which all that may come next is missed, and nothing is missed beyond.
-/

namespace InfixArith

/-! ### Names -/

namespace Terminal

/-- But for the text of a number, a terminal is known by its name. -/
theorem eq_of_rule_eq {t u : Terminal} (h : t.rule = u.rule) (hu : ∀ n, u ≠ .number n) :
    t = u := by
  rcases u with n | _ | _ | _ | ⟨_ | _ | _ | _⟩
  · exact absurd rfl (hu n)
  all_goals
    rcases t with _ | _ | _ | _ | ⟨_ | _ | _ | _⟩ <;>
      first | rfl | simp [rule, BinaryOp.rule] at h

theorem number_of_rule_eq {t : Terminal} (h : t.rule = "number") : ∃ n, t = .number n := by
  rcases t with n | _ | _ | _ | ⟨_ | _ | _ | _⟩
  · exact ⟨n, rfl⟩
  all_goals exact absurd h (by decide)

/-- The end of the text is no terminal. -/
theorem rule_ne_end (t : Terminal) : t.rule ≠ "EOI" := by
  rcases t with _ | _ | _ | _ | ⟨_ | _ | _ | _⟩ <;> simp [rule, BinaryOp.rule]

end Terminal

namespace Peg

variable {text s v w : List Char} {rule : String} {ns ns' : List String} {ms ms' : List Miss}

/-! ### Misses and their places -/

/-- No terminal with the name `rule` stands at the start of `v`; and if it names the end, the text
does not end there. -/
structure Missed (v : List Char) (rule : String) : Prop where
  refuses : ∀ {q : Expecting} {t : Terminal}, t.Fits q → t.rule = rule → ¬ t.text <+: v
  ne_nil : rule = "EOI" → v ≠ []

/-- Of the misses `ms` the furthest are those of the rules `ns` at the start of `v`. -/
structure Furthest (v : List Char) (ns : List String) (ms : List Miss) : Prop where
  missed : ∀ n ∈ ns, Missed v n
  mem : ∀ n ∈ ns, ⟨v, n⟩ ∈ ms
  behind : ∀ m ∈ ms, v.length < m.rest.length ∨ m.rest = v ∧ m.rule ∈ ns

/-- If no miss is further on than `v`, the furthest place is `v`, or it is no further on and nothing
was missed at `v`. -/
theorem furthest_cases (hle : v.length ≤ text.length)
    (h : ∀ m ∈ ms, v.length < m.rest.length ∨ m.rest = v) : furthest text ms = v ∨
      v.length ≤ (furthest text ms).length ∧ ∀ m ∈ ms, m.rest ≠ v := by
  induction ms with
  | nil => exact .inr ⟨hle, nofun⟩
  | cons m ms ih =>
    obtain ⟨hm, hms⟩ := List.forall_mem_cons.1 h
    have hcons : furthest text (m :: ms) = if m.rest.length ≤ (furthest text ms).length
      then m.rest else furthest text ms := rfl
    have ih := ih hms
    rcases hm with hlt | rfl
    · rcases ih with hv | ⟨hge, hall⟩
      · left
        rw [hcons, hv, if_neg (by omega)]
      · right
        refine ⟨?_, List.forall_mem_cons.2 ⟨fun e => by simp [e] at hlt, hall⟩⟩
        rw [hcons]
        split <;> omega
    · left
      rw [hcons, if_pos]
      rcases ih with hv | ⟨hge, -⟩
      · rw [hv]
      · exact hge

namespace Furthest

theorem nil (v : List Char) : Furthest v [] [] :=
  ⟨nofun, nofun, nofun⟩

theorem singleton {n : String} (h : Missed v n) : Furthest v [n] [⟨v, n⟩] where
  missed := List.forall_mem_singleton.2 h
  mem := List.forall_mem_singleton.2 List.mem_cons_self
  behind := List.forall_mem_singleton.2 (.inr ⟨rfl, List.mem_cons_self⟩)

theorem append (h : Furthest v ns ms) (h' : Furthest v ns' ms') :
    Furthest v (ns ++ ns') (ms ++ ms') where
  missed := List.forall_mem_append.2 ⟨h.missed, h'.missed⟩
  mem := List.forall_mem_append.2 ⟨fun n hn => List.mem_append_left _ (h.mem n hn),
    fun n hn => List.mem_append_right _ (h'.mem n hn)⟩
  behind := List.forall_mem_append.2
    ⟨fun m hm => (h.behind m hm).imp_right (.imp_right (List.mem_append_left _)),
      fun m hm => (h'.behind m hm).imp_right (.imp_right (List.mem_append_right _))⟩

/-- Further on, nothing has been missed yet. -/
theorem beyond (h : Furthest v ns ms) (hlt : w.length < v.length) : Furthest w [] ms := by
  refine ⟨nofun, nofun, fun m hm => .inl ?_⟩
  rcases h.behind m hm with hm | ⟨rfl, -⟩
  · exact hlt.trans hm
  · exact hlt

/-- What was missed at the furthest place. -/
theorem mem_iff (h : Furthest v ns ms) {n : String} : ⟨v, n⟩ ∈ ms ↔ n ∈ ns := by
  refine ⟨fun hn => ?_, h.mem n⟩
  rcases h.behind _ hn with hlt | ⟨-, hn⟩
  · exact absurd hlt (Nat.lt_irrefl _)
  · exact hn

theorem perm (h : Furthest v ns ms) (hns : ns.Perm ns') : Furthest v ns' ms where
  missed n hn := h.missed n (hns.mem_iff.2 hn)
  mem n hn := h.mem n (hns.mem_iff.2 hn)
  behind m hm := (h.behind m hm).imp_right (.imp_right hns.mem_iff.1)

/-- The furthest place is the one where something was missed furthest on. -/
theorem furthest_eq (h : Furthest v ns ms) (hne : ns ≠ []) (hle : v.length ≤ text.length) :
    furthest text ms = v := by
  obtain ⟨n, hn⟩ := List.exists_mem_of_ne_nil ns hne
  have hbehind : ∀ m ∈ ms, v.length < m.rest.length ∨ m.rest = v := fun m hm =>
    (h.behind m hm).imp_right And.left
  exact (furthest_cases hle hbehind).resolve_right fun hr => hr.2 _ (h.mem n hn) rfl

end Furthest

/-! ### What one expression misses -/

section

variable {skip : List Char → List Char} {e f : Peg} {r : List Char} {ts : List Terminal}
  {p : List Terminal × List Char} {terminal : List Char → Terminal}

theorem misses_word_of_none (h : (word terminal e).run text skip s = none) :
    (word terminal e).misses text skip s = [⟨s, (terminal []).rule⟩] := by
  rw [run_word, Option.bind_eq_none_iff] at h
  cases he : e.run text id s with
  | none => simp [misses, he]
  | some p => cases h p he

theorem misses_word_of_some (h : (word terminal e).run text skip s = some p) :
    (word terminal e).misses text skip s = [] := by
  rw [run_word] at h
  obtain ⟨q, he, -⟩ := Option.bind_eq_some_iff.1 h
  simp [misses, he]

theorem misses_seq_of_none (h : e.run text skip s = none) :
    (Peg.seq e f).misses text skip s = e.misses text skip s := by
  simp [misses, h]

theorem misses_seq_of_some (h : e.run text skip s = some (ts, r)) :
    (Peg.seq e f).misses text skip s = e.misses text skip s ++ f.misses text skip (skip r) := by
  simp [misses, h]

theorem misses_choice_of_none (h : e.run text skip s = none) :
    (Peg.choice e f).misses text skip s = e.misses text skip s ++ f.misses text skip s := by
  simp [misses, h]

theorem misses_choice_of_some (h : e.run text skip s = some p) :
    (Peg.choice e f).misses text skip s = e.misses text skip s := by
  simp [misses, h]

theorem misses_option : e.option.misses text skip s = e.misses text skip s := by
  rw [misses]

theorem missesAll_of_none {step : List Char → Option (List Terminal × List Char)}
    {notes : List Char → List Miss} (h : step s = none) : missesAll step notes s = notes s := by
  rw [missesAll, h, List.append_nil]

theorem missesAll_of_some {step : List Char → Option (List Terminal × List Char)}
    {notes : List Char → List Miss} (h : step s = some (ts, r)) (hr : r.length < s.length) :
    missesAll step notes s = notes s ++ missesAll step notes r := by
  rw [missesAll, h]
  simp [hr]

/-- The first turn is like the others where nothing is skipped in front of it. -/
theorem misses_many_eq (hs : skip s = s)
    (h : ∀ ts r, e.run text skip s = some (ts, r) → r.length < s.length) :
    e.many.misses text skip s = missesAll (fun s => e.run text skip (skip s))
      (fun s => e.misses text skip (skip s)) s := by
  cases he : e.run text skip s with
  | none =>
    rw [missesAll_of_none (by rw [hs, he]), misses, he, hs, List.append_nil]
  | some p =>
    obtain ⟨ts, r⟩ := p
    rw [missesAll_of_some (by rw [hs, he]) (h ts r he), misses, he, hs]

end

/-! ### Trying an expression -/

/-- Behind the blanks at the start of `s` the expression is tried, when `ms` has been missed before:
it matches, and `P` holds of what is left and of all that was missed; or it does not, and `N` holds
of all that was missed. -/
def Tries (text : List Char) (e : Peg) (s : List Char) (ms : List Miss)
    (P : List Char → List Miss → Prop) (N : List Miss → Prop) : Prop :=
  (∃ ts r, e.run text skipBlanks (skipBlanks s) = some (ts, r) ∧
    P r (ms ++ e.misses text skipBlanks (skipBlanks s))) ∨
  e.run text skipBlanks (skipBlanks s) = none ∧
    N (ms ++ e.misses text skipBlanks (skipBlanks s))

namespace Tries

variable {e f : Peg} {P P' I : List Char → List Miss → Prop} {N N' : List Miss → Prop}

theorem imp_left (h : Tries text e s ms P N) (hP : ∀ r ms', P r ms' → P' r ms') :
    Tries text e s ms P' N := by
  rcases h with ⟨ts, r, hr, hp⟩ | hn
  · exact .inl ⟨ts, r, hr, hP r _ hp⟩
  · exact .inr hn

/-- What has been missed before is not forgotten. -/
theorem imp_right (h : Tries text e s ms P N) (hN : ∀ ms', ms <+: ms' → N ms' → N' ms') :
    Tries text e s ms P N' := by
  rcases h with hp | ⟨hr, hn⟩
  · exact .inl hp
  · exact .inr ⟨hr, hN _ (List.prefix_append ms _) hn⟩

theorem seq (he : Tries text e s ms P N)
    (hf : ∀ r ms', ms <+: ms' → P r ms' → Tries text f r ms' P' N) :
    Tries text (.seq e f) s ms P' N := by
  rcases he with ⟨ts, r, hr, hp⟩ | ⟨hr, hn⟩
  · have hms := List.prefix_append ms (e.misses text skipBlanks (skipBlanks s))
    have hmisses := misses_seq_of_some (f := f) hr
    rcases hf r _ hms hp with ⟨us, r', hr', hp'⟩ | ⟨hr', hn⟩
    · refine .inl ⟨ts ++ us, r', run_seq_eq_some_iff.2 ⟨ts, r, us, r', hr, hr', rfl⟩, ?_⟩
      rwa [hmisses, ← List.append_assoc]
    · refine .inr ⟨by rw [run_seq, hr, Option.bind_some, hr', Option.bind_none], ?_⟩
      rwa [hmisses, ← List.append_assoc]
  · exact .inr ⟨run_seq_of_none hr, by rwa [misses_seq_of_none hr]⟩

theorem choice (he : Tries text e s ms P N) (hf : ∀ ms', N ms' → Tries text f s ms' P N') :
    Tries text (.choice e f) s ms P N' := by
  rcases he with ⟨ts, r, hr, hp⟩ | ⟨hr, hn⟩
  · exact .inl ⟨ts, r, run_choice_of_some hr, by rwa [misses_choice_of_some hr]⟩
  · rw [Tries, run_choice_of_none hr, misses_choice_of_none hr, ← List.append_assoc]
    exact hf _ hn

theorem option (he : Tries text e s ms P N) (h : ∀ ms', N ms' → P (skipBlanks s) ms') :
    Tries text e.option s ms P N' := by
  left
  rw [misses_option]
  rcases he with ⟨ts, r, hr, hp⟩ | ⟨hr, hn⟩
  · exact ⟨ts, r, run_option_of_some hr, hp⟩
  · exact ⟨[], _, run_option_of_none hr, h _ hn⟩

/-- A repetition keeps what each turn keeps. -/
theorem many (ha : Advances e) (hturn : ∀ r ms', I r ms' → Tries text e r ms' I (P r))
    (h : I (skipBlanks s) ms) : Tries text e.many s ms P N := by
  have hloop : ∀ s ms, I s ms → ∃ ts r,
      iterate (fun s => e.run text skipBlanks (skipBlanks s)) s = (ts, r) ∧
        P r (ms ++ missesAll (fun s => e.run text skipBlanks (skipBlanks s))
          (fun s => e.misses text skipBlanks (skipBlanks s)) s) := by
    intro s ms h
    induction hn : s.length using Nat.strong_induction_on generalizing s ms with
    | _ n ih =>
      rcases hturn s ms h with ⟨ts, r, hr, hi⟩ | ⟨hr, hp⟩
      · have hlt : r.length < s.length :=
          Nat.lt_of_lt_of_le (ha _ _ _ _ hr) (length_skipBlanks_le s)
        obtain ⟨us, r', hr', hp⟩ := ih _ (hn ▸ hlt) r _ hi rfl
        refine ⟨ts ++ us, r', by rw [iterate_of_some (s := s) hr hlt, hr'], ?_⟩
        rwa [missesAll_of_some (s := s) hr hlt, ← List.append_assoc]
      · exact ⟨[], s, iterate_of_none hr, by rwa [missesAll_of_none (s := s) hr]⟩
  obtain ⟨ts, r, hr, hp⟩ := hloop _ ms h
  have hidem := skipBlanks_idem s
  left
  rw [run_many_eq_iterate hidem fun _ _ => ha _ _ _ _,
    misses_many_eq hidem fun _ _ => ha _ _ _ _, hr]
  exact ⟨ts, r, rfl, hp⟩

end Tries

/-! ### Words -/

/-- The terminals of a text so far lead to `s`, where `q` may come next. -/
def Reaches (text : List Char) (q : Expecting) (s : List Char) : Prop :=
  ∃ ts u, text = u ++ s ∧ Leads .group ts u q s

/-- Where the text has been read to, and what has been missed there. -/
structure Stands (text : List Char) (q : Expecting) (s : List Char) (ns : List String)
    (ms : List Miss) : Prop where
  reaches : Reaches text q s
  furthest : Furthest (skipBlanks s) ns ms

variable {q q' : Expecting} {e f : Peg}

theorem Reaches.of_blanks (h : Reaches text q s) : Reaches text q (skipBlanks s) := by
  obtain ⟨ts, u, rfl, hleads⟩ := h
  obtain ⟨b, hb, hs⟩ := exists_blanks_append s
  refine ⟨ts ++ [], u ++ b, by rw [List.append_assoc, ← hs], Leads.append ?_ (.of_blanks hb)⟩
  rwa [← hs]

theorem Reaches.terminal {t : Terminal} {r : List Char} (h : Reaches text q (t.text ++ r))
    (ht : t.Fits q) (hn : ∀ n, t = .number n → NumeralEnds n r) : Reaches text t.follow r := by
  obtain ⟨ts, u, rfl, hleads⟩ := h
  have hone := Leads.terminal (u := []) ht (fun n h => (hn n h).isLongest) (.done t.follow r)
  rw [List.append_nil] at hone
  exact ⟨ts ++ [t], u ++ t.text, (List.append_assoc _ _ _).symm, hleads.append hone⟩

theorem Stands.of_blanks (h : Stands text q s ns ms) :
    Stands text q (skipBlanks s) ns ms :=
  ⟨h.reaches.of_blanks, by rw [skipBlanks_idem]; exact h.furthest⟩

theorem Stands.perm (h : Stands text q s ns ms) (hns : ns.Perm ns') : Stands text q s ns' ms :=
  ⟨h.reaches, h.furthest.perm hns⟩

/-- The expression matches a terminal that fits `q` and leads to `q'`, or it misses the rule. -/
def Finds (e : Peg) (q q' : Expecting) (rule : String) : Prop :=
  ∀ text s,
    (∃ t r, e.run text skipBlanks s = some ([t], r) ∧ e.misses text skipBlanks s = [] ∧
      s = t.text ++ r ∧ t.Fits q ∧ t.follow = q' ∧ ∀ n, t = .number n → NumeralEnds n r) ∨
    e.run text skipBlanks s = none ∧ e.misses text skipBlanks s = [⟨s, rule⟩] ∧ Missed s rule

theorem Finds.tries (he : Finds e q q' rule) (h : Stands text q s ns ms) :
    Tries text e s ms (fun r ms' => Stands text q' r [] ms')
      (fun ms' => Stands text q s (ns ++ [rule]) ms') := by
  rcases he text (skipBlanks s) with ⟨t, r, hr, hm, hs, ht, rfl, hn⟩ | ⟨hr, hm, hmissed⟩
  · refine .inl ⟨[t], r, hr, ?_⟩
    rw [hm, List.append_nil]
    refine ⟨(hs ▸ h.reaches.of_blanks).terminal ht hn, h.furthest.beyond ?_⟩
    have := length_skipBlanks_le r
    have := List.length_pos_iff.2 ht.text_ne_nil
    rw [hs, List.length_append]
    omega
  · refine .inr ⟨hr, h.reaches, ?_⟩
    rw [hm]
    exact h.furthest.append (.singleton hmissed)

theorem finds_symbol {c : Char} {t : Terminal} (ht : t.Fits q) (hc : t.text = [c])
    (hn : ∀ n, t ≠ .number n) : Finds (symbol c t) q t.follow t.rule := by
  intro text s
  by_cases hs : s.head? = some c
  · obtain ⟨r, rfl⟩ := List.head?_eq_some_iff.1 hs
    have hr : (symbol c t).run text skipBlanks (c :: r) = some ([t], r) := run_symbol_cons c t
    exact .inl ⟨t, r, hr, misses_word_of_some hr, by rw [hc]; rfl, ht, rfl,
      fun n h => absurd h (hn n)⟩
  · have hr : (symbol c t).run text skipBlanks s = none := run_symbol_of_ne t hs
    refine .inr ⟨hr, misses_word_of_none hr, ?_, ?_⟩
    · rintro q u - hu ⟨r, rfl⟩
      rw [Terminal.eq_of_rule_eq hu hn, hc] at hs
      exact hs rfl
    · exact fun he => absurd he t.rule_ne_end

theorem finds_number (hq : q ≠ .continuation) : Finds number q .continuation "number" := by
  intro text s
  cases hs : Lexeme.numeral? s with
  | some p =>
    obtain ⟨n, r⟩ := p
    have hr : number.run text skipBlanks s = some ([.number n], r) := by
      rw [run_number, hs]
      rfl
    obtain ⟨rfl, hends⟩ := numeral?_eq_some_iff.1 hs
    refine .inl ⟨.number n, r, hr, misses_word_of_some hr, rfl, .number hq hends.isNumeral, rfl, ?_⟩
    rintro _ ⟨⟩
    exact hends
  | none =>
    have hr : number.run text skipBlanks s = none := by
      rw [run_number, hs]
      rfl
    refine .inr ⟨hr, misses_word_of_none hr, ?_, nofun⟩
    rintro q u hfits hu ⟨r, rfl⟩
    obtain ⟨n, rfl⟩ := Terminal.number_of_rule_eq hu
    obtain ⟨c, t, rfl, hc⟩ := hfits.isNumeral.exists_cons
    obtain ⟨m, r', hm⟩ := exists_numeral? hc (t ++ r)
    cases hs.symm.trans hm

/-! ### The grammar -/

/-- What is tried in front of an operand. -/
def signs : Expecting → List String
  | .group => ["neg"]
  | _ => []

/-- An operand may come at the start of `s`, and only the minus has been missed there. -/
def AtOperand (text s : List Char) (ms : List Miss) : Prop :=
  ∃ q : Expecting, q ≠ .continuation ∧ Stands text q s (signs q) ms

/-- In front of or within an operand, everything has been missed that may come next. -/
def NoOperand (text : List Char) (ms : List Miss) : Prop :=
  ∃ q s, q ≠ .continuation ∧ Stands text q s q.names ms

variable {N : List Miss → Prop}

theorem tries_negation (h : Stands text .group s [] ms) :
    Tries text negation.option s ms (AtOperand text) N := by
  have hneg : Tries text negation s ms (AtOperand text)
      (fun ms' => Stands text .group s ["neg"] ms') :=
    ((finds_symbol (c := '-') Terminal.Fits.negation rfl nofun).tries h).imp_left
      fun r ms' hr => ⟨.operand, nofun, hr⟩
  exact hneg.option fun ms' hr => ⟨.group, nofun, hr.of_blanks⟩

theorem tries_openings (h : AtOperand text s ms) :
    Tries text (.many (.seq opening negation.option)) s ms
      (fun r ms' => ∃ q, q ≠ .continuation ∧ Stands text q r (signs q ++ ["open"]) ms') N := by
  refine Tries.many (I := AtOperand text) advances_opening ?_ ?_
  · rintro r ms' ⟨q, hq, hr⟩
    have hopen := (finds_symbol (c := '(') (Terminal.Fits.opening hq) rfl nofun).tries hr
    exact (hopen.imp_right fun _ _ h => ⟨q, hq, h⟩).seq fun _ _ _ h => tries_negation h
  · obtain ⟨q, hq, hs⟩ := h
    exact ⟨q, hq, hs.of_blanks⟩

theorem tries_closings (h : Stands text .continuation s [] ms) :
    Tries text closing.many s ms (fun r ms' => Stands text .continuation r ["close"] ms') N := by
  refine Tries.many (I := fun r ms' => Stands text .continuation r [] ms') advances_closing ?_
    h.of_blanks
  exact fun r ms' hr => (finds_symbol (c := ')') Terminal.Fits.closing rfl nofun).tries hr

theorem tries_operand (h : AtOperand text s ms) :
    Tries text operand s ms (fun r ms' => Stands text .continuation r ["close"] ms')
      (NoOperand text) := by
  refine (tries_openings h).seq fun r ms' _ hr => ?_
  obtain ⟨q, hq, hr⟩ := hr
  have hnumber := (finds_number hq).tries hr
  refine (hnumber.imp_right fun ms' _ hr => ⟨q, r, hq, hr.perm ?_⟩).seq
    fun _ _ _ h => tries_closings h
  cases q with
  | group | operand => decide
  | continuation => exact absurd rfl hq

/-- The rules of the binary operations. -/
def operations : List String :=
  [BinaryOp.add.rule, BinaryOp.subtract.rule, BinaryOp.multiply.rule, BinaryOp.divide.rule]

theorem tries_binaryOp (h : Stands text .continuation s ns ms) :
    Tries text binaryOp s ms (fun r ms' => Stands text .operand r [] ms')
      (fun ms' => Stands text .continuation s (ns ++ operations) ms') := by
  have hop : ∀ (op : BinaryOp) {ns ms}, Stands text .continuation s ns ms →
      Tries text (binary op) s ms (fun r ms' => Stands text .operand r [] ms')
        (fun ms' => Stands text .continuation s (ns ++ [op.rule]) ms') := fun op _ _ h =>
    (finds_symbol (Terminal.Fits.binary op) rfl nofun).tries h
  refine (hop .add h).choice fun ms' h => (hop .subtract h).choice fun ms' h =>
    (hop .multiply h).choice fun ms' h => ?_
  have := hop .divide h
  simpa [operations] using this

/-- What ends the repetition of links: none is there, or one breaks off further on. -/
def AfterLinks (text s : List Char) (ms : List Miss) : Prop :=
  Stands text .continuation s ("close" :: operations) ms ∨
    ∃ q r, Stands text q r q.names ms ∧ (skipBlanks r).length < (skipBlanks s).length

theorem tries_link (h : Stands text .continuation s ["close"] ms) :
    Tries text (.seq binaryOp operand) s ms
      (fun r ms' => Stands text .continuation r ["close"] ms') (AfterLinks text s) := by
  have hop : Tries text binaryOp s ms (fun r ms' => Stands text .operand r [] ms')
      (AfterLinks text s) :=
    (tries_binaryOp h).imp_right fun _ _ h => .inl h
  refine hop.seq fun r ms' hms hr => ?_
  refine (tries_operand (s := r) ⟨.operand, nofun, hr⟩).imp_right ?_
  rintro ms'' hms' ⟨q, r', hq, hr'⟩
  -- the parenthesis was missed in front of the link, and is not what an operand lacks
  have hclose := (hms.trans hms').subset (h.furthest.mem "close" List.mem_cons_self)
  refine .inr ⟨q, r', hr', (hr'.furthest.behind _ hclose).resolve_right fun hc => ?_⟩
  have hmem : "close" ∈ q.names := hc.2
  cases q with
  | group | operand => exact absurd hmem (by decide)
  | continuation => exact hq rfl

theorem tries_links (h : Stands text .continuation s ["close"] ms) :
    Tries text (.many (.seq binaryOp operand)) s ms (AfterLinks text) N :=
  Tries.many (I := fun r ms' => Stands text .continuation r ["close"] ms') advances_link
    (fun _ _ h => tries_link h) h.of_blanks

theorem missed_end (h : v ≠ []) : Missed v "EOI" :=
  ⟨fun {_ t} _ ht => absurd ht t.rule_ne_end, fun _ => h⟩

theorem tries_stop (h : AfterLinks text s ms) :
    Tries text .stop s ms (fun _ _ => True) fun ms' => ∃ q r, Stands text q r q.names ms' := by
  by_cases hs : skipBlanks s = []
  · exact .inl ⟨[], [], by rw [run_stop, hs]; rfl, trivial⟩
  · have hend := Furthest.singleton (missed_end hs)
    refine .inr ⟨by rw [run_stop, if_neg hs], ?_⟩
    rw [misses, if_neg hs]
    rcases h with h | ⟨q, r, h, hlt⟩
    · exact ⟨.continuation, s, h.reaches, (h.furthest.append hend).perm (by decide)⟩
    · refine ⟨q, r, h.reaches, ?_⟩
      have := h.furthest.append (hend.beyond hlt)
      rwa [List.append_nil] at this

/-- **What is missed furthest on.**  If a text has no match, terminals and blanks lead to a place in
it at which all that may come next is missed, and nothing is missed beyond. -/
theorem exists_stands_of_run_eq_none (h : calculation.run text skipBlanks text = none) :
    ∃ q s, Stands text q s q.names (calculation.misses text skipBlanks text) := by
  have hstart : Stands text .group text [] [] :=
    ⟨⟨[], [], rfl, .done .group text⟩, .nil _⟩
  have hrest : Tries text
      (.seq negation.option (.seq operand (.seq (.many (.seq binaryOp operand)) .stop))) text []
      (fun _ _ => True) (fun ms => ∃ q s, Stands text q s q.names ms) := by
    refine (tries_negation hstart).seq fun r ms' _ hr => ?_
    refine ((tries_operand hr).imp_right ?_).seq fun r ms' _ hr => ?_
    · rintro ms' - ⟨q, s, -, h⟩
      exact ⟨q, s, h⟩
    · exact (tries_links hr).seq fun _ _ _ h => tries_stop h
  have hrun : Peg.start.run text skipBlanks text = some ([], text) := by
    rw [run_start, if_pos rfl]
  rw [calculation, misses_seq_of_some hrun]
  rcases hrest with ⟨ts, r, hr, -⟩ | ⟨-, hn⟩
  · rw [calculation, run_seq, hrun, Option.bind_some, hr] at h
    cases h
  · exact hn

end Peg

end InfixArith
