import InfixArith.Expression.Terminals
import InfixArith.Proofs.Balance
import InfixArith.Proofs.Outcome

/-!
# Reading the literals

Terminals become tokens when their literals are read.  That succeeds when all of the literals are
readable (`exists_mapM_token`), and otherwise the leftmost one that is not decides
(`mapM_token_eq_error`).  The tokens have the operators of the terminals: each has its own rank
(`hasOwnRank_of_mapM_token`), and the parentheses are the same (`marks_of_mapM_token`).
-/

namespace InfixArith

section

variable (α : Type) [Numeric α]

/-- A literal that stands for a value of the type. -/
def Readable (l : String) : Prop :=
  ∃ v : α, Numeric.parse l = .ok v

end

variable {α : Type} [Numeric α]

/-- A refusal names the literal and the kind. -/
theorem parse_eq_error {l : String} {e : Unreadable} (h : Numeric.parse (α := α) l = .error e) :
    e.text = l ∧ e.kind = Numeric.kind α := by
  obtain ⟨r, -, rfl⟩ := Outcome.mapError_eq_error_iff.1 h
  exact ⟨rfl, rfl⟩

/-- A type without infinite values takes all it can read. -/
theorem parse_eq_mapError_read (h : ∀ v : α, Numeric.isFinite v = true) (l : String) :
    Numeric.parse (α := α) l =
      (Numeric.read l.toList).mapError fun reason => ⟨l, Numeric.kind α, reason⟩ := by
  rw [Numeric.parse, Numeric.readFinite]
  cases Numeric.read (α := α) l.toList with
  | error r => rfl
  | ok v => rw [Outcome.ok_bind, if_pos (h v)]; rfl

/-- All literals are readable, or there is a leftmost one that is not. -/
theorem readable_or_leftmost : ∀ ls : List String, (∀ l ∈ ls, Readable α l) ∨
    ∃ before l after e, ls = before ++ l :: after ∧ (∀ k ∈ before, Readable α k) ∧
      Numeric.parse (α := α) l = .error e
  | [] => .inl nofun
  | l :: ls => by
    cases hl : Numeric.parse (α := α) l with
    | error e => exact .inr ⟨[], l, ls, e, rfl, nofun, hl⟩
    | ok v =>
      have hr : Readable α l := ⟨v, hl⟩
      rcases readable_or_leftmost ls with h | ⟨before, k, after, e, rfl, h, hk⟩
      · exact .inl (List.forall_mem_cons.2 ⟨hr, h⟩)
      · exact .inr ⟨l :: before, k, after, e, rfl, List.forall_mem_cons.2 ⟨hr, h⟩, hk⟩

namespace Terminal

/-! ### The literals of a list -/

theorem literals_cons_number (s : List Char) (ts : List Terminal) :
    literals (.number s :: ts) = String.ofList s :: literals ts := rfl

theorem literals_cons_binary (op : BinaryOp) (ts : List Terminal) :
    literals (.binary op :: ts) = literals ts := rfl

theorem literals_append (ts us : List Terminal) :
    literals (ts ++ us) = literals ts ++ literals us :=
  List.filterMap_append

/-- A terminal that is no number has an operator, and is its token. -/
theorem token_cases (t : Terminal) : (∃ s, t = .number s) ∨
    ∃ op, t.token = .ok (Token.ofOperator op : Token α) ∧
      ∀ ts, literals (t :: ts) = literals ts := by
  cases t with
  | number s => exact .inl ⟨s, rfl⟩
  | negation | opening | closing | binary => exact .inr ⟨_, rfl, fun _ => rfl⟩

/-! ### Tokens for a list -/

theorem mapM_token_append {ts us : List Terminal} {ks ms : List (Token α)}
    (ht : ts.mapM token = .ok ks) (hu : us.mapM token = .ok ms) :
    (ts ++ us).mapM token = .ok (ks ++ ms) := by
  rw [List.mapM_append, ht, hu]
  rfl

theorem mapM_token_cons {t : Terminal} {us : List Terminal} {k : Token α} {ms : List (Token α)}
    (ht : t.token = .ok k) (hu : us.mapM token = .ok ms) :
    (t :: us).mapM token = .ok (k :: ms) := by
  rw [List.mapM_cons, ht, hu]
  rfl

theorem mapM_token_cons_iff {t : Terminal} {us : List Terminal} {ms : List (Token α)} :
    (t :: us).mapM token = .ok ms ↔
      ∃ k ks, t.token = .ok k ∧ us.mapM token = .ok ks ∧ ms = k :: ks := by
  constructor
  · intro h
    rw [List.mapM_cons] at h
    obtain ⟨k, hk, h⟩ := Outcome.bind_eq_ok_iff.1 h
    obtain ⟨ks, hks, h⟩ := Outcome.bind_eq_ok_iff.1 h
    cases h
    exact ⟨k, ks, hk, hks, rfl⟩
  · rintro ⟨k, ks, hk, hks, rfl⟩
    exact mapM_token_cons hk hks

/-- Readable literals are read. -/
theorem exists_mapM_token {ts : List Terminal} (h : ∀ l ∈ literals ts, Readable α l) :
    ∃ ks : List (Token α), ts.mapM token = .ok ks := by
  induction ts with
  | nil => exact ⟨[], rfl⟩
  | cons t ts ih =>
    rcases token_cases (α := α) t with ⟨s, rfl⟩ | ⟨op, hop, hlit⟩
    · rw [literals_cons_number] at h
      obtain ⟨⟨v, hv⟩, h⟩ := List.forall_mem_cons.1 h
      obtain ⟨ks, hks⟩ := ih h
      exact ⟨_, mapM_token_cons (Outcome.map_eq_ok_iff.2 ⟨v, hv, rfl⟩) hks⟩
    · obtain ⟨ks, hks⟩ := ih (hlit ts ▸ h)
      exact ⟨_, mapM_token_cons hop hks⟩

/-- The leftmost literal that is not readable decides. -/
theorem mapM_token_eq_error {ts : List Terminal} {before after : List String} {l : String}
    {e : Unreadable} (h : literals ts = before ++ l :: after)
    (hb : ∀ k ∈ before, Readable α k) (he : Numeric.parse (α := α) l = .error e) :
    ts.mapM (token (α := α)) = .error e := by
  -- a number takes the first literal off the list, and any other terminal leaves it alone
  induction ts generalizing before with
  | nil => simp [literals] at h
  | cons t ts ih =>
    rcases token_cases (α := α) t with ⟨s, rfl⟩ | ⟨op, hop, hlit⟩
    · rw [literals_cons_number] at h
      rcases before with _ | ⟨k, before⟩
      · obtain ⟨rfl, -⟩ := List.cons.inj h
        rw [List.mapM_cons, token, he]
        rfl
      · obtain ⟨rfl, ht⟩ := List.cons.inj h
        obtain ⟨⟨v, hv⟩, hbefore⟩ := List.forall_mem_cons.1 hb
        rw [List.mapM_cons, token, hv, ih ht hbefore]
        rfl
    · rw [List.mapM_cons, hop, ih ((hlit ts).symm.trans h) hb]
      rfl

/-! ### Ranks and parentheses -/

theorem hasOwnRank_of_mapM_token {ts : List Terminal} {ks : List (Token α)}
    (h : ts.mapM token = .ok ks) : ∀ k ∈ ks, k.HasOwnRank := by
  induction ts generalizing ks with
  | nil => cases h; exact nofun
  | cons t ts ih =>
    obtain ⟨k, ks, hk, hks, rfl⟩ := mapM_token_cons_iff.1 h
    refine List.forall_mem_cons.2 ⟨?_, ih hks⟩
    rcases token_cases (α := α) t with ⟨s, rfl⟩ | ⟨op, hop, -⟩
    · obtain ⟨v, -, rfl⟩ := Outcome.map_eq_ok_iff.1 hk
      trivial
    · cases hop.symm.trans hk
      exact rfl

theorem marks_of_mapM_token {ts : List Terminal} {ks : List (Token α)}
    (h : ts.mapM token = .ok ks) : Balanced.marks Token.isOpening Token.isClosing ks =
      Balanced.marks (· == Terminal.opening) (· == Terminal.closing) ts := by
  induction ts generalizing ks with
  | nil => cases h; rfl
  | cons t ts ih =>
    obtain ⟨k, ks, hk, hks, rfl⟩ := mapM_token_cons_iff.1 h
    have head : Balanced.marks Token.isOpening Token.isClosing [k] =
        Balanced.marks (· == Terminal.opening) (· == Terminal.closing) [t] := by
      cases t with
      | number s =>
        obtain ⟨v, -, rfl⟩ := Outcome.map_eq_ok_iff.1 hk
        rfl
      | negation | opening | closing | binary => cases hk; rfl
    rw [← List.singleton_append, Balanced.marks_append, head, ih hks, ← Balanced.marks_append,
      List.singleton_append]

end Terminal

end InfixArith
