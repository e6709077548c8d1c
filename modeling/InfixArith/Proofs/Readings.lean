import InfixArith.Proofs.Greedy
import InfixArith.Proofs.Literals
import InfixArith.Proofs.Places
import InfixArith.Proofs.Tokens

/-!
# Three readings of one text

A text that keeps to the format is read three times: by the grammar, with its blanks; by the
lexer, without them and one lexeme as long as possible after the other; and by the classification,
one lexeme at a time and with a look at the token before it.  They agree (`readings_agree`).  The
lexemes are the words that the grammar finds, and the tokens stand for its terminals, place by
place (`StandsFor`): a minus negates where the grammar has a negation and subtracts where it has a
subtraction.
-/

namespace InfixArith

variable {α : Type} [Numeric α]

namespace Terminal

theorem token_eq_operand_iff {t : Terminal} {v : α} : t.token = .ok (.operand v) ↔
    ∃ s, t = .number s ∧ Numeric.parse (String.ofList s) = .ok v := by
  cases t with
  | number s =>
    constructor
    · intro h
      obtain ⟨w, hw, he⟩ := Outcome.map_eq_ok_iff.1 h
      cases he
      exact ⟨s, rfl, hw⟩
    · rintro ⟨_, ⟨⟩, h⟩
      exact Outcome.map_eq_ok_iff.2 ⟨v, h, rfl⟩
  | negation | opening | closing | binary => exact ⟨nofun, nofun⟩

theorem token_eq_operator_iff {t : Terminal} {op : Operator} {rank : Rank} :
    (t.token : Except Unreadable (Token α)) = .ok (.operator op rank) ↔
      rank = op.rank ∧ t.operator? = some op := by
  cases t with
  | number s =>
    refine ⟨fun h => ?_, nofun⟩
    obtain ⟨w, -, he⟩ := Outcome.map_eq_ok_iff.1 h
    cases he
  | negation | opening | closing | binary =>
    constructor
    · intro h
      cases h
      exact ⟨rfl, rfl⟩
    · rintro ⟨rfl, ⟨⟩⟩
      rfl

/-- There are as many tokens as terminals, and each is that of the terminal at its place. -/
theorem token_at {ts : List Terminal} {ks : List (Token α)} (h : ts.mapM token = .ok ks) (i : Nat) :
    (ts[i]? = none ∧ ks[i]? = none) ∨
      ∃ t k, ts[i]? = some t ∧ ks[i]? = some k ∧ t.token = .ok k := by
  induction ts generalizing ks i with
  | nil =>
    cases h
    exact .inl ⟨rfl, rfl⟩
  | cons t ts ih =>
    obtain ⟨k, ks, hk, hks, rfl⟩ := mapM_token_cons_iff.1 h
    cases i with
    | zero => exact .inr ⟨t, k, rfl, rfl, hk⟩
    | succ i => exact ih hks i

end Terminal

/-- Tokens that stand for terminals, place by place: an operand for a number that it is the value
of, an operator with its own rank for any other terminal. -/
structure StandsFor (ks : List (Token α)) (ts : List Terminal) : Prop where
  length_eq : ks.length = ts.length
  operand_iff : ∀ (i : Nat) (v : α), ks[i]? = some (Token.operand v) ↔
    ∃ s, ts[i]? = some (Terminal.number s) ∧ Numeric.parse (String.ofList s) = .ok v
  operator_iff : ∀ (i : Nat) (op : Operator) (rank : Rank),
    ks[i]? = some (Token.operator op rank) ↔
      rank = op.rank ∧ ∃ t : Terminal, ts[i]? = some t ∧ t.operator? = some op

theorem length_of_mapM_token {ts : List Terminal} {ks : List (Token α)}
    (h : ts.mapM Terminal.token = .ok ks) : ks.length = ts.length := by
  induction ts generalizing ks with
  | nil =>
    cases h
    rfl
  | cons t ts ih =>
    obtain ⟨k, ks, -, hks, rfl⟩ := Terminal.mapM_token_cons_iff.1 h
    rw [List.length_cons, List.length_cons, ih hks]

/-- The tokens of terminals stand for them. -/
theorem standsFor_of_mapM_token {ts : List Terminal} {ks : List (Token α)}
    (h : ts.mapM Terminal.token = .ok ks) : StandsFor ks ts where
  length_eq := length_of_mapM_token h
  operand_iff i v := by
    rcases Terminal.token_at h i with ⟨ht, hk⟩ | ⟨t, k, ht, hk, htoken⟩
    · simp [ht, hk]
    · have := @Terminal.token_eq_operand_iff α _ t v
      rw [htoken] at this
      simpa [ht, hk] using this
  operator_iff i op rank := by
    rcases Terminal.token_at h i with ⟨ht, hk⟩ | ⟨t, k, ht, hk, htoken⟩
    · simp [ht, hk]
    · have := @Terminal.token_eq_operator_iff α _ t op rank
      rw [htoken] at this
      simpa [ht, hk] using this

/-- **Three readings of one text agree.**  The lexemes of a text that keeps to the format have the
texts of the terminals that the grammar finds in it, and in every kind that can read the numbers
among them, the tokens stand for the terminals. -/
theorem readings_agree {text : String} (h : validate text = .ok ()) :
    ∃ ts ls, Peg.match? text.toList = some ts ∧ tokenize text = .ok ls ∧
      ls.map Lexeme.text = ts.map (fun t => String.ofList t.text) ∧
      ∀ (α : Type) [Numeric α], (∀ l ∈ Terminal.literals ts, Readable α l) →
        ∃ ks : List (Token α), classifyAll ls = .ok ks ∧ StandsFor ks ts := by
  obtain ⟨ts, hf⟩ := validate_eq_ok_iff.1 h
  obtain ⟨hfollows, hs⟩ := format_eq_ok_iff.1 hf
  refine ⟨ts, _, match?_eq_some_iff_format.2 hf, hfollows.tokenize_eq hs, ?_, ?_⟩
  · rw [Lexeme.map_text_tile, List.map_map]
    rfl
  · intro α _ hr
    obtain ⟨ks, hks⟩ := Terminal.exists_mapM_token hr
    refine ⟨ks, ?_, standsFor_of_mapM_token hks⟩
    have : classifyAll (α := α) _ = _ := hfollows.classifyAfter_eq ⟨fun _ => rfl, fun _ => rfl⟩ 0
    rw [this, hks]
    rfl

/-- Two minus signs behind blanks: the one after the number subtracts, the one after the
parenthesis negates. -/
theorem readings_agree_minus :
    validate " 25 -\t( -3 )" = .ok () ∧
    ∃ ls, tokenize " 25 -\t( -3 )" = .ok ls ∧
      ls.map Lexeme.text = ["25", "-", "(", "-", "3", ")"] ∧
      ∃ ks : List (Token Int), classifyAll ls = .ok ks ∧
        StandsFor ks [.number ['2', '5'], .binary .subtract, .opening, .negation, .number ['3'],
          .closing] := by
  have h : validate " 25 -\t( -3 )" = .ok () := by decide +kernel
  have hm : Peg.match? " 25 -\t( -3 )".toList = some [.number ['2', '5'], .binary .subtract,
      .opening, .negation, .number ['3'], .closing] := by decide +kernel
  obtain ⟨ts, ls, hts, hls, htexts, htokens⟩ := readings_agree h
  cases hm.symm.trans hts
  have hreadable : ∀ l ∈ Terminal.literals [.number ['2', '5'], .binary .subtract, .opening,
      .negation, .number ['3'], .closing], Readable Int l := by
    refine List.forall_mem_cons.2 ⟨⟨25, by rfl⟩, List.forall_mem_cons.2 ⟨⟨3, by rfl⟩, nofun⟩⟩
  exact ⟨h, ls, hls, htexts, htokens Int hreadable⟩

end InfixArith
