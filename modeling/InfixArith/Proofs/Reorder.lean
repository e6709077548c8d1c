import InfixArith.Expression.Grammar
import InfixArith.Token.Postfix

/-!
# Postfix order of a derivation

The stack holds the operators that wait, and nothing of the tree.  What a part of an expression
does to it can be said without the tree all the same.  A part *reads as* a list above a rank
(`ReadsAs`) if, put on any stack whose top binds more loosely than that, it leaves that stack in
place with operators on top of it that bind at least as tightly, and what it has released makes
up the list together with these.  A closed part, an operand or a group, *reads whole*
(`ReadsWhole`): it leaves nothing behind, on any stack at all.

Each rule of the grammar has its lemma (`ReadsAs.group`, `ReadsWhole.negate`, `ReadsAs.binary`),
so by induction a derivation reads as its tree in postfix order (`DerivesTokens.reads`), and
`toPostfix_of_derivesTokens` is the case of the empty stack.
-/

namespace InfixArith

namespace Rank

theorem lt_of_lt_of_le {r s t : Rank} (h : r < s) (h' : s ≤ t) : r < t := by
  rw [lt_def, le_def] at *
  omega

theorem le_trans {r s t : Rank} (h : r ≤ s) (h' : s ≤ t) : r ≤ t := by
  rw [le_def] at *
  omega

theorem le_of_lt {r s : Rank} (h : r < s) : r ≤ s := by
  rw [lt_def, le_def] at *
  omega

theorem le_refl (r : Rank) : r ≤ r :=
  Nat.le_refl r.ordinal

theorem not_le {r s : Rank} : ¬ s ≤ r ↔ r < s := by
  rw [lt_def, le_def]
  omega

end Rank

/-! ### The top of the stack -/

namespace Waiting

theorem yields_iff {rank : Rank} {w : Waiting} : w.yields rank = true ↔ rank ≤ w.rank := by
  simp [yields]

/-- The operators on top that yield are exactly those above a looser one. -/
theorem takeWhile_yields {rank : Rank} {pending base : List Waiting}
    (hp : ∀ w ∈ pending, rank ≤ w.rank) (hb : ∀ w ∈ base.head?, w.rank < rank) :
    (pending ++ base).takeWhile (yields rank) = pending := by
  rw [List.takeWhile_append_of_pos fun w hw => yields_iff.2 (hp w hw)]
  cases base with
  | nil => simp
  | cons w base =>
    have : ¬ w.yields rank = true := fun h => Rank.not_le.2 (hb w rfl) (yields_iff.1 h)
    simp [this]

theorem dropWhile_yields {rank : Rank} {pending base : List Waiting}
    (hp : ∀ w ∈ pending, rank ≤ w.rank) (hb : ∀ w ∈ base.head?, w.rank < rank) :
    (pending ++ base).dropWhile (yields rank) = base := by
  rw [List.dropWhile_append_of_pos fun w hw => yields_iff.2 (hp w hw)]
  cases base with
  | nil => rfl
  | cons w base =>
    have : ¬ w.yields rank = true := fun h => Rank.not_le.2 (hb w rfl) (yields_iff.1 h)
    simp [this]

/-- The operators on top of an opening parenthesis. -/
theorem takeWhile_isInner {rank : Rank} {pending base : List Waiting}
    (hp : ∀ w ∈ pending, w.isInner = true) :
    (pending ++ ⟨.opening, rank⟩ :: base).takeWhile isInner = pending := by
  rw [List.takeWhile_append_of_pos hp]
  simp [isInner]

theorem dropWhile_isInner {rank : Rank} {pending base : List Waiting}
    (hp : ∀ w ∈ pending, w.isInner = true) :
    (pending ++ ⟨.opening, rank⟩ :: base).dropWhile isInner = ⟨.opening, rank⟩ :: base := by
  rw [List.dropWhile_append_of_pos hp]
  simp [isInner]

end Waiting

namespace Token

variable {α : Type}

/-! ### Reading -/

theorem read_closing {rank rank' : Rank} {pending base : List Waiting}
    (hp : ∀ w ∈ pending, w.isInner = true) :
    read (pending ++ ⟨.opening, rank⟩ :: base) (.operator .closing rank' : Token α) =
      some (pending.map Waiting.token, base) := by
  simp only [read, Waiting.takeWhile_isInner hp, Waiting.dropWhile_isInner hp]

/-- An operator other than a parenthesis releases those that yield to it, and waits. -/
theorem read_operator {op : Operator} (ho : op ≠ .opening) (hc : op ≠ .closing) (rank : Rank)
    (stack : List Waiting) : read stack (.operator op rank : Token α) =
      some ((stack.takeWhile (Waiting.yields rank)).map Waiting.token,
        ⟨op, rank⟩ :: stack.dropWhile (Waiting.yields rank)) := by
  cases op with
  | opening => exact absurd rfl ho
  | closing => exact absurd rfl hc
  | negate | binary => rfl

theorem readAll_nil (stack : List Waiting) :
    readAll stack ([] : List (Token α)) = some ([], stack) := rfl

theorem readAll_cons (stack : List Waiting) (t : Token α) (ts : List (Token α)) :
    readAll stack (t :: ts) = (read stack t).bind fun p =>
      (readAll p.2 ts).map fun q => (p.1 ++ q.1, q.2) := by
  rw [readAll]
  cases read stack t with
  | none => rfl
  | some p =>
    show (readAll p.2 ts >>= fun q => some (p.1 ++ q.1, q.2)) = _
    cases h : readAll p.2 ts <;> simp [h]

/-- Tokens are read one part after the other. -/
theorem readAll_append (stack : List Waiting) (ts us : List (Token α)) :
    readAll stack (ts ++ us) = (readAll stack ts).bind fun p =>
      (readAll p.2 us).map fun q => (p.1 ++ q.1, q.2) := by
  induction ts generalizing stack with
  | nil =>
    rw [List.nil_append, readAll_nil]
    simp
  | cons t ts ih =>
    rw [List.cons_append, readAll_cons, readAll_cons]
    cases read stack t with
    | none => rfl
    | some p =>
      rw [Option.bind_some, Option.bind_some, ih]
      cases readAll p.2 ts with
      | none => rfl
      | some q => cases h : readAll q.2 us <;> simp [h]

/-- The tokens in postfix order are those released while reading, and then those on the stack. -/
theorem toPostfix_eq_ok_iff {ts out : List (Token α)} : toPostfix ts = .ok out ↔
    ∃ p, readAll [] ts = some p ∧ p.2.all Waiting.isInner = true ∧
      p.1 ++ p.2.map Waiting.token = out := by
  cases hr : readAll [] ts with
  | none => simp [toPostfix, reorder?, hr]
  | some p =>
    by_cases hz : p.2.all Waiting.isInner = true
    · have hf : flush p.2 = some (p.2.map (Waiting.token (α := α))) := if_pos hz
      have : toPostfix ts = .ok (p.1 ++ p.2.map Waiting.token) := by
        simp [toPostfix, reorder?, hr, hf]
      rw [this]
      constructor
      · rintro ⟨⟩
        exact ⟨p, rfl, hz, rfl⟩
      · rintro ⟨_, ⟨⟩, -, rfl⟩
        rfl
    · have hf : flush p.2 = (none : Option (List (Token α))) := if_neg hz
      have : toPostfix ts = .error .unbalanced := by simp [toPostfix, reorder?, hr, hf]
      rw [this]
      constructor
      · exact nofun
      · rintro ⟨_, ⟨⟩, h, -⟩
        exact absurd h hz

/-- Put on a stack whose top is looser than `floor`, the tokens leave operators there that are
not; these and what was released before make up `out`. -/
def ReadsAs (floor : Rank) (ts out : List (Token α)) : Prop :=
  ∀ base : List Waiting, (∀ w ∈ base.head?, w.rank < floor) →
    ∃ released pending, readAll base ts = some (released, pending ++ base) ∧
      released ++ pending.map Waiting.token = out ∧
      (∀ w ∈ pending, w.isInner = true) ∧ ∀ w ∈ pending, floor ≤ w.rank

/-- Put on any stack, the tokens are released as `out` and leave the stack as it was. -/
def ReadsWhole (ts out : List (Token α)) : Prop :=
  ∀ base : List Waiting, readAll base ts = some (out, base)

theorem ReadsWhole.operand (v : α) : ReadsWhole [.operand v] [.operand v] :=
  fun _ => rfl

theorem ReadsWhole.readsAs {ts out : List (Token α)} (h : ReadsWhole ts out) (floor : Rank) :
    ReadsAs floor ts out := fun base _ =>
  ⟨out, [], h base, List.append_nil _, nofun, nofun⟩

theorem ReadsAs.mono {floor floor' : Rank} (hle : floor ≤ floor') {ts out : List (Token α)}
    (h : ReadsAs floor' ts out) : ReadsAs floor ts out := by
  intro base hb
  obtain ⟨released, pending, hr, ho, hi, hp⟩ :=
    h base fun w hw => Rank.lt_of_lt_of_le (hb w hw) hle
  exact ⟨released, pending, hr, ho, hi, fun w hw => Rank.le_trans hle (hp w hw)⟩

/-- **A group reads whole**: its opening parenthesis is looser than all it holds, and its closing
one releases what still waits above. -/
theorem ReadsAs.group {ts out : List (Token α)} (h : ReadsAs .additive ts out) :
    ReadsWhole (.ofOperator .opening :: ts ++ [.ofOperator .closing]) out := by
  intro base
  have hb : ∀ w ∈ (⟨.opening, .parentheses⟩ :: base : List Waiting).head?,
      w.rank < .additive := by
    rintro _ ⟨⟩
    exact Nat.zero_lt_one
  obtain ⟨released, pending, hr, ho, hi, -⟩ := h _ hb
  have hopen : read base (ofOperator .opening : Token α) =
      some ([], ⟨.opening, .parentheses⟩ :: base) := rfl
  have hclose : readAll (pending ++ ⟨.opening, .parentheses⟩ :: base)
      [(ofOperator .closing : Token α)] = some (pending.map Waiting.token, base) := by
    rw [readAll_cons, ofOperator, read_closing hi]
    simp [readAll_nil]
  rw [List.cons_append, readAll_cons, hopen, Option.bind_some, readAll_append, hr, Option.bind_some,
    hclose]
  simp [ho]

/-- **A minus waits for its operand**, which nothing comes between. -/
theorem ReadsWhole.negate {ts out : List (Token α)} (h : ReadsWhole ts out) :
    ReadsAs .unaryMinus (.ofOperator .negate :: ts) (out ++ [.ofOperator .negate]) := by
  intro base hb
  have hread : read base (ofOperator .negate : Token α) =
      some ([], ⟨.negate, .unaryMinus⟩ :: base) := by
    have ht : base.takeWhile (Waiting.yields .unaryMinus) = [] :=
      @Waiting.takeWhile_yields _ [] base nofun hb
    have hd : base.dropWhile (Waiting.yields .unaryMinus) = base :=
      @Waiting.dropWhile_yields _ [] base nofun hb
    rw [ofOperator, read_operator (by simp) (by simp), Operator.rank, ht, hd]
    rfl
  refine ⟨out, [⟨.negate, .unaryMinus⟩], ?_, rfl, ?_, ?_⟩
  · rw [readAll_cons, hread, Option.bind_some, h]
    simp
  · simp [Waiting.isInner]
  · simp [Rank.le_refl]

/-- **A binary operation waits below the tighter ones of its right operand**, and releases those
of its left operand first, so operations of one rank group to the left. -/
theorem ReadsAs.binary {floor floor' : Rank} (hlt : floor < floor') {op : BinaryOp}
    (hop : op.rank = floor) {ts us out out' : List (Token α)} (hl : ReadsAs floor ts out)
    (hr : ReadsAs floor' us out') : ReadsAs floor (ts ++ .ofOperator (.binary op) :: us)
      (out ++ out' ++ [.ofOperator (.binary op)]) := by
  intro base hb
  obtain ⟨released, pending, hread, ho, hi, hp⟩ := hl base hb
  -- what waits from the left operand is released, and nothing below it
  have hread' : read (pending ++ base) (ofOperator (.binary op) : Token α) =
      some (pending.map Waiting.token, ⟨.binary op, floor⟩ :: base) := by
    rw [ofOperator, read_operator (by simp) (by simp), Operator.rank, hop,
      Waiting.takeWhile_yields hp hb, Waiting.dropWhile_yields hp hb]
  have hb' : ∀ w ∈ (⟨.binary op, floor⟩ :: base : List Waiting).head?, w.rank < floor' := by
    rintro _ ⟨⟩
    exact hlt
  obtain ⟨released', pending', hread'', ho', hi', hp'⟩ := hr _ hb'
  refine ⟨out ++ released', pending' ++ [⟨.binary op, floor⟩], ?_, ?_, ?_, ?_⟩
  · rw [readAll_append, hread, Option.bind_some, readAll_cons, hread', Option.bind_some, hread'']
    simp [← ho]
  · simp [← ho', Waiting.token, ofOperator, Operator.rank, hop]
  · simpa [or_imp, forall_and, Waiting.isInner] using hi'
  · have : ∀ w ∈ pending', floor ≤ w.rank := fun w hw =>
      Rank.le_trans (Rank.le_of_lt hlt) (hp' w hw)
    simpa [or_imp, forall_and, Rank.le_refl] using this

theorem ReadsAs.toPostfix_eq {floor : Rank} {ts out : List (Token α)} (h : ReadsAs floor ts out) :
    toPostfix ts = .ok out := by
  obtain ⟨released, pending, hr, ho, hi, -⟩ := h [] nofun
  rw [List.append_nil] at hr
  exact toPostfix_eq_ok_iff.2 ⟨(released, pending), hr, List.all_eq_true.2 hi, ho⟩

end Token

/-! ### Derivations -/

open Token

variable {α : Type}

/-- How the tokens of a part are read. -/
def TokenPart.Reads : TokenPart → List (Token α) → List (Token α) → Prop
  | .primary => ReadsWhole
  | .unary => ReadsAs .unaryMinus
  | .product => ReadsAs .multiplicative
  | .sum => ReadsAs .additive

/-- **A derivation reads as its tree in postfix order.** -/
theorem DerivesTokens.reads {p : TokenPart} {ts : List (Token α)} {t : Tree α}
    (h : DerivesTokens p ts t) : p.Reads ts t.postorder := by
  have product_lt_unary : Rank.multiplicative < .unaryMinus := by decide
  have sum_lt_product : Rank.additive < .multiplicative := by decide
  induction h with
  | operand v => exact .operand v
  | group _ ih => exact ReadsAs.group ih
  | primary _ ih => exact ReadsWhole.readsAs ih _
  | negate _ ih => exact ReadsWhole.negate ih
  | unary _ ih => exact ReadsAs.mono (Rank.le_of_lt product_lt_unary) ih
  | multiply hop _ _ ihl ihr => exact ReadsAs.binary product_lt_unary (BinaryOp.rank_of_product hop) ihl ihr
  | product _ ih => exact ReadsAs.mono (Rank.le_of_lt sum_lt_product) ih
  | add hop _ _ ihl ihr => exact ReadsAs.binary sum_lt_product (BinaryOp.rank_of_sum hop) ihl ihr

theorem toPostfix_of_derivesTokens {ts : List (Token α)} {t : Tree α}
    (h : DerivesTokens .sum ts t) : toPostfix ts = .ok t.postorder :=
  ReadsAs.toPostfix_eq h.reads

end InfixArith
