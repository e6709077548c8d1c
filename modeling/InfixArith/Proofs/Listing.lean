import InfixArith.Proofs.Conservation
import InfixArith.Proofs.Printing

/-!
# Listings, read back

A listing has one word for each token: some text without a space (`Token.isWord_render`).  So the
listing can be cut at its spaces, and there are the words again (`intercalate_inj`).  In the integer
kinds each word belongs to one token: different integers have different digits or signs, and none of
them is written as an operator is, not even the lone minus (`Token.render_inj`).  Hence a listing
tells which tokens are in it, and the texts that are brought into an order with this listing all
have the same value (`Token.listing_inj`, `listing_unambiguous`).
-/

namespace InfixArith

/-! ### Words -/

/-- Some text, without a space in it. -/
def IsWord (s : List Char) : Prop :=
  s ≠ [] ∧ ' ' ∉ s

/-- Words are found again between the spaces that join them. -/
theorem splitOn_intercalate_of_isWord {ts : List (List Char)} (h : ∀ t ∈ ts, IsWord t)
    (hne : ts ≠ []) : ([' '].intercalate ts).splitOn ' ' = ts :=
  List.splitOn_intercalate ' ' (fun t ht => (h t ht).2) hne

theorem intercalate_eq_nil_iff {ts : List (List Char)} (h : ∀ t ∈ ts, IsWord t) :
    [' '].intercalate ts = [] ↔ ts = [] := by
  constructor
  · intro hnil
    by_contra hne
    -- between no spaces there would be one empty word
    have hsplit := splitOn_intercalate_of_isWord h hne
    rw [hnil, List.splitOn_nil] at hsplit
    exact (h [] (hsplit ▸ List.mem_singleton_self [])).1 rfl
  · rintro rfl
    rfl

/-- **Words joined by spaces are told apart.** -/
theorem intercalate_inj {ts us : List (List Char)} (ht : ∀ t ∈ ts, IsWord t)
    (hu : ∀ u ∈ us, IsWord u) (h : [' '].intercalate ts = [' '].intercalate us) : ts = us := by
  by_cases hnil : ts = []
  · subst hnil
    exact ((intercalate_eq_nil_iff hu).1 h.symm).symm
  · have hne : us ≠ [] := fun hus => hnil ((intercalate_eq_nil_iff ht).1 (by rw [h, hus]; rfl))
    rw [← splitOn_intercalate_of_isWord ht hnil, h, splitOn_intercalate_of_isWord hu hne]

/-! ### The words of values -/

theorem not_mem_of_isDigits {s : List Char} (h : ∀ c ∈ s, c.isDigit = true) : ' ' ∉ s :=
  fun hc => absurd (h ' ' hc) (by decide)

theorem isWord_repr (n : Int) : IsWord n.repr.toList := by
  have hspace := fun m => not_mem_of_isDigits (isDigits_toDigits m).2
  rcases repr_cases n with ⟨m, -, htext⟩ | ⟨m, -, -, htext⟩
  · rw [htext, String.toList_ofList]
    exact ⟨(isDigits_toDigits m).1, hspace m⟩
  · rw [htext, String.toList_ofList]
    exact ⟨List.cons_ne_nil _ _, fun h => hspace m (by simpa using h)⟩

/-- Padding and a point leave the digits a word. -/
theorem Decimal.isWord_positional (d : Decimal) : IsWord d.positional := by
  have hdigits : ∀ places : Nat, ∀ c ∈ List.replicate places '0' ++
      (Nat.toDigits 10 d.digits ++ List.replicate d.exponent.toNat '0'), c.isDigit = true := by
    intro places c hc
    rcases List.mem_append.1 hc with hc | hc
    · exact List.eq_of_mem_replicate hc ▸ rfl
    rcases List.mem_append.1 hc with hc | hc
    · exact (isDigits_toDigits _).2 c hc
    · exact List.eq_of_mem_replicate hc ▸ rfl
  unfold positional
  dsimp only
  split
  · exact ⟨by simp [Nat.toDigits_ne_nil], not_mem_of_isDigits (hdigits _)⟩
  · refine ⟨by simp, fun h => ?_⟩
    rcases List.mem_append.1 h with h | h
    · exact not_mem_of_isDigits (hdigits _) (List.mem_of_mem_take h)
    · rcases List.mem_cons.1 h with h | h
      · cases h
      · exact not_mem_of_isDigits (hdigits _) (List.mem_of_mem_drop h)

namespace BinaryFormat

variable (f : BinaryFormat)

theorem isWord_renderMagnitude (magnitude : Nat) : IsWord (f.renderMagnitude magnitude) := by
  unfold renderMagnitude
  split
  · exact ⟨nofun, by decide⟩
  split
  · exact ⟨nofun, by decide⟩
  · exact Decimal.isWord_positional _

theorem isWord_render (bits : Nat) : IsWord (f.render bits).toList := by
  have hword := f.isWord_renderMagnitude (bits % f.signBit)
  unfold render
  dsimp only
  split
  · exact ⟨by decide, by decide⟩
  split
  · rw [String.toList_ofList]
    exact ⟨nofun, fun h => hword.2 (by simpa using h)⟩
  · rwa [String.toList_ofList]

end BinaryFormat

/-- The text of a value is a word, of whatever kind it is. -/
theorem Kind.isWord_render (k : Kind) (v : k.Value) : IsWord (Numeric.render v).toList := by
  cases k with
  | int32 | int64 => exact isWord_repr (Signed.val v)
  | bigint => exact isWord_repr v
  | float32 => exact BinaryFormat.single.isWord_render _
  | float64 => exact BinaryFormat.double.isWord_render _

/-! ### The words of tokens -/

theorem Operator.isWord_symbol (op : Operator) : IsWord op.symbol := by
  cases op with
  | opening | closing | negate => exact ⟨nofun, by decide⟩
  | binary op => cases op <;> exact ⟨nofun, by decide⟩

theorem Token.isWord_render {k : Kind} (t : Token k.Value) : IsWord t.render := by
  cases t with
  | operand v => exact k.isWord_render v
  | operator op rank => exact op.isWord_symbol

/-! ### Words of one token each -/

theorem BinaryOp.symbol_injective : Function.Injective BinaryOp.symbol := by
  intro op op' h
  cases op <;> cases op' <;> first | rfl | exact absurd h (by decide)

theorem Operator.symbol_injective : Function.Injective Operator.symbol := by
  intro op op' h
  cases op with
  | opening | closing | negate =>
    cases op' with
    | opening | closing | negate => first | rfl | exact absurd h (by decide)
    | binary op' => cases op' <;> exact absurd h (by decide)
  | binary op =>
    cases op' with
    | opening | closing | negate => cases op <;> exact absurd h (by decide)
    | binary op' => rw [BinaryOp.symbol_injective (List.singleton_inj.1 h)]

/-- Different integers have different texts, since each is read from its text. -/
theorem repr_injective : Function.Injective Int.repr := by
  intro n m h
  have hread := Integer.read_repr n
  rw [h, Integer.read_repr m] at hread
  exact (Except.ok.inj hread).symm

theorem exists_isDigit_repr (n : Int) : ∃ c ∈ n.repr.toList, c.isDigit = true := by
  rcases repr_cases n with ⟨m, -, htext⟩ | ⟨m, -, -, htext⟩
  all_goals
    obtain ⟨hne, hdigit⟩ := isDigits_toDigits m
    obtain ⟨c, hc⟩ := List.exists_mem_of_ne_nil _ hne
    rw [htext, String.toList_ofList]
  · exact ⟨c, hc, hdigit c hc⟩
  · exact ⟨c, List.mem_cons_of_mem _ hc, hdigit c hc⟩

theorem Operator.all_symbol (op : Operator) : op.symbol.all (fun c => !c.isDigit) = true := by
  cases op with
  | opening | closing | negate => rfl
  | binary op => cases op <;> rfl

/-- The text of an integer has a digit, and a symbol has none. -/
theorem repr_ne_symbol (n : Int) (op : Operator) : n.repr.toList ≠ op.symbol := by
  intro h
  obtain ⟨c, hc, hd⟩ := exists_isDigit_repr n
  have hnone := List.all_eq_true.1 op.all_symbol c (h ▸ hc)
  rw [hd] at hnone
  cases hnone

/-- The values of an integer kind are printed as the integers they are. -/
theorem Kind.exists_repr {k : Kind} (hk : k.isInteger = true) :
    ∃ toInt : k.Value → Int, Function.Injective toInt ∧
      ∀ v, Numeric.render v = (toInt v).repr := by
  cases k with
  | int32 | int64 => exact ⟨Signed.val, fun _ _ => Signed.ext, fun _ => rfl⟩
  | bigint => exact ⟨id, Function.injective_id, fun _ => rfl⟩
  | float32 | float64 => cases hk

section

variable {k : Kind} {ts us : List (Token k.Value)}

/-- A word of an integer kind belongs to one token, if ranks are the operators' own. -/
theorem Token.render_inj (hk : k.isInteger = true) {t u : Token k.Value} (ht : t.HasOwnRank)
    (hu : u.HasOwnRank) (h : t.render = u.render) : t = u := by
  obtain ⟨toInt, hinj, hrender⟩ := Kind.exists_repr hk
  have hne : ∀ (v : k.Value) (op : Operator), (Numeric.render v).toList ≠ op.symbol :=
    fun v op => hrender v ▸ repr_ne_symbol (toInt v) op
  cases t with
  | operand v =>
    cases u with
    | operand w =>
      have htext : Numeric.render v = Numeric.render w := String.toList_injective h
      rw [hrender, hrender] at htext
      rw [hinj (repr_injective htext)]
    | operator op rank => exact absurd h (hne v op)
  | operator op rank =>
    cases u with
    | operand w => exact absurd h.symm (hne w op)
    | operator op' rank' =>
      obtain rfl : op = op' := Operator.symbol_injective h
      obtain rfl : rank = op.rank := ht
      obtain rfl : rank' = op.rank := hu
      rfl

/-- **A listing tells which tokens are in it.** -/
theorem Token.listing_inj (hk : k.isInteger = true) (ht : ∀ t ∈ ts, t.HasOwnRank)
    (hu : ∀ u ∈ us, u.HasOwnRank) (h : listing ts = listing us) : ts = us := by
  have hwords : ∀ ks : List (Token k.Value), ∀ s ∈ ks.map render, IsWord s :=
    fun ks => List.forall_mem_map.2 fun t _ => isWord_render t
  have htexts : ts.map render = us.map render :=
    intercalate_inj (hwords ts) (hwords us) (String.ofList_injective h)
  clear h
  induction ts generalizing us with
  | nil => exact (List.map_eq_nil_iff.1 htexts.symm).symm
  | cons t ts ih =>
    obtain ⟨u, us, rfl, htext, hrest⟩ := List.map_eq_cons_iff.1 htexts.symm
    obtain ⟨ht, hts⟩ := List.forall_mem_cons.1 ht
    obtain ⟨hu, hus⟩ := List.forall_mem_cons.1 hu
    rw [render_inj hk ht hu htext.symm, ih hts hus hrest.symm]

end

/-! ### Texts with one listing -/

/-- What comes into postfix order has its own rank. -/
theorem hasOwnRank_of_postfixOf {α : Type} [Numeric α] {text : String} {out : List (Token α)}
    (h : postfixOf text = .ok out) : ∀ t ∈ out, t.HasOwnRank := by
  obtain ⟨ts, ks, -, hks, hout⟩ := postfixOf_eq_ok_iff.1 h
  intro t ht
  exact Terminal.hasOwnRank_of_mapM_token hks t ((Token.toPostfix_sheds hout).subset ht)

/-- **Listings are unambiguous.**  In the integer kinds, tokens with their own ranks are known from
their listing; so texts with one listing have one value, or fail alike. -/
theorem listing_unambiguous {k : Kind} (hk : k.isInteger = true) :
    (∀ ts us : List (Token k.Value), (∀ t ∈ ts, t.HasOwnRank) → (∀ u ∈ us, u.HasOwnRank) →
      Token.listing ts = Token.listing us → ts = us) ∧
    ∀ (text other : String) (ts us : List (Token k.Value)), postfixOf text = .ok ts →
      postfixOf other = .ok us → Token.listing ts = Token.listing us →
        evaluate (α := k.Value) text = evaluate other := by
  refine ⟨fun ts us => Token.listing_inj hk, fun text other ts us ht hu h => ?_⟩
  have hrank := hasOwnRank_of_postfixOf ht
  obtain rfl := Token.listing_inj hk hrank (hasOwnRank_of_postfixOf hu) h
  rw [evaluate_eq, evaluate_eq, ht, hu]

/-- Neither blanks nor superfluous parentheses are listed. -/
theorem listing_unambiguous_parentheses : ∃ ts : List (Token (Kind.Value .int64)),
    postfixOf "2 - (-3)" = .ok ts ∧ postfixOf "2-((-3))" = .ok ts ∧
    Token.listing ts = "2 3 neg -" ∧
    evaluate (α := Kind.Value .int64) "2 - (-3)" = evaluate "2-((-3))" := by
  let ts : List (Token (Kind.Value .int64)) := [.operand ⟨2, by decide, by decide⟩,
    .operand ⟨3, by decide, by decide⟩, .ofOperator .negate, .ofOperator (.binary .subtract)]
  have ht : postfixOf "2 - (-3)" = .ok ts := by decide +kernel
  have hu : postfixOf "2-((-3))" = .ok ts := by decide +kernel
  have hlisting : Token.listing ts = "2 3 neg -" := by decide +kernel
  exact ⟨ts, ht, hu, hlisting, (listing_unambiguous rfl).2 _ _ _ _ ht hu rfl⟩

end InfixArith
