import InfixArith.Lexeme.Basic
import InfixArith.Token.Basic

/-!
# The format of an expression

Before anything is computed a text is held against a format: operands and binary operations
alternate, an operand may stand in opening and closing parentheses, and a minus may stand at the
start and after an opening parenthesis.  Whether the parentheses match is not part of it.  Blanks
may stand between the terminals, not within a numeral.

`terminals` reads a text from the left.  What may come next depends on the last terminal alone
(`Expecting`), and where nothing of it can be read the format is violated (`FormatError`).
-/

namespace InfixArith

/-- The words of the format. -/
inductive Terminal where
  | number (text : List Char)
  | negation
  | opening
  | closing
  | binary (op : BinaryOp)
  deriving DecidableEq, Repr

/-- What may come next: the start of a group, an operand, or what follows an operand. -/
inductive Expecting where
  | group
  | operand
  | continuation
  deriving DecidableEq, Repr

namespace Terminal

/-- How a terminal is written. -/
def text : Terminal → List Char
  | .number s => s
  | .negation => ['-']
  | .opening => ['(']
  | .closing => [')']
  | .binary op => [op.symbol]

/-- What may follow a terminal. -/
def follow : Terminal → Expecting
  | .number _ | .closing => .continuation
  | .negation | .binary _ => .operand
  | .opening => .group

/-- An operand, or the parenthesis in front of it. -/
def operand? : List Char → Option (Terminal × List Char)
  | '(' :: s => some (.opening, s)
  | s => (Lexeme.numeral? s).map fun p => (.number p.1, p.2)

/-- The terminal at the start of a text, of those that may come next, and the text after it. -/
def read? : Expecting → List Char → Option (Terminal × List Char)
  | .group, '-' :: s => some (.negation, s)
  | .group, s => operand? s
  | .operand, s => operand? s
  | .continuation, ')' :: s => some (.closing, s)
  | .continuation, c :: s => (BinaryOp.ofSymbol? c).map fun op => (.binary op, s)
  | .continuation, [] => none

theorem symbol_of_ofSymbol? {c : Char} {op : BinaryOp} (h : BinaryOp.ofSymbol? c = some op) :
    op.symbol = c := by
  unfold BinaryOp.ofSymbol? at h
  split at h <;> cases h <;> rfl

theorem append_of_operand? {s r : List Char} {t : Terminal} (h : operand? s = some (t, r)) :
    s = t.text ++ r := by
  unfold operand? at h
  split at h
  · cases h; rfl
  · obtain ⟨⟨t', r'⟩, hn, he⟩ := Option.map_eq_some_iff.1 h
    cases he
    exact Lexeme.append_of_numeral? hn

/-- A terminal is taken off the start of the text. -/
theorem append_of_read? {q : Expecting} {s r : List Char} {t : Terminal}
    (h : read? q s = some (t, r)) : s = t.text ++ r := by
  unfold read? at h
  split at h
  · cases h; rfl
  · exact append_of_operand? h
  · exact append_of_operand? h
  · cases h; rfl
  · obtain ⟨op, ho, he⟩ := Option.map_eq_some_iff.1 h
    cases he
    simp [text, symbol_of_ofSymbol? ho]
  · cases h

theorem text_ne_nil_of_read? {q : Expecting} {s r : List Char} {t : Terminal}
    (h : read? q s = some (t, r)) : t.text ≠ [] := by
  cases t with
  | number n =>
    have key : ∀ s, operand? s = some (.number n, r) → n ≠ [] := by
      intro s h
      unfold operand? at h
      split at h
      · cases h
      · obtain ⟨⟨t', r'⟩, hn, he⟩ := Option.map_eq_some_iff.1 h
        cases he
        exact Lexeme.ne_nil_of_numeral? hn
    unfold read? at h
    split at h
    · cases h
    · exact key _ h
    · exact key _ h
    · cases h
    · obtain ⟨op, _, he⟩ := Option.map_eq_some_iff.1 h
      cases he
    · cases h
  | negation | opening | closing | binary => simp [text]

theorem length_lt_of_read? {q : Expecting} {s r : List Char} {t : Terminal}
    (h : read? q s = some (t, r)) : r.length < s.length := by
  have := List.length_pos_iff.2 (text_ne_nil_of_read? h)
  rw [append_of_read? h, List.length_append]
  omega

end Terminal

/-! ### Reading a whole text -/

/-- A text without the blanks in front. -/
def skipBlanks (s : List Char) : List Char :=
  s.dropWhile Text.isBlank

theorem length_skipBlanks_le (s : List Char) : (skipBlanks s).length ≤ s.length :=
  (List.dropWhile_sublist _).length_le

/-- The terminals of a text, read where `q` may come next; or, if the text breaks off or goes
wrong, what might have come there and the text that did. -/
def terminals (q : Expecting) (s : List Char) : Except (Expecting × List Char) (List Terminal) :=
  match _h : Terminal.read? q (skipBlanks s) with
  | some (t, r) => (terminals t.follow r).map (t :: ·)
  | none => if q = .continuation ∧ skipBlanks s = [] then .ok [] else .error (q, skipBlanks s)
termination_by s.length
decreasing_by
  have := Terminal.length_lt_of_read? _h
  have := length_skipBlanks_le s
  omega

/-! ### Violations -/

/-- A text that violates the format: the part that keeps to it, the part that does not, and what
might have stood between them. -/
structure FormatError where
  before : List Char
  after : List Char
  expecting : Expecting
  deriving DecidableEq, Repr

namespace Expecting

/-- The names of what may come next. -/
def names : Expecting → List String
  | .group => ["number", "neg", "open"]
  | .operand => ["number", "open"]
  | .continuation => ["EOI", "add", "subtract", "multiply", "divide", "close"]

/-- Names as a choice. -/
def choice : List String → String
  | [] => ""
  | [a] => a
  | [a, b] => a ++ " or " ++ b
  | a :: b :: c :: rest =>
    ", ".intercalate (a :: b :: (c :: rest).dropLast) ++ ", or " ++ (c :: rest).getLast (by simp)

end Expecting

namespace FormatError

/-- The place of the violation, in bytes. -/
def position (e : FormatError) : Nat :=
  Text.byteSize e.before

/-- The number of the line it stands in, from one on. -/
def line (e : FormatError) : Nat :=
  e.before.count '\n' + 1

/-- The characters of that line before it. -/
def margin (e : FormatError) : List Char :=
  (e.before.reverse.takeWhile (· != '\n')).reverse

/-- The number of the character it stands at, within the line, from one on. -/
def column (e : FormatError) : Nat :=
  e.margin.length + 1

/-- The line it stands in, with the line break, if any, at its end. -/
def lineText (e : FormatError) : List Char :=
  e.margin ++ e.after.takeWhile (· != '\n') ++ (e.after.dropWhile (· != '\n')).take 1

/-- The line as a message shows it: line breaks are left out, or made visible if the violation is
one of them. -/
def shownLine (e : FormatError) : List Char :=
  if e.after.head? = some '\n' ∨ e.after.head? = some '\r' then
    e.lineText.map fun c => if c = '\r' then '\u240d' else if c = '\n' then '\u240a' else c
  else e.lineText.filter fun c => c != '\r' && c != '\n'

/-- What stands under the line, so that a mark after it points at the violation. -/
def underline (e : FormatError) : List Char :=
  e.margin.map fun c => if c = '\t' then '\t' else ' '

/-- The line with its number, a mark at the violation, and what was expected there. -/
def report (e : FormatError) : String :=
  let number := e.line.repr
  let blank := String.ofList (List.replicate number.length ' ')
  "\n".intercalate [
    blank ++ "--> " ++ number ++ ":" ++ e.column.repr,
    blank ++ " |",
    number ++ " | " ++ String.ofList e.shownLine,
    blank ++ " | " ++ String.ofList e.underline ++ "^---",
    blank ++ " |",
    blank ++ " = expected " ++ Expecting.choice e.expecting.names]

end FormatError

/-- The terminals of a text that keeps to the format. -/
def format (text : String) : Except FormatError (List Terminal) :=
  (terminals .group text.toList).mapError fun stop =>
    ⟨text.toList.take (text.toList.length - stop.2.length), stop.2, stop.1⟩

end InfixArith
