import InfixArith.Format

/-!
# The format as a grammar

The format can also be written as a grammar of parsing expressions (`Peg`).  Such an expression
is matched from the left and takes back nothing (`Peg.run`): a choice is settled by the first
branch that matches, an option is taken if it can be, and a repetition goes on as long as it can,
even if the rest then has no match.  Between the parts of a sequence and between the turns of a
repetition blanks are skipped, but not within a word.

`Peg.calculation` is the grammar of the format, and `Peg.match?` the terminals it finds in a text.
-/

namespace InfixArith

/-- A parsing expression. -/
inductive Peg where
  /-- A character of a class. -/
  | char (p : Char → Bool)
  /-- The start of the text. -/
  | start
  /-- The end of the text. -/
  | stop
  /-- One expression after the other. -/
  | seq (e f : Peg)
  /-- The second expression where the first has no match. -/
  | choice (e f : Peg)
  /-- The expression, or nothing where it has no match. -/
  | option (e : Peg)
  /-- The expression, as often as it matches. -/
  | many (e : Peg)
  /-- An expression with no blanks inside, and the terminal of what it takes. -/
  | word (terminal : List Char → Terminal) (e : Peg)

namespace Peg

/-- Takes step after step as long as there is one: the terminals of all, and the text after the
last.  A step that takes nothing is the last. -/
def iterate (step : List Char → Option (List Terminal × List Char)) (s : List Char) :
    List Terminal × List Char :=
  match step s with
  | none => ([], s)
  | some (ts, r) =>
    if r.length < s.length then (ts ++ (iterate step r).1, (iterate step r).2) else (ts, r)
termination_by s.length

/-- The terminals that an expression matches at the start of `s`, and the text after them.  `text`
is the whole text, of which `s` is left, and `skip` passes over what may stand between parts. -/
def run (text : List Char) (skip : List Char → List Char) :
    Peg → List Char → Option (List Terminal × List Char)
  | .char _, [] => none
  | .char p, c :: s => if p c then some ([], s) else none
  | .start, s => if s = text then some ([], s) else none
  | .stop, s => if s = [] then some ([], s) else none
  | .seq e f, s => do
    let (ts, r) ← run text skip e s
    let (us, r) ← run text skip f (skip r)
    return (ts ++ us, r)
  | .choice e f, s => run text skip e s <|> run text skip f s
  | .option e, s => run text skip e s <|> some ([], s)
  | .many e, s =>
    match run text skip e s with
    | none => some ([], s)
    | some (ts, r) =>
      let (us, r) := iterate (fun s => run text skip e (skip s)) r
      some (ts ++ us, r)
  | .word terminal e, s => do
    let (_, r) ← run text id e s
    return ([terminal (s.take (s.length - r.length))], r)

section

variable (text s : List Char) (skip : List Char → List Char) (e f : Peg)

@[simp] theorem run_char_nil (p : Char → Bool) : (char p).run text skip [] = none := rfl

@[simp] theorem run_char_cons (p : Char → Bool) (c : Char) :
    (char p).run text skip (c :: s) = if p c then some ([], s) else none := rfl

theorem run_start :
    start.run text skip s = if s = text then some ([], s) else none := rfl

theorem run_stop :
    stop.run text skip s = if s = [] then some ([], s) else none := rfl

theorem run_seq : (seq e f).run text skip s = (e.run text skip s).bind fun p =>
    (f.run text skip (skip p.2)).bind fun q => some (p.1 ++ q.1, q.2) := rfl

theorem run_choice :
    (choice e f).run text skip s = (e.run text skip s <|> f.run text skip s) := rfl

theorem run_option :
    e.option.run text skip s = (e.run text skip s <|> some ([], s)) := rfl

theorem run_many : e.many.run text skip s = match e.run text skip s with
    | none => some ([], s)
    | some (ts, r) => some (ts ++ (iterate (fun s => e.run text skip (skip s)) r).1,
        (iterate (fun s => e.run text skip (skip s)) r).2) := rfl

theorem run_word (terminal : List Char → Terminal) : (word terminal e).run text skip s =
    (e.run text id s).bind fun p => some ([terminal (s.take (s.length - p.2.length))], p.2) := rfl

end

/-! ### The grammar -/

/-- A terminal that is written with one character. -/
def symbol (c : Char) (t : Terminal) : Peg :=
  .word (fun _ => t) (.char (· == c))

def negation : Peg := symbol '-' .negation

def opening : Peg := symbol '(' .opening

def closing : Peg := symbol ')' .closing

def binary (op : BinaryOp) : Peg := symbol op.symbol (.binary op)

def binaryOp : Peg :=
  .choice (binary .add) (.choice (binary .subtract) (.choice (binary .multiply) (binary .divide)))

def digits : Peg :=
  .seq (.char Char.isDigit) (.many (.char Char.isDigit))

/-- Digits, and a point and digits if both are there. -/
def number : Peg :=
  .word .number (.seq digits (.option (.seq (.char (· == '.')) digits)))

def operand : Peg :=
  .seq (.many (.seq opening (.option negation))) (.seq number (.many closing))

/-- Operands and binary operations in turn, from the start of the text to its end. -/
def calculation : Peg :=
  .seq .start (.seq (.option negation) (.seq operand (.seq (.many (.seq binaryOp operand)) .stop)))

/-- The terminals of a text that the grammar matches. -/
def match? (text : List Char) : Option (List Terminal) :=
  (calculation.run text skipBlanks text).map Prod.fst

end Peg

end InfixArith
