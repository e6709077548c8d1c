import InfixArith.Expression.Peg

/-!
# What a grammar looks for in vain

Where a text has no match, the grammar of the format tells how far it came: the furthest place at
which a word or the end of the text was looked for in vain, and the names of all that was looked
for there (`Peg.report?`).

`Peg.misses` goes the way of `Peg.run` and notes the words that are not found.  One that is missed
at the end of a repetition or in front of another branch counts like any other, since it might have
stood there.  Within a word nothing is noted.
-/

namespace InfixArith

/-- The name of a binary operation in the grammar. -/
def BinaryOp.rule : BinaryOp → String
  | .add => "add"
  | .subtract => "subtract"
  | .multiply => "multiply"
  | .divide => "divide"

/-- The name of a terminal in the grammar. -/
def Terminal.rule : Terminal → String
  | .number _ => "number"
  | .negation => "neg"
  | .opening => "open"
  | .closing => "close"
  | .binary op => op.rule

namespace Peg

/-- What was looked for in vain, and the text that was left there. -/
structure Miss where
  rest : List Char
  rule : String
  deriving DecidableEq, Repr

/-- The misses of turn after turn, as long as there is one. -/
def missesAll (step : List Char → Option (List Terminal × List Char))
    (misses : List Char → List Miss) (s : List Char) : List Miss :=
  misses s ++
    match step s with
    | none => []
    | some (_, r) => if r.length < s.length then missesAll step misses r else []
termination_by s.length

/-- What an expression misses when it is matched at the start of `s`. -/
def misses (text : List Char) (skip : List Char → List Char) : Peg → List Char → List Miss
  | .char _, _ => []
  | .start, _ => []
  | .stop, s => if s = [] then [] else [⟨s, "EOI"⟩]
  | .seq e f, s =>
    misses text skip e s ++
      match run text skip e s with
      | none => []
      | some (_, r) => misses text skip f (skip r)
  | .choice e f, s =>
    misses text skip e s ++
      match run text skip e s with
      | none => misses text skip f s
      | some _ => []
  | .option e, s => misses text skip e s
  | .many e, s =>
    misses text skip e s ++
      match run text skip e s with
      | none => []
      | some (_, r) =>
        missesAll (fun s => run text skip e (skip s)) (fun s => misses text skip e (skip s)) r
  | .word terminal e, s =>
    match run text id e s with
    | none => [⟨s, (terminal []).rule⟩]
    | some _ => []

/-- What is left of the text at the furthest of some misses. -/
def furthest (text : List Char) (ms : List Miss) : List Char :=
  ms.foldr (fun m v => if m.rest.length ≤ v.length then m.rest else v) text

/-- The names in the grammar, in the order in which they are told. -/
def rules : List String :=
  ["EOI", "number", "add", "subtract", "multiply", "divide", "neg", "open", "close"]

/-- For a text without a match, what is left of it at the furthest misses, and what was missed
there. -/
def report? (text : List Char) : Option (List Char × List String) :=
  match calculation.run text skipBlanks text with
  | some _ => none
  | none =>
    let ms := calculation.misses text skipBlanks text
    let v := furthest text ms
    some (v, rules.filter fun rule => decide (⟨v, rule⟩ ∈ ms))

end Peg

end InfixArith
