import InfixArith.Logged
import InfixArith.Number.Basic
import InfixArith.Token.Classify
import InfixArith.Token.Postfix
import InfixArith.Token.Value

/-!
# Evaluation

A text is held against the format, cut into lexemes, classified, brought into postfix order and
computed.  `calculate` does all of it and keeps a log; `evaluate` gives the value alone, and
`postfixOf` stops before the computation.
-/

namespace InfixArith

/-- Whether a text keeps to the format. -/
def validate (text : String) : Except Error Unit :=
  ((format text).mapError Error.format).map fun _ => ()

section

variable {α : Type} [Numeric α]

/-- Brings the tokens of a text into postfix order. -/
def convert (text : String) : Logged (List (Token α)) := do
  validate text
  let lexemes ← tokenize text
  Logged.note (.tokenized text lexemes.length)
  let tokens ← classifyAll lexemes
  let ordered ← toPostfix tokens
  Logged.note (.converted (Token.listing ordered))
  return ordered

/-- Computes a text. -/
def calculate (text : String) : Logged α := do
  let ordered ← convert text
  let value ← evaluatePostfix ordered
  Logged.note (.valued text (Numeric.render value) (Numeric.kind α))
  return value

/-- The tokens of a text in postfix order. -/
def postfixOf (text : String) : Except Error (List (Token α)) :=
  (convert text).outcome

/-- The value of a text. -/
def evaluate (text : String) : Except Error α :=
  (calculate text).outcome

/-- The stages in order, without the log. -/
theorem postfixOf_eq (text : String) :
    postfixOf (α := α) text = (do
      validate text
      let lexemes ← tokenize text
      let tokens ← classifyAll lexemes
      toPostfix tokens) := by
  simp only [postfixOf, convert, Logged.outcome_bind, Logged.outcome_liftM, Logged.outcome_note,
    Logged.outcome_pure]
  cases validate text with
  | error e => rfl
  | ok u =>
    cases tokenize text with
    | error e => rfl
    | ok ls =>
      cases h : classifyAll (α := α) ls with
      | error e => simp [h, bind, Except.bind]
      | ok ts => cases h' : toPostfix ts <;> simp [h, h', bind, Except.bind]

/-- A value is that of the tokens in postfix order. -/
theorem evaluate_eq (text : String) :
    evaluate (α := α) text = postfixOf text >>= evaluatePostfix := by
  simp only [evaluate, calculate, Logged.outcome_bind, Logged.outcome_liftM, Logged.outcome_note,
    Logged.outcome_pure]
  show (postfixOf text >>= fun ordered => evaluatePostfix ordered >>= Except.ok) = _
  congr 1
  funext ordered
  cases evaluatePostfix ordered <;> rfl

/-- The values of texts, each on its own. -/
def evaluateBatch (texts : List String) : List (Except Error α) :=
  texts.map evaluate

/-- The stages of a calculation.  The format is one of them, but the others go on without it. -/
structure Stages (α : Type) where
  format : Except Error Unit
  lexemes : Except Error (List Lexeme)
  tokens : Except Error (List (Token α))
  ordered : Except Error (List (Token α))
  value : Except Error α

/-- All stages of the calculation of a text.  After a stage that fails, the later ones have its
error. -/
def stages (text : String) : Stages α :=
  let lexemes := tokenize text
  let tokens := lexemes >>= classifyAll
  let ordered := tokens >>= toPostfix
  ⟨validate text, lexemes, tokens, ordered, ordered >>= evaluatePostfix⟩

/-- If the text keeps to the format, one stage is its tokens in postfix order. -/
theorem ordered_stages {text : String} (h : (stages (α := α) text).format = .ok ()) :
    (stages text).ordered = postfixOf (α := α) text := by
  have hvalid : validate text = .ok () := h
  rw [postfixOf_eq, hvalid]
  show ((tokenize text >>= classifyAll) >>= toPostfix) = _
  cases tokenize text <;> rfl

/-- **The last stage is the value of the text**, if that keeps to the format. -/
theorem value_stages {text : String} (h : (stages (α := α) text).format = .ok ()) :
    (stages text).value = evaluate (α := α) text := by
  rw [evaluate_eq, ← ordered_stages h]
  rfl

end

/-- The value of a text in a kind chosen at run time. -/
def evaluateAs (kind : Kind) (text : String) : Except Error Number :=
  (evaluate text).map fun value => ⟨kind, value⟩

end InfixArith
