import InfixArith.Error

/-!
# Calculations with a log

A `Logged` calculation notes how far it has come.  What it has noted stays when it fails later
on.
-/

namespace InfixArith

/-- What a calculation notes. -/
inductive Record where
  /-- A text was cut into lexemes. -/
  | tokenized (text : String) (count : Nat)
  /-- The tokens were brought into postfix order. -/
  | converted (listing : String)
  /-- A text has a value. -/
  | valued (text : String) (value : String) (kind : Kind)
  deriving DecidableEq, Repr

namespace Record

/-- The wording of a record. -/
def message : Record → String
  | .tokenized text count =>
    "tokenized " ++ Text.quoted text ++ " into " ++ count.repr ++ " lexemes"
  | .converted listing => "postfix: " ++ listing
  | .valued text value kind =>
    Text.quoted text ++ " = " ++ value ++ " (" ++ kind.name ++ ")"

/-- How important a record is: all of them are meant for tracing. -/
def level (_ : Record) : String := "TRACE"

end Record

/-- What a calculation noted, and how it came out. -/
structure Logged (α : Type) where
  records : List Record
  outcome : Except Error α

namespace Logged

variable {α β : Type}

/-- A calculation that notes nothing. -/
def silent (outcome : Except Error α) : Logged α := ⟨[], outcome⟩

/-- Notes a record. -/
def note (record : Record) : Logged Unit := ⟨[record], .ok ()⟩

/-- One calculation after the other. -/
def andThen (x : Logged α) (f : α → Logged β) : Logged β :=
  match x.outcome with
  | .ok a => ⟨x.records ++ (f a).records, (f a).outcome⟩
  | .error e => ⟨x.records, .error e⟩

instance : Monad Logged where
  pure a := silent (.ok a)
  bind := andThen

instance : MonadLift (Except Error) Logged := ⟨silent⟩

/-- The outcome does not depend on what is noted. -/
theorem outcome_bind (x : Logged α) (f : α → Logged β) :
    (x >>= f).outcome = x.outcome >>= fun a => (f a).outcome := by
  show (andThen x f).outcome = _
  unfold andThen
  cases x.outcome <;> rfl

theorem outcome_liftM (x : Except Error α) : (liftM x : Logged α).outcome = x := rfl

theorem outcome_note (r : Record) : (note r).outcome = .ok () := rfl

theorem outcome_pure (a : α) : (pure a : Logged α).outcome = .ok a := rfl

/-- What follows a calculation with a value notes its records after those there are. -/
theorem records_bind_of_ok {x : Logged α} {a : α} (h : x.outcome = .ok a) (f : α → Logged β) :
    (x >>= f).records = x.records ++ (f a).records := by
  show (andThen x f).records = _
  rw [andThen, h]

/-- Nothing follows a calculation that fails. -/
theorem records_bind_of_error {x : Logged α} {e : Error} (h : x.outcome = .error e)
    (f : α → Logged β) : (x >>= f).records = x.records := by
  show (andThen x f).records = _
  rw [andThen, h]

end Logged

end InfixArith
