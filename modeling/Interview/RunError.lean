import Interview.Draft.Error
import Interview.Failure
/-
What can end a run without an outcome.

Most of these errors point at a defect of the form. The exception is the failure of a
collaborator, which the same form need not meet again. A user who leaves is no error at
all, and has no place here.
-/

set_option autoImplicit false

namespace Interview

/-- The reasons for which a run fails. -/
inductive RunError
  /-- The question of a field could not be made. -/
  | factory (path : Path) (cause : Failure)
  /-- A required field is not there and has no question. -/
  | unbound (path : Path)
  /-- A required field is not there at the end. -/
  | unfilled (path : Path)
  /-- The interview was conducted before. -/
  | alreadyRun
  /-- The draft could not be read or written. -/
  | draft (e : DraftError)
  /-- A collaborator failed: a loader, a validator, a button or a check. -/
  | collaborator (cause : Failure)
deriving DecidableEq

namespace RunError

/-- The path that the error is about. -/
def path? : RunError → Option Path
  | factory p _ => some p
  | unbound p => some p
  | unfilled p => some p
  | alreadyRun => none
  | draft e => e.path?
  | collaborator _ => none

/-- The wording of the error. -/
def message : RunError → String
  | factory p cause => "Prompter factory for '" ++ p.toText ++ "' failed: " ++ cause.summary
  | unbound p => "Required field '" ++ p.toText ++ "' has no bound prompter"
  | unfilled p => "Required field '" ++ p.toText ++ "' was never filled"
  | alreadyRun => "Wizard has already been run"
  | draft e => "State error: " ++ e.message
  | collaborator cause => "Collaborator error: " ++ cause.summary

/-- Whether the error points at a defect of the form. -/
def isConfiguration : RunError → Bool
  | collaborator _ => false
  | _ => true

end RunError

/-- What comes of something that is carried out within a bounded number of steps. -/
inductive Outcome (α : Type)
  /-- It came to an end. -/
  | done (a : α)
  /-- It failed. -/
  | failed (e : RunError)
  /-- It waits for something that never comes. -/
  | suspended
  /-- The steps did not suffice. -/
  | exhausted

namespace Outcome

variable {α β : Type}

/-- The outcome with its result transformed. -/
def map (f : α → β) : Outcome α → Outcome β
  | done a => done (f a)
  | failed e => failed e
  | suspended => suspended
  | exhausted => exhausted

/-- The outcome with its result put through something that can fail. -/
def bind (o : Outcome α) (f : α → Outcome β) : Outcome β :=
  match o with
  | done a => f a
  | failed e => failed e
  | suspended => suspended
  | exhausted => exhausted

end Outcome

end Interview
