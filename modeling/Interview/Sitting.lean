import Interview.Conduct
/-
Sittings: an interview that is conducted once.

A sitting knows whether it has begun and how it ended. Conducting it a second time is an
error and changes nothing. A user who leaves brings no response; a finished draft is read
as a response, and the sitting counts as completed only if that succeeds.
-/

set_option autoImplicit false

namespace Interview

/-- How far a sitting has come. -/
inductive Status
  | notStarted
  | running
  | done (completed : Bool)
deriving DecidableEq, Repr

/-- An interview that is conducted once. -/
structure Sitting where
  form : Form
  initial : Draft
  options : Options
  status : Status

namespace Sitting

/-- A sitting that was not conducted yet. -/
def new (form : Form) (initial : Draft) (options : Options) : Sitting :=
  ⟨form, initial, options, .notStarted⟩

/-- The response that the end of a run brings, if the user did not leave. -/
def respond {α : Type} (read : Json → Option α) : Ending → Outcome (Option α)
  | .completed d =>
    match read d.toJson with
    | some a => .done (some a)
    | none => .failed (.draft (.decode .root))
  | .back => .done none
  | .cancelled => .done none

/-- The status that an outcome leaves behind. One that still waits is still running. -/
def statusAfter {α : Type} : Outcome (Option α) → Status
  | .done (some _) => .done true
  | .done none => .done false
  | .failed _ => .done false
  | .suspended => .running
  | .exhausted => .running

/-- The sitting is conducted, within a number of turns, and its response is read. -/
def conduct {α : Type} (n : Nat) (read : Json → Option α) (s : Sitting) (w : Session) :
    Outcome (Option α) × Sitting × Session :=
  match s.status with
  | .notStarted =>
    let (o, w) := conductForm n s.form s.options s.initial .empty w
    let o := o.bind (respond read)
    (o, { s with status := statusAfter o }, w)
  | _ => (.failed .alreadyRun, s, w)

end Sitting

end Interview
