import Interview.Failure
import Interview.Transcript
/-
Acts: what a question does to the control it is shown on, and the notes it causes on the
way. A question computes its acts without knowing its control; they become entries of the
transcript once the control is known.
-/

set_option autoImplicit false

namespace Interview

/-- One act of a question that is shown on a control. -/
inductive Act
  /-- A call on the control. -/
  | call (c : Control.Call)
  /-- An entry of the transcript that is not about the control. -/
  | entry (e : Entry)

namespace Act

/-- The acts that leave some notes. -/
def ofNotes (notes : List Note) : List Act :=
  notes.map fun n => .entry (.noted n)

/-- The calls among some acts. -/
def calls (acts : List Act) : List Control.Call :=
  acts.filterMap fun
    | call c => some c
    | entry _ => none

end Act

/-- What the work that a question does beside its user has come to when the question turns back
to the user. -/
inductive Look
  /-- There is nothing to handle; the next event is awaited. -/
  | await
  /-- An acceptance that had to wait is due now. -/
  | replay
  /-- The work failed. -/
  | failed (f : Failure)

end Interview
