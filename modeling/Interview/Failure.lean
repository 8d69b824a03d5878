/-
Failures of the collaborators of an interview: whatever loads items, checks answers,
handles a click or makes a question.

A failure is a chain of messages. The outermost says what went wrong, the others give
the reasons, each the reason for the one before.
-/

set_option autoImplicit false

namespace Interview

/-- What went wrong, and the reasons for it, outermost first. -/
structure Failure where
  summary : String
  reasons : List String
deriving DecidableEq, Repr

namespace Failure

/-- A failure without further reasons. -/
def because (summary : String) : Failure :=
  ⟨summary, []⟩

/-- The whole chain in one line. -/
def chain (f : Failure) : String :=
  ": ".intercalate (f.summary :: f.reasons)

end Failure

end Interview
