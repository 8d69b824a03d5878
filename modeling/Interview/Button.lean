import Interview.Failure
import Interview.Transcript
/-
Buttons beside a question, and what a click on one comes to.

A handler does a few things in order, and each of them may settle the question; the last
one that does counts. A handler that fails ends the question with its failure, whatever it
had settled before, and one that settles nothing leaves the question open.
-/

set_option autoImplicit false

namespace Interview

/-- One thing that the handler of a button does. -/
inductive Press
  /-- Settle the question with an answer. -/
  | resolve (v : Json)
  /-- Settle the question with going back. -/
  | back
  /-- Fail. -/
  | fail (f : Failure)

/-- A button: its looks, what its handler notes, and what its handler does. -/
structure Button where
  icon : String
  tooltip : Option String
  notes : List Note
  presses : List Press

namespace Button

/-- The standard back button. -/
def back (tooltip : Option String) : Button :=
  ⟨"arrow-left", tooltip, [], [.back]⟩

/-- How the button looks. -/
def face (b : Button) : ButtonFace :=
  ⟨b.icon, b.tooltip⟩

/-- What the presses of a handler come to, given what was settled before them. -/
def settle : Option (Reply Json) → List Press → Except Failure (Option (Reply Json))
  | outcome, [] => .ok outcome
  | _, .resolve v :: rest => settle (some (.value v)) rest
  | _, .back :: rest => settle (some .back) rest
  | _, .fail f :: _ => .error f

/-- What a click on the button comes to. -/
def click (b : Button) : Except Failure (Option (Reply Json)) :=
  settle none b.presses

end Button

end Interview
