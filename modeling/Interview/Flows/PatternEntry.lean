import Interview.Flows.FilterPattern
import Interview.Question
/-
The question for a filter pattern: a line of text that is checked on every change. An empty
pattern lets everything through.
-/

set_option autoImplicit false

namespace Interview.FilterPattern

/-- The validator that accepts what has no fault. -/
def validator : Validator := fun _ pattern =>
  .now ((fault? pattern).map Fault.message)

/-- A validator whose checks cannot be made. -/
def brokenValidator (cause : Failure) : Validator := fun _ _ =>
  ⟨[], .none, .error cause⟩

/-- The question for a filter pattern. -/
def question (w : Wording) (v : Validator) : Question :=
  let screen := Screen.new w (.text { TextEntry.new with validator := some v })
  .screen { screen with
    title := some "Search pattern"
    placeholder := some "Filter pattern, empty to match everything" }.withBack

end Interview.FilterPattern
