import Interview.Failure
import Interview.Transcript
/-
Judgements: what a validator or the check of a field comes to, and after what delay.

A delay counts the times the outcome is looked for before it is there. Whoever waits for
an outcome looks for it again and again, and in between attends to the user, so the count
says how much of the user's doings the outcome lets pass.
-/

set_option autoImplicit false

namespace Interview

/-- How often an outcome is looked for in vain before it is there. -/
inductive Delay
  | after (looks : Nat)
  | never
deriving DecidableEq, Repr

namespace Delay

/-- No delay. -/
def none : Delay := .after 0

/-- Whether the outcome is there at the first look. -/
def isOver : Delay → Bool
  | after 0 => true
  | _ => false

/-- Whether the outcome never comes. -/
def isNever : Delay → Bool
  | never => true
  | _ => false

/-- The delay for someone who looks only once: an outcome that is not there then never comes. -/
def once : Delay → Delay
  | after 0 => after 0
  | _ => never

/-- The delay that is left after a look in vain. -/
def wait : Delay → Delay
  | after n => after (n - 1)
  | never => never

end Delay

/-- The outcome of a check. -/
structure Judgement where
  /-- What the check notes when it is begun. -/
  notes : List Note
  delay : Delay
  /-- A failure when the check could not be made; otherwise the message of a refusal, if any. -/
  verdict : Except Failure (Option String)

namespace Judgement

/-- The judgement of a check that is ready at once and notes nothing. -/
def now (refusal : Option String) : Judgement :=
  ⟨[], .none, .ok refusal⟩

end Judgement

/-- A validator judges texts. It may consult the world outside, so its judgement of a text may also
depend on how many checks went before. -/
abbrev Validator := (before : Nat) → String → Judgement

end Interview
