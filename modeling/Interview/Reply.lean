/-
What a question comes to, and what is remembered of it.

A question that was asked ends in exactly one reply: an answer, the wish to go back, or
the wish to leave. The two wishes are data and not failures, so they pass unchanged
through everything that transforms answers.
-/

set_option autoImplicit false

namespace Interview

/-! ## Replies -/

/-- The outcome of a question that was asked. -/
inductive Reply (α : Type)
  /-- The user answered. -/
  | value (a : α)
  /-- The user wants to return to the question before. -/
  | back
  /-- The user dismissed the question. -/
  | cancel
deriving DecidableEq, Repr

namespace Reply

variable {α β : Type}

/-- Whether the reply is an answer. -/
def isValue : Reply α → Bool
  | value _ => true
  | _ => false

/-- Whether the reply is the wish to go back. -/
def isBack : Reply α → Bool
  | back => true
  | _ => false

/-- Whether the reply is the wish to leave. -/
def isCancel : Reply α → Bool
  | cancel => true
  | _ => false

/-- The answer, if there is one. -/
def value? : Reply α → Option α
  | value a => some a
  | _ => none

/-- The reply with its answer transformed. -/
def map (f : α → β) : Reply α → Reply β
  | value a => value (f a)
  | back => back
  | cancel => cancel

/-- The reply with its answer transformed, unless the transformation fails. -/
def tryMap {ε : Type} (f : α → Except ε β) : Reply α → Except ε (Reply β)
  | value a => (f a).map value
  | back => .ok back
  | cancel => .ok cancel

end Reply

/-! ## Attempts -/

/-- An earlier answer to a question, with the reason it was refused, if it was. -/
structure Attempt (α : Type) where
  value : α
  error : Option String
deriving DecidableEq, Repr

/-- The attempt with its answer transformed. -/
def Attempt.map {α β : Type} (f : α → β) (a : Attempt α) : Attempt β :=
  ⟨f a.value, a.error⟩

end Interview
