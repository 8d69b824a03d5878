import Interview.Answer.Type
/-
Decks of prepared replies, for rehearsing an interview without a user.

All copies of a question that is answered from a deck draw from the same deck, in the
order in which they are asked, and an empty deck dismisses. The deck keeps a log of each
copy, so that a rehearsal can tell afterwards which copies were asked and disposed.
-/

set_option autoImplicit false

namespace Interview

/-- A deck of prepared replies, with the log of the questions that draw from it. -/
structure Deck where
  label : String
  type : AnswerType
  /-- The replies not drawn yet. -/
  script : List (Reply Json)
  /-- For each prompt, the copy that was asked. -/
  prompts : List Nat
  /-- For each copy, how often it was disposed. -/
  disposals : List Nat
  /-- The attempts that copies were restored from. -/
  restored : List (Attempt Json)
  /-- The places that copies were given. -/
  steps : List (Nat × Nat)

namespace Deck

/-- A deck with one copy, the question it was made for. -/
def new (label : String) (type : AnswerType) (script : List (Reply Json)) : Deck :=
  { label, type, script, prompts := [], disposals := [0], restored := [], steps := [] }

/-- The number of the next copy. -/
def copies (d : Deck) : Nat :=
  d.disposals.length

/-- The deck with one more copy. -/
def copy (d : Deck) : Deck :=
  { d with disposals := d.disposals ++ [0] }

/-- The next reply, drawn by a copy. -/
def draw (d : Deck) (copy : Nat) : Reply Json × Deck :=
  let d := { d with prompts := d.prompts ++ [copy] }
  match d.script with
  | [] => (.cancel, d)
  | r :: rest => (r, { d with script := rest })

/-- The deck after a copy was disposed. -/
def dispose (d : Deck) (copy : Nat) : Deck :=
  { d with disposals := d.disposals.modify copy (· + 1) }

/-- The deck after a copy was restored from an attempt. -/
def restore (d : Deck) (a : Attempt Json) : Deck :=
  { d with restored := d.restored ++ [a] }

/-- The deck after a copy was given its place. -/
def place (d : Deck) (current total : Nat) : Deck :=
  { d with steps := d.steps ++ [(current, total)] }

/-- How many copies were disposed. -/
def disposedCopies (d : Deck) : Nat :=
  d.disposals.countP (0 < ·)

/-- Whether every copy that was asked was disposed exactly once. -/
def promptedDisposedOnce (d : Deck) : Bool :=
  d.prompts.all fun i => d.disposals[i]? == some 1

end Deck

end Interview
