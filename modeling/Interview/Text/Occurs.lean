/-
Whether one text occurs in another.
-/

set_option autoImplicit false

namespace Interview.Text

/-- Whether `t` occurs in a text as a run of neighbouring characters. -/
def occurs (t : List Char) : List Char → Bool
  | [] => t.isEmpty
  | c :: cs => t.isPrefixOf (c :: cs) || occurs t cs

theorem occurs_iff {t s : List Char} : occurs t s = true ↔ t <:+: s := by
  induction s with
  | nil => simp [occurs, List.isEmpty_iff]
  | cons c cs ih => simp [occurs, ih, List.infix_cons_iff]

end Interview.Text
