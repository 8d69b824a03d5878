import Interview.Control
import Interview.Text.Blank
import Interview.Text.Lowercase
/-
How a control is put into words on a terminal, and how what the user does there is turned
back into events.

A terminal has no buttons. In a list they become entries of their own in front of the
rows; at a line of text they become commands, a colon and the button's name in lowercase
with hyphens for spaces. A reply is compared with the commands without the blanks around
it, but counts as text exactly as it was typed.
-/

set_option autoImplicit false

namespace Interview.Terminal

open Control (Event)

/-! ## Into words -/

/-- The line that asks: the title, with the placeholder as a hint. -/
def promptText (c : Chrome) : String :=
  match c.title, c.placeholder with
  | some title, some hint => title ++ " [" ++ hint ++ "]"
  | some title, none => title
  | none, some hint => hint
  | none, none => ""

/-- The name of a button: its tooltip, or else its icon. -/
def buttonName (b : ButtonFace) : String :=
  b.tooltip.getD b.icon

/-- What is typed at a line of text to click a button. -/
def command (b : ButtonFace) : String :=
  let name := Text.lower (Text.trim (buttonName b))
  String.ofList (':' :: name.toList.map fun c => if c = ' ' then '-' else c)

/-- The entry of a button in a list. -/
def buttonEntry (b : ButtonFace) : String :=
  "<" ++ buttonName b ++ ">"

/-- The entry of a row in a list: its label, with the description in brackets. -/
def rowEntry (r : Row) : String :=
  match r.description with
  | some d => r.label ++ " (" ++ d ++ ")"
  | none => r.label

/-- The entries of a list: the buttons, then the rows. -/
def entries (buttons : List ButtonFace) (rows : List Row) : List String :=
  buttons.map buttonEntry ++ rows.map rowEntry

/-- The entry that is chosen if the user does nothing: the first picked row, or else the first
row, as far as there is one. -/
def defaultEntry (buttons : List ButtonFace) (rows : List Row) : Nat :=
  let first := (rows.findIdx? Row.picked).getD 0
  min (buttons.length + first) (buttons.length + rows.length - 1)

/-- The most entries that a list has without a search. -/
def searchLimit : Nat := 12

/-- The entry that is chosen when one is marked. A list with a search knows its entries only by what
they say, so the first that says the same is chosen. -/
def chosenEntry (buttons : List ButtonFace) (rows : List Row) (marked : Nat) : Nat :=
  let es := entries buttons rows
  if es.length ≤ searchLimit then marked
  else (es.findIdx? fun e => es[marked]? == some e).getD marked

/-! ## Back into events -/

/-- The events of a line of text that was typed. -/
def textReply (reply : String) (buttons : List ButtonFace) : List Event :=
  -- of buttons with the same command, the first one is meant
  match buttons.findIdx? fun b => command b == Text.trim reply with
  | some i => [.button i]
  | none => [.changed reply, .accept]

/-- The events of one chosen entry, where the first `buttons` entries are buttons. -/
def selectReply (entry buttons : Nat) : List Event :=
  if entry < buttons then [.button entry] else [.selected [entry - buttons], .accept]

/-- The events of several chosen entries: the first button among them, or else the rows. -/
def multiReply (chosen : List Nat) (buttons : Nat) : List Event :=
  match chosen.find? fun i => i < buttons with
  | some i => [.button i]
  | none => [.selected (chosen.map (· - buttons)), .accept]

end Interview.Terminal
