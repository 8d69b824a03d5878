import Interview.Terminal.Basic
/-
The user of a terminal: what is printed before each interaction, and what comes of what
the user does in it.

A line of text starts with the text of the control, so a move edits it. A list starts at
its default entry, and a list of many starts with its picked rows checked. Whatever was
asked stays as it was when the user was asked, also when the user takes time and the
control is changed meanwhile. An interrupted line of text is never ended, so what is
printed next goes on in it.
-/

set_option autoImplicit false

namespace Interview.Terminal

/-- What a user does when asked. -/
inductive Move
  /-- Delete so many characters at the end, type a text and press Enter. -/
  | typed (text : String) (erase : Nat)
  /-- Type a masked text and press Enter. -/
  | secret (text : String)
  /-- Go down so many entries and press Enter. -/
  | down (steps : Nat)
  /-- Flip the check marks of these entries and press Enter. -/
  | toggle (entries : List Nat)
  /-- Leave a list without an answer. -/
  | leave
  /-- Interrupt. -/
  | interrupt
  /-- Take so long that whatever runs beside gets on. -/
  | pause
deriving DecidableEq, Repr

/-- A text with its last `n` characters deleted, as far as it has them. -/
def eraseEnd (s : String) (n : Nat) : String :=
  String.ofList (s.toList.take (s.length - n))

/-- The lines that are printed before the user is asked: the message on display, and at a line of
text that is not masked the commands of its buttons. -/
def printed (t : Terminal) : List String :=
  let error := (t.message.map fun m => "Error: " ++ m).toList
  match t.content with
  | .text _ false =>
    if t.chrome.buttons.isEmpty then error
    else error ++ ["(" ++ ", ".intercalate (t.chrome.buttons.map command) ++ ")"]
  | _ => error

/-- A line that was printed. -/
structure Line where
  text : String
  /-- Whether it has a line of the terminal for itself, and does not stand behind an interrupted
  prompt. -/
  own : Bool
deriving DecidableEq, Repr

/-- Texts printed line by line, where the cursor may stand in the middle of a line at first. -/
def linesFrom (midLine : Bool) : List String → List Line
  | [] => []
  | s :: rest => ⟨s, !midLine⟩ :: rest.map fun s => ⟨s, true⟩

/-- Whether the cursor is left in the middle of a line. Enter ends a line of text, and the entries
of a list are whole lines, so this takes a line of text that is interrupted. -/
def leavesMidLine : Content → Outcome → Bool
  | .text _ _, .error .cancelled => true
  | _, _ => false

/-- The entries that are checked after the user flipped some: in ascending order. An entry that is
flipped twice is as it was. -/
def checkedAfter (buttons : Nat) (rows : List Row) (flipped : List Nat) : List Nat :=
  let before : List Bool := List.replicate buttons false ++ rows.map Row.picked
  (List.range before.length).filter fun i => before.getD i false != (flipped.count i % 2 == 1)

/-- The text that is in a line of text when Enter is pressed. -/
def textAfter (value : String) : Move → String
  | .typed s erase => eraseEnd value erase ++ s
  | _ => value

/-- The text that is in a masked line when Enter is pressed. -/
def secretAfter : Move → String
  | .secret s | .typed s _ => s
  | _ => ""

/-- The entry that is marked when Enter is pressed in a list: so many steps down from the default
entry, and from the last entry on to the first. -/
def entryAfter (buttons : List ButtonFace) (rows : List Row) : Move → Nat
  | .down steps => (defaultEntry buttons rows + steps) % (buttons.length + rows.length)
  | _ => defaultEntry buttons rows

/-- The entries that are flipped when Enter is pressed in a list of many. -/
def flippedBy : Move → List Nat
  | .toggle entries => entries
  | _ => []

/-- What a move that ends with Enter comes to. What it does before is lost on a prompt that does not
know it. -/
def entered (buttons : List ButtonFace) (m : Move) : Content → List Control.Event
  | .text value false => textReply (textAfter value m) buttons
  | .text _ true => textReply (secretAfter m) buttons
  | .list rows false =>
    selectReply (chosenEntry buttons rows (entryAfter buttons rows m)) buttons.length
  | .list rows true => multiReply (checkedAfter buttons.length rows (flippedBy m)) buttons.length

/-- What comes of a move at what was asked, unless it only takes time. A line of text cannot be
left, only interrupted, and every other move ends with Enter. -/
def outcome? (buttons : List ButtonFace) (asked : Content) : Move → Option Outcome
  | .pause => none
  | .interrupt => some (.error .cancelled)
  | .leave =>
    match asked with
    | .list _ _ => some (.ok [.hide])
    | .text _ _ => some (.error .cancelled)
  | m => some (.ok (entered buttons m asked))

end Interview.Terminal
