import Interview.Terminal.User
/-
Line mode: a terminal prompt written out as lines, and a typed line read as the user's move.

At a line of text the typed line takes the place of the text that is there. In a list the
typed line holds the numbers of entries: one to choose, or those to be checked in the end.
A lone dot leaves the list, and a line that is not understood keeps what is there.
-/

set_option autoImplicit false

namespace Interview.Terminal

/-- The words of a line, cut at its spaces. -/
def words (line : String) : List String :=
  (line.splitOn " ").filter (· ≠ "")

/-- The numbers in a line. -/
def numbers (line : String) : List Nat :=
  (words line).filterMap String.toNat?

/-- How many steps lead down from the default entry to a given one. -/
def stepsTo (buttons : List ButtonFace) (rows : List Row) (entry : Nat) : Nat :=
  let count := buttons.length + rows.length
  (entry + count - defaultEntry buttons rows) % count

/-- The entries to flip so that in the end the given ones are checked. -/
def flipsTo (buttons : Nat) (rows : List Row) (wanted : List Nat) : List Nat :=
  let before : List Bool := List.replicate buttons false ++ rows.map Row.picked
  (List.range before.length).filter fun i => before.getD i false != wanted.contains i

/-- The move that a typed line stands for. -/
def moveOfLine (t : Terminal) (line : String) : Move :=
  match t.content with
  | .text value false => .typed line value.length
  | .text _ true => .secret line
  | .list rows many =>
    if words line = ["."] then .leave
    else if many then .toggle (flipsTo t.chrome.buttons.length rows (numbers line))
    else
      match numbers line with
      | entry :: _ => .down (stepsTo t.chrome.buttons rows entry)
      | [] => .down 0

/-- A prompt written out: its entries with their numbers, and the line that asks. -/
def shownLines (t : Terminal) : List String :=
  match t.content with
  | .text _ true => [promptText t.chrome]
  | .text "" false => [promptText t.chrome]
  | .text value false => [promptText t.chrome ++ " <" ++ value ++ ">"]
  | .list rows _ =>
    let numbered := (entries t.chrome.buttons rows).zipIdx.map fun p =>
      "  " ++ toString p.2 ++ "  " ++ p.1
    numbered ++ [promptText t.chrome]

end Interview.Terminal
