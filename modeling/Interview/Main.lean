import Interview.Demo
import Interview.Terminal.LineMode
/-
The program. It runs the flow that the command line names and carries on in line mode: each
time the flow finds the user without a move, the prompt is written out and the next line of
input is the move. A flow depends on nothing but the moves, so it is run again from its
start with one move more; at the end of the input the user interrupts.

Prompts go to the error stream, and the answer alone to the output.
-/

set_option autoImplicit false

namespace Interview.Main

/-- The turns that a flow may take. -/
def turns : Nat := 1000000

/-- The lines of a prompt, its printed lines first, go to the error stream. -/
def writeLines (lines : List String) : IO Unit :=
  lines.forM IO.eprintln

/-- The end of a run: the answer, or the notice that the user left. -/
def finish (r : Demo.Report) : IO UInt32 := do
  IO.print r.answer
  if r.leftNotice then IO.eprintln "Cancelled"
  return r.exitCode.toUInt32

/-- The flow is run with the moves so far and goes on from the prompt that it is left at. -/
partial def converse (input : IO.FS.Stream) (args : List String) (moves : List Terminal.Move)
    (seen : Nat) : IO UInt32 := do
  let r := Demo.run turns args moves
  writeLines (r.printed.drop seen)
  match r.unanswered with
  | none => finish r
  | some t =>
    writeLines t.shownLines
    let line ← input.getLine
    if line.isEmpty then finish r
    else
      let typed := String.ofList (line.toList.filter fun c => c ≠ '\n' && c ≠ '\r')
      converse input args (moves ++ [t.moveOfLine typed]) r.printed.length

end Interview.Main

/-- The program on the words of its command line. -/
def main (args : List String) : IO UInt32 := do
  Interview.Main.converse (← IO.getStdin) args [] 0
