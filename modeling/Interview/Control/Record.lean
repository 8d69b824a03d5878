import Interview.Transcript
/-
What a transcript says about each control: the calls made on it, sorted by what they set.

A record is read off the transcript and kept nowhere else, so a statement about the calls
on a control and a statement about its record are the same statement.
-/

set_option autoImplicit false

namespace Interview

/-- Everything that happened to one control. -/
structure Control.Record where
  kind : Control.Kind
  chrome : Chrome
  shown : Nat
  rows : List (List Row)
  values : List String
  messages : List (Option String)
  busy : List Bool
  placeholders : List String
  titles : List String
  disposals : Nat

namespace Control.Record

/-- A control that was made and not called yet. -/
def fresh (kind : Control.Kind) (chrome : Chrome) : Record :=
  ⟨kind, chrome, 0, [], [], [], [], [], [], 0⟩

/-- The record with one more call. -/
def add (r : Record) : Control.Call → Record
  | .makeVisible => { r with shown := r.shown + 1 }
  | .setRows rows => { r with rows := r.rows ++ [rows] }
  | .setValue s => { r with values := r.values ++ [s] }
  | .setMessage m => { r with messages := r.messages ++ [m] }
  | .setBusy b => { r with busy := r.busy ++ [b] }
  | .setPlaceholder s => { r with placeholders := r.placeholders ++ [s] }
  | .setTitle s => { r with titles := r.titles ++ [s] }
  | .dispose => { r with disposals := r.disposals + 1 }

/-- The labels of the rows that were set last. -/
def labels (r : Record) : List String :=
  (r.rows.getLast?.getD []).map Row.label

/-- The messages that were put on display, without the ones that took a message away. -/
def shownMessages (r : Record) : List String :=
  r.messages.filterMap id

/-- The text that a text control started from. -/
def startingText (r : Record) : String :=
  match r.kind with
  | .text value _ => value
  | .list _ => ""

/-- Whether a text control masks its text. -/
def isPassword (r : Record) : Bool :=
  match r.kind with
  | .text _ password => password
  | .list _ => false

/-- Whether many rows of a list control can be chosen. -/
def picksMany (r : Record) : Bool :=
  match r.kind with
  | .text _ _ => false
  | .list many => many

end Control.Record

/-- The records of all controls in a transcript, by their numbers. -/
def Entry.records (es : List Entry) : List Control.Record :=
  es.foldl
    (fun rs e =>
      match e with
      | .made _ kind chrome => rs ++ [Control.Record.fresh kind chrome]
      | .called id call => rs.modify id fun r => r.add call
      | _ => rs)
    []

end Interview
