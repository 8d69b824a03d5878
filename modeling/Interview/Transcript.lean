import Interview.Answer.Type
import Interview.Control
import Interview.Path
/-
The transcript of an interview: everything that happened, in the order in which it
happened.

The entries come from five places. Controls are made, called and asked for events.
Collaborators that were told to leave a note do so. Questions under watch report how they
are used. The run itself reports its progress to an observer, and a few lines go to the
log. What an interview does to its user is a matter of the transcript alone, so this is
where its promises can be stated.
-/

set_option autoImplicit false

namespace Interview

/-! ## Progress of a run -/

/-- What a run reports about its progress. -/
inductive Report
  /-- A question is about to be asked, as step `current` of an estimated `total`. -/
  | step (path : Path) (current total : Nat)
  /-- A field is left out, by its condition or because there is no question for it. -/
  | skipped (path : Path)
  /-- A field was answered, and the answer is stored. -/
  | answered (path : Path)
  /-- An answer was refused; its question will be asked again. -/
  | rejected (path : Path) (message : String)
  /-- The user went back, to an earlier field or out of the run. -/
  | back (source : Path) (target : Option Path)
  /-- The user left. -/
  | cancelled (path : Path)
  /-- Everything required is there; so many answers were given. -/
  | completed (answered : Nat)
deriving DecidableEq

/-- How urgent a line of the log is. -/
inductive Level
  | debug
  | info
  | warn
  | error
deriving DecidableEq, Repr

/-- A line of the log, with its named values. -/
structure LogLine where
  level : Level
  text : String
  values : List (String × Json)

/-- A report as a line of the log. -/
def Report.logLine : Report → LogLine
  | step p current total =>
    ⟨.debug, "showing step",
      [("path", .text p.toText), ("current", .int current), ("total", .int total)]⟩
  | skipped p => ⟨.debug, "skipping field", [("path", .text p.toText)]⟩
  | answered p => ⟨.debug, "field answered", [("path", .text p.toText)]⟩
  | rejected p message =>
    ⟨.warn, "answer rejected, retrying step",
      [("path", .text p.toText), ("message", .text message)]⟩
  | back source (some target) =>
    ⟨.debug, "going back", [("from", .text source.toText), ("to", .text target.toText)]⟩
  | back source none =>
    ⟨.debug, "going back out of the wizard", [("from", .text source.toText)]⟩
  | cancelled p => ⟨.info, "wizard cancelled", [("at", .text p.toText)]⟩
  | completed n => ⟨.info, "wizard completed", [("answered", .int n)]⟩

/-! ## Notes and uses -/

/-- What collaborators note when they are called. -/
inductive Note
  /-- The handler of the button with this icon ran. -/
  | clicked (icon : String)
  /-- A text was given to its validator. -/
  | checked (text : String)
  /-- The items of a list were asked for. -/
  | loading
  /-- The items under a key were asked for. -/
  | lookedUp (key : Json)
  /-- The question for the key was made, with the key picked last. -/
  | keysMade (recent : Option Json)
  /-- The question for the items under a key was made. -/
  | itemsMade (key : Json)
  /-- An answer was given to the check of its field. -/
  | weighed (field : String) (answer draft : Json)
  /-- A field was asked for its question. -/
  | consulted (field : String) (draft : Json) (attempt : Option (Attempt Json))
      (reads : List (Option String))

/-- The uses of a question under watch. -/
inductive Use
  | copied
  | asked
  | replied (r : Reply Json)
  | placed (current total : Nat)
  | restored (a : Attempt Json)
  | disposed

/-! ## Entries -/

/-- One entry of a transcript. -/
inductive Entry
  /-- A control was made. -/
  | made (id : Nat) (kind : Control.Kind) (chrome : Chrome)
  /-- A control was called. -/
  | called (id : Nat) (call : Control.Call)
  /-- A control handed out an event. -/
  | handed (id : Nat) (event : Control.Event)
  /-- A collaborator left a note. -/
  | noted (note : Note)
  /-- A question under watch was used. -/
  | used (label : String) (use : Use)
  /-- The run reported its progress. -/
  | reported (report : Report)
  /-- A line went to the log. -/
  | logged (line : LogLine)

/-! ## Observers -/

/-- Where a run reports its progress. -/
inductive Observer
  /-- Into the transcript. -/
  | recording
  /-- Into the log. -/
  | logging
  /-- Nowhere. -/
  | silent
deriving DecidableEq, Repr

/-- What an observer makes of a report. -/
def Observer.entries : Observer → Report → List Entry
  | recording, r => [.reported r]
  | logging, r => [.logged r.logLine]
  | silent, _ => []

end Interview
