import Interview.Terminal.Words
import Interview.Transcript
/-
A control on a terminal.

It keeps what the interview has set and asks only when it is asked for an event: a line
or a choice is then in flight, and its reply is handed out as one or more events, one at a
time. While the user has not answered, the interview may go on and set other things; the
user still answers what was asked. A list that is busy is not offered before its rows are
in. A control that was disposed only hides, and a reply still in flight then is lost.
-/

set_option autoImplicit false

namespace Interview

open Control (Event Call Kind)

namespace Terminal

/-- How an interaction on the terminal can fail. -/
inductive Fault
  /-- The user interrupted it. -/
  | cancelled
  /-- The terminal itself failed. -/
  | io (detail : String)
  /-- There is no entry to offer, in a list of one choice or of many. -/
  | noEntries (many : Bool)
deriving DecidableEq, Repr

/-- The wording of a fault. -/
def Fault.message : Fault → String
  | cancelled => "Prompt cancelled by user"
  | io detail => "Dialoguer error: IO error: " ++ detail
  | noEntries false => "Dialoguer error: IO error: Empty list of items given to `Select`"
  | noEntries true => "Dialoguer error: IO error: Empty list of items given to `MultiSelect`"

/-- What a finished interaction comes to. -/
abbrev Outcome := Except Fault (List Event)

/-- What is asked for. -/
inductive Content
  | text (value : String) (password : Bool)
  | list (rows : List Row) (many : Bool)
deriving DecidableEq, Repr

/-- An interaction that was begun. -/
inductive Interaction
  /-- The user was asked for this content and has not answered yet. -/
  | running (asked : Content)
  /-- It is finished and was not looked at yet. -/
  | over (o : Outcome)

end Terminal

/-- A control on a terminal. -/
structure Terminal where
  colorful : Bool
  chrome : Chrome
  content : Terminal.Content
  message : Option String
  busy : Bool
  disposed : Bool
  /-- Events of the last reply that were not handed out yet. -/
  queued : List Event
  /-- The interaction at hand. -/
  inFlight : Option Terminal.Interaction

namespace Terminal

/-- A new control. -/
def new (colorful : Bool) (kind : Kind) (chrome : Chrome) : Terminal :=
  { colorful, chrome
    content :=
      match kind with
      | .text value password => .text value password
      | .list many => .list [] many
    message := none
    busy := false
    disposed := false
    queued := []
    inFlight := none }

/-! ## Calls -/

/-- The control after a call. Rows mean nothing to a line of text, and text nothing to a list. An
empty placeholder is no placeholder. -/
def apply (t : Terminal) : Call → Terminal
  | .makeVisible => t
  | .setRows rows =>
    match t.content with
    | .list _ many => { t with content := .list rows many }
    | .text _ _ => t
  | .setValue s =>
    match t.content with
    | .text _ password => { t with content := .text s password }
    | .list _ _ => t
  | .setMessage m => { t with message := m }
  | .setBusy b => { t with busy := b }
  | .setPlaceholder s =>
    { t with chrome := { t.chrome with placeholder := if s = "" then none else some s } }
  | .setTitle s => { t with chrome := { t.chrome with title := some s } }
  | .dispose => { t with disposed := true, queued := [], inFlight := none }

/-! ## Events -/

/-- The text of the control after the events of a reply. -/
def Content.follow (c : Content) (events : List Event) : Content :=
  events.foldl
    (fun c e =>
      match c, e with
      | .text _ password, .changed s => .text s password
      | c, _ => c)
    c

/-- What comes of asking a control for an event. -/
inductive Turn
  /-- An event, with what goes to the log, and the control after it. -/
  | event (e : Event) (log : List LogLine) (t : Terminal)
  /-- Nothing before the rows are in. -/
  | waits
  /-- The user has to be asked. -/
  | asks
  /-- The user was asked for this content and has not answered yet. -/
  | listens (asked : Content)

/-- The first event of a finished interaction, with what goes to the log, and the control after
it. -/
def finish (t : Terminal) : Outcome → Event × List LogLine × Terminal
  | .ok events =>
    let t := { t with content := t.content.follow events, inFlight := none }
    match events with
    | e :: rest => (e, [], { t with queued := rest })
    | [] => (.hide, [], t)
  | .error .cancelled =>
    (.hide, [⟨.debug, "terminal prompt cancelled", []⟩], { t with inFlight := none })
  | .error f =>
    (.hide, [⟨.error, "terminal prompt failed", [("err", .text f.message)]⟩],
      { t with inFlight := none })

/-- Whether the control is a list that waits for its rows. -/
def awaitsRows (t : Terminal) : Bool :=
  match t.content with
  | .list _ _ => t.busy
  | .text _ _ => false

/-- The turn of a control that is asked for an event. -/
def turn (t : Terminal) : Turn :=
  match t.queued with
  | e :: rest => .event e [] { t with queued := rest }
  | [] =>
    if t.disposed then .event .hide [] t
    else
      match t.inFlight with
      | some (.over outcome) =>
        let (e, log, t) := t.finish outcome
        .event e log t
      | some (.running asked) => .listens asked
      | none => if t.awaitsRows then .waits else .asks

/-- Why the content of a control cannot be asked for, if so: a list with neither buttons nor rows
leaves nothing to choose. -/
def obstacle? (t : Terminal) : Option Fault :=
  match t.content with
  | .list rows many =>
    if t.chrome.buttons.isEmpty && rows.isEmpty then some (.noEntries many) else none
  | .text _ _ => none

/-- The control after it began to ask for its content. -/
def begin (t : Terminal) : Terminal :=
  { t with inFlight := some (.running t.content) }

end Terminal

end Interview
