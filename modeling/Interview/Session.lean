import Interview.Deck
import Interview.Terminal.User
/-
Sessions: the world in which interviews take place.

A session has a host that makes controls, the controls made so far, the decks of prepared
replies, and the transcript. A rehearsal host gives each control a script of events, in
the order in which the controls are made; a control without a script, or at the end of
it, hides for ever. A terminal host lets one user answer, move by move.

Nothing is forgotten: a control that was disposed keeps its number, and the transcript
only grows.
-/

set_option autoImplicit false

namespace Interview

open Control (Event Call Kind)

/-! ## The world -/

/-- Where controls come from. -/
inductive Host
  /-- Each control takes the next script of events. -/
  | rehearsal (scripts : List (List Event))
  /-- All controls are shown on one terminal, to a user with these moves left. -/
  | terminal (colorful : Bool) (moves : List Terminal.Move)

/-- A control that was made. -/
inductive Device
  /-- A control with these events left to hand out. -/
  | scripted (events : List Event)
  /-- A control on a terminal. -/
  | shown (t : Terminal)

/-- The world of an interview. -/
structure Session where
  host : Host
  devices : List Device
  decks : List Deck
  /-- The transcript, last entry first. -/
  entries : List Entry
  /-- The lines printed on the terminal, last line first. -/
  lines : List Terminal.Line
  /-- Whether the cursor of the terminal stands in the middle of a line. -/
  midLine : Bool
  /-- The first prompt that found the user of a terminal without moves. -/
  unanswered : Option Terminal

namespace Session

/-- A session in which nothing happened yet. -/
def new (host : Host) : Session :=
  { host, devices := [], decks := [], entries := [], lines := [], midLine := false
    unanswered := none }

/-- The transcript, in the order in which things happened. -/
def transcript (s : Session) : List Entry :=
  s.entries.reverse

/-- The lines printed on the terminal that have a line for themselves, in order. -/
def printed (s : Session) : List String :=
  (s.lines.reverse.filter Terminal.Line.own).map Terminal.Line.text

/-- The session with more entries in its transcript. -/
def emit (es : List Entry) (s : Session) : Session :=
  { s with entries := es.reverse ++ s.entries }

/-! ## Controls -/

/-- The session after a control was made, and the number of the control. -/
def make (kind : Kind) (chrome : Chrome) (s : Session) : Nat × Session :=
  let id := s.devices.length
  let s := s.emit [.made id kind chrome]
  match s.host with
  | .rehearsal [] => (id, { s with devices := s.devices ++ [.scripted []] })
  | .rehearsal (script :: rest) =>
    (id, { s with host := .rehearsal rest, devices := s.devices ++ [.scripted script] })
  | .terminal colorful _ =>
    (id, { s with devices := s.devices ++ [.shown (Terminal.new colorful kind chrome)] })

/-- The session after a call on a control. -/
def call (id : Nat) (c : Call) (s : Session) : Session :=
  let s := s.emit [.called id c]
  { s with
    devices := s.devices.modify id fun
      | .scripted events => .scripted events
      | .shown t => .shown (t.apply c) }

/-- What comes of waiting for a control. -/
inductive Arrival
  /-- An event. -/
  | event (e : Event)
  /-- Nothing yet. -/
  | notYet
  /-- Nothing before the rows of the list are in. -/
  | rowsFirst

/-- An event of a terminal is handed out, after what goes to the log. -/
def hand (id : Nat) (e : Event) (log : List LogLine) (t : Terminal) (s : Session) :
    Arrival × Session :=
  let s := { s with devices := s.devices.set id (.shown t) }
  (.event e, s.emit (log.map Entry.logged ++ [.handed id e]))

/-- Lines are printed on the terminal. -/
def print (texts : List String) (s : Session) : Session :=
  { s with
    lines := (Terminal.linesFrom s.midLine texts).reverse ++ s.lines
    midLine := s.midLine && texts.isEmpty }

/-- An interaction of a terminal is over, and its first event is handed out. -/
def close (id : Nat) (t : Terminal) (asked : Terminal.Content) (o : Terminal.Outcome)
    (s : Session) : Arrival × Session :=
  let (e, log, t) := t.finish o
  { s with midLine := Terminal.leavesMidLine asked o }.hand id e log t

/-- The user of a terminal makes the next move at what was asked. A user without moves
interrupts. -/
def listen (id : Nat) (t : Terminal) (asked : Terminal.Content) (s : Session) :
    Arrival × Session :=
  match s.host with
  | .terminal colorful (move :: rest) =>
    let s := { s with host := .terminal colorful rest }
    match Terminal.outcome? t.chrome.buttons asked move with
    | none => (.notYet, { s with devices := s.devices.set id (.shown t) })
    | some outcome => s.close id t asked outcome
  | _ => { s with unanswered := s.unanswered.or (some t) }.close id t asked (.error .cancelled)

/-- A control of a terminal asks for its content, unless there is nothing to ask for. -/
def prompt (id : Nat) (t : Terminal) (s : Session) : Arrival × Session :=
  let s := s.print t.printed
  match t.obstacle? with
  | some fault =>
    let (e, log, t) := t.finish (.error fault)
    s.hand id e log t
  | none => s.listen id t.begin t.content

/-- What the next event of a control comes to. -/
def next (id : Nat) (s : Session) : Arrival × Session :=
  match s.devices[id]? with
  | some (.scripted (e :: rest)) =>
    let s := { s with devices := s.devices.set id (.scripted rest) }
    (.event e, s.emit [.handed id e])
  | some (.shown t) =>
    match t.turn with
    | .event e log t => s.hand id e log t
    | .waits => (.rowsFirst, s)
    | .asks => s.prompt id t
    | .listens asked => s.listen id t asked
  | _ => (.event .hide, s.emit [.handed id .hide])

/-! ## Decks -/

/-- The session with one more deck, and the number of the deck. -/
def addDeck (d : Deck) (s : Session) : Nat × Session :=
  (s.decks.length, { s with decks := s.decks ++ [d] })

/-- The session with one deck changed. -/
def onDeck (id : Nat) (f : Deck → Deck) (s : Session) : Session :=
  { s with decks := s.decks.modify id f }

/-- The number of the next copy that draws from a deck, and the session with that copy. -/
def copyDeck (id : Nat) (s : Session) : Nat × Session :=
  (((s.decks[id]?).map Deck.copies).getD 0, s.onDeck id Deck.copy)

/-- The next reply of a deck, drawn by a copy. -/
def draw (id copy : Nat) (s : Session) : Reply Json × Session :=
  match s.decks[id]? with
  | some d =>
    let (r, d) := d.draw copy
    (r, { s with decks := s.decks.set id d })
  | none => (.cancel, s)

end Session

end Interview
