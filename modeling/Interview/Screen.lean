import Interview.Button
import Interview.PickList
import Interview.RunError
import Interview.Session
import Interview.TextEntry
/-
Questions that are shown on a control of their own.

A screen makes its control when it is first asked and keeps it until it is disposed. While
it is asked it takes turns: it handles what its own work has come to, waits for the next
event of the control, and handles that. Hiding cancels, a click runs the handler of the
button, and every other event belongs to the content. A screen that was disposed cannot be
asked again.

One turn is a function of its own, and being asked is nothing but one turn after the other,
so what every turn keeps is kept throughout.
-/

set_option autoImplicit false

namespace Interview

open Control (Event)

/-! ## Contents -/

/-- What a screen shows. -/
inductive Content
  | text (t : TextEntry)
  | list (l : PickList)

namespace Content

/-- A copy of the content. -/
def copy : Content → Content
  | text t => text t.copy
  | list l => list l.copy

/-- The content as it was at an earlier attempt. -/
def restore (c : Content) (a : Attempt Json) : Content :=
  match c with
  | text t => text (t.restore a)
  | list l => list (l.restore a)

/-- The control that shows the content. -/
def kind : Content → Control.Kind
  | text t => .text t.value t.password
  | list l => .list l.many

/-- What happens when the control is first shown. -/
def start (w : Wording) (c : Chrome) : Content → List Act × Content
  | text t =>
    let (acts, t) := t.start
    (acts, text t)
  | list l =>
    let (acts, l) := PickList.start { l with placeholder := c.placeholder } w
    (acts, list l)

/-- A look at the content's own work. -/
def look (w : Wording) : Content → List Act × Content × Look
  | text t =>
    let (acts, t, found) := t.look
    (acts, text t, found)
  | list l =>
    let (acts, l, found) := l.look w
    (acts, list l, found)

/-- What an event comes to: the reply that it settles the question with, if any. -/
def handle (e : Event) : Content → List Act × Content × Option (Reply Json)
  | text t =>
    let (acts, t, reply) := t.handle e
    (acts, text t, reply)
  | list l =>
    let (l, reply) := l.handle e
    ([], list l, reply)

/-- Whether no more rows ever come. -/
def isStuck : Content → Bool
  | text _ => true
  | list l =>
    match l.loading with
    | none => true
    | some ([], ending) => ending.isNever
    | some (b :: _, _) => b.delay.isNever

end Content

/-! ## Screens -/

/-- A question that is shown on a control. -/
structure Screen where
  wording : Wording
  title : Option String
  placeholder : Option String
  ignoreFocusOut : Bool
  buttons : List Button
  /-- Where in the interview the question is asked. -/
  steps : Option (Nat × Nat)
  /-- The number of its control, while it has one. -/
  control : Option Nat
  disposed : Bool
  content : Content

namespace Screen

/-- A screen without any chrome, not asked yet. -/
def new (wording : Wording) (content : Content) : Screen :=
  { wording, title := none, placeholder := none, ignoreFocusOut := false, buttons := [],
    steps := none, control := none, disposed := false, content }

/-- The screen with the standard back button after its other buttons. -/
def withBack (s : Screen) : Screen :=
  { s with buttons := s.buttons ++ [Button.back (some s.wording.back)] }

/-- A copy has the same configuration and place, and no control. -/
def copy (s : Screen) : Screen :=
  { s with control := none, disposed := false, content := s.content.copy }

/-- The title, with the place of the question in the interview. -/
def titleText (s : Screen) : Option String :=
  s.title.map fun title =>
    match s.steps with
    | some (current, total) => s.wording.stepTitle title current total
    | none => title

/-- What is around the content. -/
def chrome (s : Screen) : Chrome :=
  ⟨s.titleText, s.placeholder, s.buttons.map Button.face, s.ignoreFocusOut⟩

/-- The content as it was at an earlier attempt. -/
def restore (s : Screen) (a : Attempt Json) : Screen :=
  { s with content := s.content.restore a }

/-- The acts of a screen, carried out on its control. -/
def perform (id : Nat) (acts : List Act) (w : Session) : Session :=
  acts.foldl
    (fun w act =>
      match act with
      | .call c => w.call id c
      | .entry e => w.emit [e])
    w

/-- The screen is told where in the interview it is asked. A control that shows it gets the new
title. -/
def place (s : Screen) (current total : Nat) (w : Session) : Screen × Session :=
  let s := { s with steps := some (current, total) }
  match s.titleText, s.control with
  | some title, some id => (s, w.call id (.setTitle title))
  | _, _ => (s, w)

/-- The screen gives up its control. Doing so again has no effect. -/
def dispose (s : Screen) (w : Session) : Screen × Session :=
  if s.disposed then (s, w)
  else
    match s.control with
    | some id => ({ s with disposed := true, control := none }, w.call id .dispose)
    | none => ({ s with disposed := true }, w)

/-- The screen is put before the user: its control is made, or shown again. -/
def appear (s : Screen) (w : Session) : Nat × Screen × Session :=
  match s.control with
  | some id => (id, s, w.call id .makeVisible)
  | none =>
    let (id, w) := w.make s.content.kind s.chrome
    let (acts, content) := s.content.start s.wording s.chrome
    (id, { s with control := some id, content },
      perform id (.call .makeVisible :: acts) w)

/-- What the handling of an event leads to. -/
inductive Flow
  /-- The question stays open. -/
  | stay
  /-- The question is settled. -/
  | settle (r : Reply Json)
  /-- The question fails. -/
  | fail (f : Failure)

/-- An event is handled: hiding cancels, a click runs a handler, and the rest goes to the
content. A click on a button that is not there means nothing. -/
def handle (s : Screen) (e : Event) : List Act × Screen × Flow :=
  match e with
  | .hide => ([], s, .settle .cancel)
  | .button i =>
    match s.buttons[i]? with
    | none => ([], s, .stay)
    | some b =>
      (Act.ofNotes b.notes, s,
        match b.click with
        | .error f => .fail f
        | .ok none => .stay
        | .ok (some r) => .settle r)
  | e =>
    let (acts, content, reply) := s.content.handle e
    (acts, { s with content },
      match reply with
      | none => .stay
      | some r => .settle r)

/-- What one turn comes to. -/
inductive Turn
  /-- The question stays open. -/
  | stays (s : Screen) (w : Session)
  /-- Asking is over. -/
  | ends (o : Outcome (Reply Json)) (s : Screen) (w : Session)

/-- The turn in which an event is handled. -/
def react (id : Nat) (e : Event) (s : Screen) (w : Session) : Turn :=
  let (acts, s, flow) := s.handle e
  let w := perform id acts w
  match flow with
  | .stay => .stays s w
  | .settle r => .ends (.done r) s w
  | .fail f => .ends (.failed (.collaborator f)) s w

/-- One turn of a screen that was put before the user: first comes what its own work has come to,
then the next event. -/
def turn (id : Nat) (s : Screen) (w : Session) : Turn :=
  let (acts, content, found) := s.content.look s.wording
  let s := { s with content }
  let w := perform id acts w
  match found with
  | .failed f => .ends (.failed (.collaborator f)) s w
  | .replay => s.react id .accept w
  | .await =>
    match w.next id with
    | (.event e, w) => s.react id e w
    | (.notYet, w) => .stays s w
    | (.rowsFirst, w) => if s.content.isStuck then .ends .suspended s w else .stays s w

/-- The turns of a screen, at most so many of them. -/
def converse (id : Nat) : Nat → Screen → Session → Outcome (Reply Json) × Screen × Session
  | 0, s, w => (.exhausted, s, w)
  | n + 1, s, w =>
    match s.turn id w with
    | .stays s w => converse id n s w
    | .ends o s w => (o, s, w)

/-- The failure of a screen that is asked after it was disposed. -/
def disposedFailure : Failure :=
  .because "prompt() called on a disposed prompter"

/-- The screen is asked, within a number of turns. -/
def ask (n : Nat) (s : Screen) (w : Session) : Outcome (Reply Json) × Screen × Session :=
  if s.disposed then (.failed (.collaborator disposedFailure), s, w)
  else
    let (id, s, w) := s.appear w
    converse id n s w

end Screen

end Interview
