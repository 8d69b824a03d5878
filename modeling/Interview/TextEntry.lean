import Interview.Act
import Interview.Judgement
/-
A line of text that is checked while the user types.

The check of a text runs beside the user's events. While it runs the control is busy, and
the user can go on typing, click a button or hide the control. One check is in flight at
most: a check of the current text is started when there is none for it, and replaces the
one in flight. The last text that was judged is remembered with its verdict, so that
accepting a text that was judged a moment ago starts no second check.

An acceptance that comes while the text is still being checked is remembered too, and
falls due with the verdict. Any change of the text withdraws it.
-/

set_option autoImplicit false

namespace Interview

open Control (Event)

/-- A check that has not answered yet. -/
structure PendingCheck where
  text : String
  delay : Delay
  verdict : Except Failure (Option String)

/-- The state of a line of text. -/
structure TextEntry where
  value : String
  password : Bool
  validator : Option Validator
  /-- How many checks were begun. -/
  checks : Nat
  /-- Whether a text is checked on every change, and not only when it is accepted. -/
  eager : Bool
  /-- The text that was judged last, with the refusal, if it was refused. -/
  checked : Option (String × Option String)
  pending : Option PendingCheck
  /-- Whether an acceptance waits for the check in flight. -/
  acceptWaits : Bool
  /-- The message on display. -/
  shown : Option String
  /-- The reason for which an earlier answer was refused, not yet put on display. -/
  reproach : Option String

namespace TextEntry

/-- An empty line of text that accepts everything. -/
def new : TextEntry :=
  { value := "", password := false, validator := none, checks := 0, eager := true,
    checked := none, pending := none, acceptWaits := false, shown := none, reproach := none }

/-- A copy never shares a check in flight. -/
def copy (t : TextEntry) : TextEntry :=
  { t with pending := none, acceptWaits := false }

/-- The line of text as it was at an earlier attempt. -/
def restore (t : TextEntry) (a : Attempt Json) : TextEntry :=
  { t with
    value := a.value.text?.getD t.value
    reproach := a.error
    checked := none
    pending := none
    acceptWaits := false }

/-! ## Messages -/

/-- The message is put on display, unless it is there already. -/
def display (t : TextEntry) (message : Option String) : List Act × TextEntry :=
  if t.shown = message then ([], t)
  else ([.call (.setMessage message)], { t with shown := message })

/-- What happens when the control is first shown: an earlier refusal is put on display. -/
def start (t : TextEntry) : List Act × TextEntry :=
  match t.reproach with
  | some message => display { t with reproach := none } (some message)
  | none => ([], t)

/-! ## Checking -/

/-- A check of the current text, in place of the one in flight. -/
def beginCheck (t : TextEntry) (v : Validator) : List Act × TextEntry :=
  let j := v t.checks t.value
  let busy : List Act := if t.pending.isNone then [.call (.setBusy true)] else []
  (busy ++ Act.ofNotes j.notes,
    { t with checks := t.checks + 1, pending := some ⟨t.value, j.delay, j.verdict⟩ })

/-- The verdict on the current text, `none` while it is being checked. A text without a verdict
is given to the validator. -/
def judge (t : TextEntry) : List Act × TextEntry × Option (Option String) :=
  match t.validator with
  | none =>
    let (acts, t) := t.display none
    (acts, t, some none)
  | some v =>
    match t.checked with
    | some (text, verdict) =>
      if text = t.value then
        -- a check of another text may still be in flight; it stays there
        let (acts, t) := t.display verdict
        (acts, t, some verdict)
      else underway t v
    | none => underway t v
where
  /-- The check of the current text is started, unless it is in flight. -/
  underway (t : TextEntry) (v : Validator) : List Act × TextEntry × Option (Option String) :=
    if t.pending.any fun p => p.text = t.value then ([], t, none)
    else
      let (acts, t) := t.beginCheck v
      (acts, t, none)

/-- A look at the check in flight. -/
def look (t : TextEntry) : List Act × TextEntry × Look :=
  match t.pending with
  | none => ([], t, .await)
  | some p =>
    if p.delay.isOver then
      let t := { t with pending := none }
      match p.verdict with
      | .error f => ([.call (.setBusy false)], t, .failed f)
      | .ok verdict =>
        -- the verdict belongs to the text that was checked, which need not be the current one
        let (acts, t) := display { t with checked := some (p.text, verdict) } verdict
        (.call (.setBusy false) :: acts, { t with acceptWaits := false },
          if t.acceptWaits then .replay else .await)
    else ([], { t with pending := some { p with delay := p.delay.wait } }, .await)

/-! ## Events -/

/-- What an event comes to: the reply that it settles the question with, if any. -/
def handle (t : TextEntry) : Event → List Act × TextEntry × Option (Reply Json)
  | .changed text =>
    let t := { t with value := text, acceptWaits := false }
    if t.eager then
      let (acts, t, _) := t.judge
      (acts, t, none)
    else
      let idle : List Act := if t.pending.isSome then [.call (.setBusy false)] else []
      let (acts, t) := display { t with pending := none } none
      (idle ++ acts, t, none)
  | .accept =>
    match t.judge with
    | (acts, t, none) => (acts, { t with acceptWaits := true }, none)
    | (acts, t, some (some _)) => (acts, t, none)
    | (acts, t, some none) => (acts, t, some (.value (.text t.value)))
  | _ => ([], t, none)

end TextEntry

end Interview
