import Interview.Step
/-
Conducting: asking questions and running forms.

The two belong together, because a form can be asked as a question and running a form asks
questions. Both take a number that bounds the turns of any one loop together with the depth
of nesting; when it does not suffice the outcome says so, and in every other case a greater
number gives the same outcome.
-/

set_option autoImplicit false

namespace Interview

/-- The answer of a two-tier question. -/
def choiceAnswer (key item : Json) : Json :=
  .ofMembers [("key", key), ("item", item)]

/-- The question of a tier, ready to be asked: placed, if the two-tier question was. -/
def prepareTier (steps : Option (Nat × Nat)) (q : Question) (w : Session) : Question × Session :=
  match steps with
  | some (current, total) => q.place current total w
  | none => (q, w)

/-- The question of a tier goes when it has come to an outcome. One that is still waiting is only
dropped. -/
def releaseTier {α : Type} (o : Outcome α) (q : Question) (w : Session) : Session :=
  match o with
  | .suspended => q.drop w
  | _ => (q.dispose w).2

/-- The reply of a form that was asked as one question. -/
def Ending.reply : Ending → Reply Json
  | completed d => .value d.toJson
  | back => .back
  | cancelled => .cancel

/-- The answers that a form offers again when it is asked once more: those of its last completed
run. -/
def recentAfter (recent : Draft) : Outcome Ending → Draft
  | .done (.completed d) => d
  | _ => recent

/-- What is noted of a question under watch once it was asked: its reply, if it came to one. -/
def replyEntries (label : String) (type : AnswerType) : Outcome (Reply Json) → List Entry
  | .done r => [.used label (.replied (r.map type.shown))]
  | _ => []

mutual

/-- A question is asked. -/
def Question.ask : Nat → Question → Session → Outcome (Reply Json) × Question × Session
  | 0, q, w => (.exhausted, q, w)
  | n + 1, .screen s, w =>
    let (o, s, w) := s.ask n w
    (o, .screen s, w)
  | _ + 1, .deck id copy disposed, w =>
    let (r, w) := w.draw id copy
    (.done r, .deck id copy disposed, w)
  | n + 1, .mapped f inverse inner, w =>
    let (o, inner, w) := inner.ask n w
    (o.map (Reply.map f), .mapped f inverse inner, w)
  | n + 1, .twoTier keys items recent steps, w =>
    let (o, recent, w) := askTiers n keys items recent steps w
    (o, .twoTier keys items recent steps, w)
  | n + 1, .nested form initial recent options, w =>
    let (o, w) := conductForm n form options initial recent w
    (o.map Ending.reply, .nested form initial (recentAfter recent o) options, w)
  | n + 1, .watched label type inner, w =>
    let (o, inner, w) := inner.ask n (w.emit [.used label .asked])
    (o, .watched label type inner, w.emit (replyEntries label type o))
  | _ + 1, .failing cause, w => (.failed (.collaborator cause), .failing cause, w)
  | _ + 1, .unanswered, w => (.suspended, .unanswered, w)

/-- The two tiers are asked in turn until an item is picked or the first tier is left. Going back
from the items returns to the keys, with the key just left as the recent one. -/
def askTiers : Nat → (Option Json → Session → Question × Session) →
    (Json → Session → Question × Session) → Option Json → Option (Nat × Nat) → Session →
    Outcome (Reply Json) × Option Json × Session
  | 0, _, _, recent, _, w => (.exhausted, recent, w)
  | n + 1, keys, items, recent, steps, w =>
    let (q, w) := keys recent w
    let (q, w) := prepareTier steps q w
    let (o, q, w) := q.ask n w
    let w := releaseTier o q w
    match o with
    | .done (.value key) =>
      let (q, w) := items key w
      let (q, w) := prepareTier steps q w
      let (o, q, w) := q.ask n w
      let w := releaseTier o q w
      match o with
      | .done (.value item) => (.done (.value (choiceAnswer key item)), some key, w)
      -- the key just left counts as recent even if the first tier is left next
      | .done .back => askTiers n keys items (some key) steps w
      | o => (o, recent, w)
    | o => (o, recent, w)

/-- A form is run from the start. -/
def conductForm : Nat → Form → Options → Draft → Draft → Session → Outcome Ending × Session
  | 0, _, _, _, _, w => (.exhausted, w)
  | n + 1, form, options, initial, recent, w =>
    match Run.start form initial recent with
    | .error e => (.failed e, w)
    | .ok run => conduct n form options run w

/-- A run goes on until it ends: step by step, each with its question. -/
def conduct : Nat → Form → Options → Run → Session → Outcome Ending × Session
  | 0, _, _, _, w => (.exhausted, w)
  | n + 1, form, options, run, w =>
    let (entries, run, found) := run.seek options form
    let w := w.emit entries
    match found with
    | .failed e => (.failed e, w)
    | .nothing => run.conclude options form w
    | .step place field attempt make =>
      let (q, w) := run.present options form place field attempt make w
      let (o, q, w) := q.ask n w
      -- whatever the outcome is, the question goes before it is looked at
      let w := (q.dispose w).2
      match run.settle options form place field o w with
      | (.ends o, w) => (o, w)
      | (.goesOn run, w) => conduct n form options run w

end

end Interview
