import Interview.Run
/-
Steps: what happens around the asking of one field.

A step of a run holds its question from the making to the disposing: it is made, restored
from an earlier attempt and placed before it is asked, and once it was asked it is disposed
before its reply is looked at. Then the reply is settled: an answer is encoded, weighed and
stored; going back lands on an earlier field; leaving ends the run. Whatever fails on the
way ends the run as well.

Only the asking itself is missing here, so a step is described for every question at once.
-/

set_option autoImplicit false

namespace Interview

/-- How a run ends when it does not fail. -/
inductive Ending
  /-- The form is filled. -/
  | completed (d : Draft)
  /-- The user went back out of the first step. -/
  | back
  /-- The user left. -/
  | cancelled

/-! ## Before the question is asked -/

/-- The question of a field, ready to be asked: restored from the attempt, if that is of the right
type, and placed. -/
def prepareQuestion (f : Field) (attempt : Option (Attempt Json)) (current total : Nat)
    (q : Question) (w : Session) : Question × Session :=
  let (q, w) :=
    match attempt.bind f.type.attempt? with
    | some a => q.restore a w
    | none => (q, w)
  q.place current total w

/-- The session in which an observer was told something. -/
def Session.report (o : Options) (r : Report) (w : Session) : Session :=
  w.emit (o.observer.entries r)

/-- The question of a step is made and prepared, and the observer is told of the step. -/
def Run.present (r : Run) (o : Options) (form : Form) (place : Nat) (f : Field)
    (attempt : Option (Attempt Json)) (make : Session → Question × Session) (w : Session) :
    Question × Session :=
  let current := r.current
  let total := r.total form place
  let (q, w) := make w
  let (q, w) := prepareQuestion f attempt current total q w
  (q, w.report o (.step f.path current total))

/-! ## Weighing an answer -/

/-- What the check of a field makes of an answer. -/
inductive Weighed
  | accepted
  | rejected (message : String)
  | failed (e : RunError)
  | suspended

/-- An answer is weighed: it is read back as an answer of its type and given to the check of its
field. A field without a check accepts everything. -/
def weigh (f : Field) (v : Json) (d : Draft) (w : Session) : Weighed × Session :=
  match f.check with
  | none => (.accepted, w)
  | some check =>
    match f.type.decode? v with
    | none => (.failed (.draft (.decode f.path)), w)
    | some answer =>
      let j := check answer d
      let w := w.emit (j.notes.map Entry.noted)
      if j.delay.isNever then (.suspended, w)
      else
        match j.verdict with
        | .error cause => (.failed (.collaborator cause), w)
        | .ok (some message) => (.rejected message, w)
        | .ok none => (.accepted, w)

/-! ## After the question was asked -/

/-- Where a reply leads. -/
inductive Course
  /-- The run is over. -/
  | ends (o : Outcome Ending)
  /-- The run looks for its next step. -/
  | goesOn (r : Run)

/-- An answer is settled: it is encoded, weighed, and stored if it is accepted. -/
def Run.settleAnswer (r : Run) (o : Options) (place : Nat) (f : Field) (answer : Json)
    (w : Session) : Course × Session :=
  match f.type.encode answer with
  | .error detail => (.ends (.failed (.draft (.encode f.path detail))), w)
  | .ok v =>
    match weigh f v r.draft w with
    | (.failed e, w) => (.ends (.failed e), w)
    | (.suspended, w) => (.ends .suspended, w)
    | (.rejected message, w) =>
      (.goesOn (r.reject place v message), w.report o (.rejected f.path message))
    | (.accepted, w) =>
      match r.accept place f.path v with
      | .error e => (.ends (.failed (.draft e)), w)
      | .ok r => (.goesOn r, w.report o (.answered f.path))

/-- Going back is settled: the run lands on an earlier field, or ends when there is none. -/
def Run.settleBack (r : Run) (o : Options) (form : Form) (place : Nat) (f : Field)
    (w : Session) : Course × Session :=
  match r.landing? place with
  | none => (.ends (.done .back), w.report o (.back f.path none))
  | some earlier =>
    let target := ((form.fields[earlier]?).map Field.path).getD .root
    -- the observer is told before anything is cleared, and so also when clearing fails
    let w := w.report o (.back f.path (some target))
    match r.goBack o.policy form earlier target with
    | .error e => (.ends (.failed (.draft e)), w)
    | .ok r => (.goesOn r, w)

/-- What the question of a step came to is settled. -/
def Run.settle (r : Run) (o : Options) (form : Form) (place : Nat) (f : Field)
    (outcome : Outcome (Reply Json)) (w : Session) : Course × Session :=
  match outcome with
  | .done (.value answer) => r.settleAnswer o place f answer w
  | .done .back => r.settleBack o form place f w
  | .done .cancel => (.ends (.done .cancelled), w.report o (.cancelled f.path))
  | .failed e => (.ends (.failed e), w)
  | .suspended => (.ends .suspended, w)
  | .exhausted => (.ends .exhausted, w)

/-- A run without a next step is over: it is completed if everything required is there. -/
def Run.conclude (r : Run) (o : Options) (form : Form) (w : Session) : Outcome Ending × Session :=
  match r.missing? form with
  | some p => (.failed (.unfilled p), w)
  | none => (.done (.completed r.draft), w.report o (.completed r.history.length))

end Interview
