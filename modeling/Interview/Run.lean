import Interview.Question
/-
Runs: walking a form until its draft is filled.

A run never fixes the order of its steps in advance. After each reply it looks again for
the first field that is open: not assumed from the start, not answered in this run and not
skipped. A field that does not apply, or has no question, is skipped on the way.

Going back lands on the last answered field before the present one. That field is opened
again and falls back to what the draft had at the start; of the later fields those that
the policy calls stale are treated likewise, and their answers are not offered again.

Everything here is a function of the run and of the replies. Questions are asked elsewhere,
so what the run does with replies can be studied for every possible user.
-/

set_option autoImplicit false

namespace Interview

/-! ## The state of a run -/

/-- The state of a run. Fields are known by their places in the form. -/
structure Run where
  /-- The draft at the start. -/
  initial : Draft
  /-- The fields that the draft filled at the start. -/
  assumed : List Nat
  /-- The draft so far. -/
  draft : Draft
  /-- The answers to offer again, at the paths of their fields. -/
  recent : Draft
  /-- The fields answered in this run, in the order of the answers. -/
  history : List Nat
  /-- The fields left out. -/
  skipped : List Nat
  /-- The field whose answer was just refused, with the refused answer. -/
  retry : Option (Nat × Attempt Json)

namespace Run

/-- The places of the fields that a draft fills. -/
def filledPlaces (form : Form) (d : Draft) : List Nat :=
  (form.fields.zipIdx.filter fun p => p.1.isFilled d).map Prod.snd

/-- The start of a run, with answers to offer again. A required field that is not there and that no
question can fill makes the run hopeless. -/
def start (form : Form) (initial recent : Draft) : Except RunError Run :=
  match form.required.find? fun p => !initial.contains p && !form.isBound p with
  | some p => .error (.unbound p)
  | none =>
    .ok {
      initial, recent
      assumed := filledPlaces form initial
      draft := initial
      history := []
      skipped := []
      retry := none }

/-! ## Finding the next step -/

/-- Whether a field is passed over: it is skipped, answered or filled. -/
def isClosed (r : Run) (i : Nat) (f : Field) : Bool :=
  r.skipped.contains i || r.history.contains i || f.isFilled r.draft

/-- The attempt to offer at a field: the answer refused just now, or else the one to offer again. -/
def attemptAt (r : Run) (i : Nat) (f : Field) : Option (Attempt Json) :=
  match r.retry with
  | some (j, a) => if j = i then some a else (r.recent.get? f.path).map fun v => ⟨v, none⟩
  | none => (r.recent.get? f.path).map fun v => ⟨v, none⟩

/-- The run without the refused answer of a field, once it has been offered again. -/
def withoutRetry (r : Run) (i : Nat) : Run :=
  match r.retry with
  | some (j, _) => if j = i then { r with retry := none } else r
  | none => r

/-- The run with a field left out. -/
def skip (r : Run) (i : Nat) : Run :=
  { r with skipped := i :: r.skipped }

/-- What the search for the next step has come to. -/
inductive Found
  /-- There is nothing left to ask. -/
  | nothing
  /-- The question of a field could not be made. -/
  | failed (e : RunError)
  /-- A field with its question, and the attempt to offer. -/
  | step (place : Nat) (field : Field) (attempt : Option (Attempt Json))
      (make : Session → Question × Session)

/-- The search for the next step among the fields from a place on. Fields that do not apply or have
no question are skipped, and the observer is told. -/
def seekFrom (o : Options) (r : Run) : Nat → List Field → List Entry × Run × Found
  | _, [] => ([], { r with retry := none }, .nothing)
  | i, f :: rest =>
    if r.isClosed i f then seekFrom o r (i + 1) rest
    else if !f.condition r.draft then
      let (entries, r, found) := seekFrom o (r.skip i) (i + 1) rest
      (o.observer.entries (.skipped f.path) ++ entries, r, found)
    else
      let attempt := r.attemptAt i f
      -- the question is asked for with the draft as it is now, after the fields skipped before it
      let c : Context := ⟨f.path, r.draft, attempt, o⟩
      let notes := (f.notes c).map Entry.noted
      let r := r.withoutRetry i
      match f.offer c with
      | .decline =>
        let (entries, r, found) := seekFrom o (r.skip i) (i + 1) rest
        (notes ++ o.observer.entries (.skipped f.path) ++ entries, r, found)
      | .fail cause => (notes, { r with retry := none }, .failed (.factory f.path cause))
      | .ask make => (notes, { r with retry := none }, .step i f attempt make)

/-- The search for the next step. -/
def seek (o : Options) (form : Form) (r : Run) : List Entry × Run × Found :=
  r.seekFrom o 0 form.fields

/-- The number of the step at hand: one more than the answers given. -/
def current (r : Run) : Nat :=
  r.history.length + 1

/-- How many of the fields from a place on are open. -/
def openFrom (r : Run) : Nat → List Field → Nat
  | _, [] => 0
  | i, f :: rest => (if r.isClosed i f then 0 else 1) + r.openFrom (i + 1) rest

/-- The estimated number of steps, when the step at hand is that of the field at a place: as if no
later field that is still open were going to be skipped. -/
def total (r : Run) (form : Form) (place : Nat) : Nat :=
  r.current + r.openFrom (place + 1) (form.fields.drop (place + 1))

/-! ## Taking replies -/

/-- The run with an answer stored. -/
def accept (r : Run) (i : Nat) (path : Path) (v : Json) : Except DraftError Run := do
  let draft ← r.draft.set path v
  let recent ← r.recent.set path v
  return { r with draft, recent, history := r.history ++ [i] }

/-- The run with an answer refused. -/
def reject (r : Run) (i : Nat) (v : Json) (message : String) : Run :=
  { r with retry := some (i, ⟨v, some message⟩) }

/-- The place that going back from a field lands on: the last answered field before it. -/
def landing? (r : Run) (i : Nat) : Option Nat :=
  r.history.reverse.find? fun j => j < i

/-- A draft with the value at a path as it was at the start. -/
def reset (initial : Draft) (p : Path) (d : Draft) : Except DraftError Draft :=
  let d := (d.remove p).2
  match initial.get? p with
  | some v => d.set p v
  | none => .ok d

/-- What is cleared so far in the course of going back. -/
structure Clearing where
  draft : Draft
  recent : Draft
  /-- The places of the cleared fields. -/
  cleared : List Nat

/-- Whether a field is stale when some fields were cleared: always, or if it depends on one of
them, as the policy says. -/
def isStale (policy : Policy) (form : Form) (cleared : List Nat) (f : Field) : Bool :=
  match policy with
  | .declarationOrder => true
  | .declaredDependencies =>
    f.dependsOn.any fun d =>
      cleared.any fun i => (form.fields[i]?).any fun g => g.path.overlaps d

/-- The stale fields from a place on are cleared, one after the other. What was assumed at the start
stays. -/
def clearFrom (r : Run) (policy : Policy) (form : Form) :
    Nat → List Field → Clearing → Except DraftError Clearing
  | _, [], c => .ok c
  | i, f :: rest, c =>
    if r.assumed.contains i then clearFrom r policy form (i + 1) rest c
    else if isStale policy form c.cleared f then do
      -- unlike the field gone back to, a stale field also loses the answer to offer again
      let draft ← reset r.initial f.path c.draft
      let recent := (c.recent.remove f.path).2
      clearFrom r policy form (i + 1) rest ⟨draft, recent, c.cleared ++ [i]⟩
    else clearFrom r policy form (i + 1) rest c

/-- Everything that going back to a place clears. The field there keeps its recent answer. -/
def rewind (r : Run) (policy : Policy) (form : Form) (place : Nat) (path : Path) :
    Except DraftError Clearing := do
  let draft ← reset r.initial path r.draft
  r.clearFrom policy form (place + 1) (form.fields.drop (place + 1)) ⟨draft, r.recent, [place]⟩

/-- The run after going back to a place. -/
def goBack (r : Run) (policy : Policy) (form : Form) (place : Nat) (path : Path) :
    Except DraftError Run := do
  let c ← r.rewind policy form place path
  return { r with
    draft := c.draft
    recent := c.recent
    history := r.history.filter fun j => !c.cleared.contains j
    skipped := r.skipped.filter fun j => j < place }

/-! ## The end -/

/-- The first required path that the draft does not contain. -/
def missing? (r : Run) (form : Form) : Option Path :=
  form.required.find? fun p => !r.draft.contains p

end Run

end Interview
