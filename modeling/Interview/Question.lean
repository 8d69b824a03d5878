import Interview.Draft.Basic
import Interview.Screen
/-
Questions, and the forms that ask them.

A question is anything that can be put before the user and comes to a reply. There are
simple ones, shown on a screen or answered from a deck; ones made of others; and whole
forms asked as one question. A form is a list of fields in the order in which they are
declared, and each field knows from the draft so far whether it applies and which question
it has.

Questions and forms contain one another, so their types are declared together. The
functions in this file are the ones that need no run: copying, restoring, placing,
disposing and dropping a question.
-/

set_option autoImplicit false

namespace Interview

/-! ## Options of a run -/

/-- Which answers are cleared when the user goes back to an earlier field. -/
inductive Policy
  /-- Those of all fields declared after it. -/
  | declarationOrder
  /-- Those of the fields that depend on it, directly or through other cleared fields. -/
  | declaredDependencies
deriving DecidableEq, Repr

/-- The options of a run. Forms inside a form are run with the same. -/
structure Options where
  observer : Observer
  policy : Policy
deriving DecidableEq, Repr

/-- The options of a run that was given none. -/
def Options.default : Options := ⟨.logging, .declarationOrder⟩

/-- What a field is asked for its question with. -/
structure Context where
  path : Path
  draft : Draft
  /-- The earlier answer to offer again, if there is one. -/
  attempt : Option (Attempt Json)
  options : Options

/-! ## Questions and forms -/

mutual

/-- Something that can be asked. -/
inductive Question
  /-- A question on a control of its own. -/
  | screen (s : Screen)
  /-- A copy of a question that is answered from a deck. -/
  | deck (id copy : Nat) (disposed : Bool)
  /-- A question whose answers are transformed. Only with an inverse can it be restored. -/
  | mapped (f : Json → Json) (inverse : Option (Json → Json)) (inner : Question)
  /-- A question for a key, then one for an item under that key. -/
  | twoTier (keys : Option Json → Session → Question × Session)
      (items : Json → Session → Question × Session) (recent : Option Json)
      (steps : Option (Nat × Nat))
  /-- A form asked as one question. -/
  | nested (form : Form) (initial recent : Draft) (options : Options)
  /-- A question whose uses are noted in the transcript. -/
  | watched (label : String) (type : AnswerType) (inner : Question)
  /-- A question that fails when it is asked. -/
  | failing (cause : Failure)
  /-- A question that is never answered. -/
  | unanswered

/-- What a field has to ask. -/
inductive Offer
  /-- There is nothing to ask; the field is left out. -/
  | decline
  /-- The question could not be made. -/
  | fail (cause : Failure)
  /-- A question, made in the session in which it will be asked. -/
  | ask (make : Session → Question × Session)

/-- A field of a form. -/
structure Field where
  path : Path
  /-- The type of its answers. -/
  type : AnswerType
  /-- Whether the field applies to the draft so far. -/
  condition : Draft → Bool
  /-- The paths that the field declares to depend on. -/
  dependsOn : List Path
  /-- The check of its answers, given the draft so far. -/
  check : Option (Json → Draft → Judgement)
  /-- Whether a value at its path answers it fully. -/
  complete : Json → Bool
  /-- What is noted when it is asked for its question. -/
  notes : Context → List Note
  /-- Its question. -/
  offer : Context → Offer

/-- A form: its fields in declared order, and the paths that a finished draft must contain. -/
structure Form where
  fields : List Field
  required : List Path

end

instance : Inhabited Question := ⟨.unanswered⟩

instance : Inhabited Offer := ⟨.decline⟩

instance : Inhabited Form := ⟨⟨[], []⟩⟩

/-! ## Before and after asking -/

namespace Question

/-- A fresh copy of a question. -/
def copy : Question → Session → Question × Session
  | screen s, w => (screen s.copy, w)
  | deck id _ _, w =>
    let (n, w) := w.copyDeck id
    (deck id n false, w)
  | mapped f inverse inner, w =>
    let (inner, w) := inner.copy w
    (mapped f inverse inner, w)
  | watched label type inner, w =>
    let (inner, w) := inner.copy (w.emit [.used label .copied])
    (watched label type inner, w)
  | q, w => (q, w)

/-- The question is told of an earlier attempt. -/
def restore (a : Attempt Json) : Question → Session → Question × Session
  | screen s, w => (screen (s.restore a), w)
  | deck id copy disposed, w => (deck id copy disposed, w.onDeck id fun d => d.restore a)
  | mapped f none inner, w => (mapped f none inner, w)
  | mapped f (some g) inner, w =>
    let (inner, w) := inner.restore (a.map g) w
    (mapped f (some g) inner, w)
  | twoTier keys items recent steps, w =>
    let key := (a.value.member? "key").or recent
    (twoTier keys items key steps, w)
  | nested form initial recent options, w =>
    match Draft.ofJson? a.value with
    | .ok d => (nested form initial d options, w)
    | .error _ => (nested form initial recent options, w)
  | watched label type inner, w =>
    let w := w.emit [.used label (.restored ⟨type.shown a.value, a.error⟩)]
    let (inner, w) := inner.restore a w
    (watched label type inner, w)
  | q, w => (q, w)

/-- A nested form is restored as the same form, with another draft at most. -/
theorem restore_nested (form : Form) (initial recent : Draft) (options : Options)
    (a : Attempt Json) (w : Session) :
    ∃ d, (nested form initial recent options).restore a w = (nested form initial d options, w) := by
  rw [restore]
  split
  · exact ⟨_, rfl⟩
  · exact ⟨_, rfl⟩

/-- The question is told where in the interview it is asked. -/
def place (current total : Nat) : Question → Session → Question × Session
  | screen s, w =>
    let (s, w) := s.place current total w
    (screen s, w)
  | deck id copy disposed, w => (deck id copy disposed, w.onDeck id fun d => d.place current total)
  | mapped f inverse inner, w =>
    let (inner, w) := inner.place current total w
    (mapped f inverse inner, w)
  | twoTier keys items recent _, w => (twoTier keys items recent (some (current, total)), w)
  | watched label type inner, w =>
    let (inner, w) := inner.place current total (w.emit [.used label (.placed current total)])
    (watched label type inner, w)
  | q, w => (q, w)

/-- The question gives up what it holds. Doing so again has no effect. -/
def dispose : Question → Session → Question × Session
  | screen s, w =>
    let (s, w) := s.dispose w
    (screen s, w)
  | deck id copy disposed, w =>
    if disposed then (deck id copy true, w)
    else (deck id copy true, w.onDeck id fun d => d.dispose copy)
  | mapped f inverse inner, w =>
    let (inner, w) := inner.dispose w
    (mapped f inverse inner, w)
  | watched label type inner, w =>
    let (inner, w) := inner.dispose (w.emit [.used label .disposed])
    (watched label type inner, w)
  | q, w => (q, w)

/-- The question goes out of use. A control that it still holds is disposed. -/
def drop : Question → Session → Session
  | screen s, w => (s.dispose w).2
  | mapped _ _ inner, w => inner.drop w
  | watched _ _ inner, w => inner.drop w
  | _, w => w

end Question

/-! ## Fields and forms -/

namespace Field

/-- Whether a draft answers the field. -/
def isFilled (f : Field) (d : Draft) : Bool :=
  match d.get? f.path with
  | none => false
  | some v => f.complete v

/-- A field without condition, dependencies and check, whose question is the same every time: a
fresh copy of one question. -/
def asking (path : Path) (type : AnswerType) (q : Question) : Field :=
  { path, type
    condition := fun _ => true
    dependsOn := []
    check := none
    complete := fun _ => true
    notes := fun _ => []
    offer := fun _ => .ask q.copy }

instance : Inhabited Field := ⟨asking .root (.shaped .anything) .unanswered⟩

end Field

namespace Form

/-- The form without fields. -/
def empty : Form := ⟨[], []⟩

/-- The form with one more field. A field with the path of an earlier one takes its place. -/
def bind (f : Form) (field : Field) : Form :=
  { f with
    fields :=
      if f.fields.any fun g => g.path = field.path then
        f.fields.map fun g => if g.path = field.path then field else g
      else f.fields ++ [field] }

/-- The form with one more path that a finished draft must contain. -/
def require (f : Form) (p : Path) : Form :=
  { f with required := f.required ++ [p] }

/-- Whether some field fills a path, directly or as part of an object. -/
def isBound (f : Form) (p : Path) : Bool :=
  f.fields.any fun g => p.startsWith g.path

/-- Whether a draft answers every field that applies to it. -/
def isFilledBy (f : Form) (d : Draft) : Bool :=
  f.fields.all fun g => g.isFilled d || !g.condition d

/-- The field at which a form is asked as one question. What the draft has of the form already is
kept and not asked for; an object there counts as an answer when it answers every field of the
form that applies. -/
def asField (path : Path) (form : Form) : Field :=
  { path
    type := .shaped .anything
    condition := fun _ => true
    dependsOn := []
    check := none
    complete := fun v =>
      match Draft.ofJson? v with
      | .ok d => form.isFilledBy d
      | .error _ => true
    notes := fun _ => []
    offer := fun c =>
      let start :=
        match c.draft.get? c.path with
        | some v => Draft.ofJson? v
        | none => .ok .empty
      match start with
      | .ok d => .ask fun w => (.nested form d .empty c.options, w)
      | .error e => .fail (.because e.message) }

end Form

end Interview
