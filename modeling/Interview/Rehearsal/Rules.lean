import Interview.Question
import Interview.Text.Occurs
/-
Rules for rehearsals: conditions, validators, checks and offers that are written down as
data.

A list of rules is read from the top, and the first rule that matches decides. Where no
rule matches, a text or an answer is accepted, and a field has no question.
-/

set_option autoImplicit false

namespace Interview.Rehearsal

/-! ## Conditions on drafts -/

/-- A condition on a draft. -/
inductive Condition
  | always
  /-- There is a value at a path. -/
  | has (p : Path)
  /-- The value at a path is this one. -/
  | equals (p : Path) (v : Json)
  /-- The text at a path is this one. -/
  | text (p : Path) (s : String)
  | not (c : Condition)
  | all (cs : List Condition)
  | any (cs : List Condition)

instance : Inhabited Condition := ⟨.always⟩

mutual

/-- Whether a condition holds of a draft. -/
def Condition.holds (d : Draft) : Condition → Bool
  | .always => true
  | .has p => d.contains p
  | .equals p v => (d.get? p).any fun w => w == v
  | .text p s => d.text? p == some s
  | .not c => !c.holds d
  | .all cs => allHold d cs
  | .any cs => anyHolds d cs

/-- Whether all conditions hold. -/
def allHold (d : Draft) : List Condition → Bool
  | [] => true
  | c :: cs => c.holds d && allHold d cs

/-- Whether some condition holds. -/
def anyHolds (d : Draft) : List Condition → Bool
  | [] => false
  | c :: cs => c.holds d || anyHolds d cs

end

/-! ## Verdicts -/

/-- What a rule that matches decides, and after what delay. -/
structure Verdict where
  delay : Delay
  failure : Option Failure
  refusal : Option String

/-- The judgement that a verdict is: a failure goes before a refusal. -/
def Verdict.judgement (v : Verdict) (notes : List Note) : Judgement :=
  ⟨notes, v.delay,
    match v.failure with
    | some f => .error f
    | none => .ok v.refusal⟩

/-! ## Rules for texts -/

/-- A rule for texts. It matches when everything that it asks for holds. -/
structure TextRule where
  equals : Option String
  contains : Option String
  /-- The text has more characters than this. -/
  longer : Option Nat
  verdict : Verdict

/-- Whether a rule matches a text. -/
def TextRule.holds (r : TextRule) (s : String) : Bool :=
  (r.equals.all fun t => s = t) && (r.contains.all fun t => Text.occurs t.toList s.toList) &&
    r.longer.all fun n => n < s.length

/-- The validator that some rules are. One that answers at once knows no delays and no failures. -/
def validator (atOnce : Bool) (rules : List TextRule) : Validator := fun _ s =>
  match rules.find? fun r => r.holds s with
  | none => { Judgement.now none with notes := [.checked s] }
  | some r =>
    if atOnce then { Judgement.now r.verdict.refusal with notes := [.checked s] }
    else r.verdict.judgement [.checked s]

/-! ## Rules for answers -/

/-- A rule for the answers of a field. -/
structure AnswerRule where
  answer : Option Json
  condition : Condition
  verdict : Verdict

/-- The check that some rules are. While a field is checked there is no user to attend to, so a
rehearsal looks for the outcome only once: with any delay, the run waits for ever. -/
def check (field : String) (rules : List AnswerRule) (v : Json) (d : Draft) : Judgement :=
  let notes := [Note.weighed field v d.toJson]
  match rules.find? fun r => (r.answer.all fun w => w == v) && r.condition.holds d with
  | none => { Judgement.now none with notes }
  | some r => { r.verdict with delay := r.verdict.delay.once }.judgement notes

/-! ## Offers -/

/-- The first offer whose condition holds. -/
def firstOffer (cases : List (Condition × Offer)) (d : Draft) : Offer :=
  match cases.find? fun c => c.1.holds d with
  | some (_, offer) => offer
  | none => .decline

/-- What a field notes when it is asked for its question: the draft, the attempt as an answer of its
type, and the texts at some paths. -/
def consultNote (type : AnswerType) (reads : List Path) (c : Context) : Note :=
  .consulted c.path.toText c.draft.toJson (c.attempt.bind type.attempt?)
    (reads.map fun p => c.draft.text? p)

end Interview.Rehearsal
