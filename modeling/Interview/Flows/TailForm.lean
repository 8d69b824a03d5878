import Interview.Flows.LogGroups
import Interview.Flows.PatternEntry
import Interview.Flows.TailRequest
import Interview.Sitting
/-
The interview for a live-tail request: a log group, a filter pattern and a start.

A log group that is given beforehand is never asked for, so going back from the pattern
then leaves the interview.
-/

set_option autoImplicit false

namespace Interview.TailRequest

/-- The question for the start. -/
def startQuestion (w : Wording) : Question :=
  let items := StartFrom.all.map fun s => Item.new s.label (.text s.name)
  let screen := Screen.new w (.list (PickList.new (.fixed items) false))
  .screen { screen with title := some "Start from" }.withBack

/-- The form of a request. -/
def form (w : Wording) (groups : LogGroups) (v : Validator) : Form :=
  Form.empty
    |>.bind (.asking (.ofText "logGroup") (.shaped LogGroupChoice.shape) (groups.question w))
    |>.bind (.asking (.ofText "pattern") (.shaped .text) (FilterPattern.question w v))
    |>.bind (.asking (.ofText "start") (.shaped StartFrom.shape) (startQuestion w))

/-- The draft that a form starts from when the log group is given beforehand. -/
def preset (choice : Option LogGroupChoice) : Except DraftError Draft :=
  match choice with
  | some c => Draft.empty.set (.ofText "logGroup") c.answer
  | none => .ok .empty

/-- The sitting for a request. -/
def sitting (w : Wording) (groups : LogGroups) (v : Validator) (choice : Option LogGroupChoice)
    (options : Options) : Except DraftError Sitting :=
  (preset choice).map fun d => .new (form w groups v) d options

end Interview.TailRequest
