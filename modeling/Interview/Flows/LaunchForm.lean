import Interview.Flows.LaunchConfig
import Interview.Json.Printer
import Interview.Json.Reader
import Interview.Sitting
import Interview.Text.Blank
import Interview.Text.Occurs
/-
The interview for a launch configuration.

Which questions come up depends on the target, so their fields apply only under some
targets and declare that they depend on it. A name that is already taken is refused by the
check of its field, and not by the line of text, because it has to be asked again with the
refused name on display.

The event payload is a JSON text, or nothing. A payload that is visited again is shown in
its compact form.
-/

set_option autoImplicit false

namespace Interview.LaunchConfig

/-! ## Checks of texts -/

/-- The validator that refuses texts without a property. -/
def refuseUnless (holds : String → Bool) (message : String) : Validator := fun _ s =>
  .now (if holds s then none else some message)

/-- The validator that refuses blank texts. -/
def notBlank (what : String) : Validator :=
  refuseUnless (fun s => !Text.isBlankText s) (what ++ " is required")

/-- Whether a text looks like a handler: it has a dot or a double colon. -/
def isHandler (s : String) : Bool :=
  s.toList.contains '.' || Text.occurs [':', ':'] s.toList

/-- Whether a text is a logical id: ASCII letters and digits, at least one. -/
def isLogicalId (s : String) : Bool :=
  !s.isEmpty && s.toList.all Char.isAlphanum

/-- Whether a text is the path of a route. -/
def isRoutePath (s : String) : Bool :=
  s.toList.head? = some '/'

/-! ## The event payload -/

/-- The levels of brackets that a payload may have. -/
def payloadDepth : Nat := 127

/-- The payload that a text is. A blank text is no payload. -/
def readPayload (s : String) : Except String (Option Json) :=
  if Text.isBlankText s then .ok none
  else
    match Json.read? payloadDepth s with
    | some v => .ok (some v)
    | none => .error "Invalid JSON: <detail>"

/-- The text that a payload is shown as. -/
def payloadText : Option Json → String
  | some v => v.compact
  | none => ""

/-- The payload of a stored answer: null stands for none. -/
def payloadOfAnswer : Json → Option Json
  | .null => none
  | v => some v

/-- The answer that is stored for a payload. -/
def payloadAnswer (p : Option Json) : Json :=
  p.getD .null

/-- The validator of payload texts. -/
def payloadValidator : Validator := fun _ s =>
  .now <|
    match readPayload s with
    | .ok _ => none
    | .error message => some message

/-- The answer that a payload text stands for. -/
def answerOfText (s : String) : Json :=
  match readPayload s with
  | .ok p => payloadAnswer p
  | .error _ => .null

/-! ## Questions -/

/-- A line of text with a title and a validator. -/
def lineOf (w : Wording) (title : String) (v : Validator) : Screen :=
  { Screen.new w (.text { TextEntry.new with validator := some v }) with title := some title }

/-- A list with a title and a back button. -/
def listOf (w : Wording) (title : String) (items : List Item) : Screen :=
  { Screen.new w (.list (PickList.new (.fixed items) false)) with title := some title }.withBack

/-- The question for the name. -/
def nameQuestion (w : Wording) : Question :=
  .screen (lineOf w "Configuration name" (notBlank "A name"))

/-- The question for the target. -/
def targetQuestion (w : Wording) : Question :=
  let item (label : String) (k : TargetKind) (description : String) : Item :=
    { Item.new label (.text k.name) with description := some description }
  .screen <| listOf w "Target"
    [item "Code" .code "a handler in a source file",
      item "Template" .template "a function resource of a template",
      item "API" .api "an API route of a template"]

/-- The question for the handler. -/
def handlerQuestion (w : Wording) : Question :=
  let screen := lineOf w "Handler" (refuseUnless isHandler "Expected <module>.<function>")
  .screen { screen with placeholder := some "app.lambda_handler" }.withBack

/-- The question for the path of the template. -/
def templatePathQuestion (w : Wording) : Question :=
  let screen := lineOf w "Template path" (notBlank "A template path")
  .screen { screen with placeholder := some "template.yaml" }.withBack

/-- The question for the resource of the template. -/
def logicalIdQuestion (w : Wording) : Question :=
  .screen (lineOf w "Resource logical id"
    (refuseUnless isLogicalId "Logical ids are alphanumeric")).withBack

/-- The question for the path of the route, which starts as a slash. -/
def routePathQuestion (w : Wording) : Question :=
  let line := { TextEntry.new with
    value := "/"
    validator := some (refuseUnless isRoutePath "Paths start with /") }
  .screen { Screen.new w (.text line) with title := some "API path" }.withBack

/-- The question for the method of the route. -/
def methodQuestion (w : Wording) : Question :=
  .screen <| listOf w "HTTP method" (HttpMethod.all.map fun m => Item.new m.name (.text m.name))

/-- The question for the runtime, among those of a target. -/
def runtimeQuestion (w : Wording) (k : TargetKind) : Question :=
  .screen <| listOf w "Runtime" (k.runtimes.map Item.labelled)

/-- The question for the event payload. -/
def eventQuestion (w : Wording) : Question :=
  let screen := lineOf w "Event payload" payloadValidator
  .mapped (fun v => answerOfText (v.text?.getD ""))
    (some fun v => .text (payloadText (payloadOfAnswer v)))
    (.screen { screen with placeholder := some "JSON event, empty for none" }.withBack)

/-! ## The form -/

/-- The path of the target. -/
def targetPath : Path := .ofText "target"

/-- The target in a draft, if a target is there. -/
def targetIn (d : Draft) : Option TargetKind :=
  (d.get? targetPath).bind TargetKind.ofJson?

/-- Whether the target in a draft is among some targets. -/
def targetIsOneOf (kinds : List TargetKind) (d : Draft) : Bool :=
  (targetIn d).any fun k => k ∈ kinds

/-- The check that refuses names that are taken. -/
def nameCheck (taken : List String) (answer : Json) (_ : Draft) : Judgement :=
  let name := answer.text?.getD ""
  .now <|
    if name ∈ taken then some ("A configuration named \"" ++ name ++ "\" already exists") else none

/-- A field that applies under some targets only. -/
def fieldUnder (kinds : List TargetKind) (path : String) (type : Shape) (q : Question) : Field :=
  { Field.asking (.ofText path) (.shaped type) q with
    condition := targetIsOneOf kinds
    dependsOn := [targetPath] }

/-- The field of the runtime. What is on offer depends on the target, and without one nothing is. -/
def runtimeField (w : Wording) : Field :=
  { Field.asking (.ofText "runtime") (.shaped .text) .unanswered with
    dependsOn := [targetPath]
    offer := fun c =>
      match targetIn c.draft with
      | none => .decline
      | some k => .ask fun s => (runtimeQuestion w k, s) }

/-- The form of a configuration, where some names are taken. -/
def form (w : Wording) (taken : List String) : Form :=
  let built : List TargetKind := [.template, .api]
  Form.empty
    |>.bind { Field.asking (.ofText "name") (.shaped .text) (nameQuestion w) with
        check := some (nameCheck taken) }
    |>.bind (.asking targetPath (.shaped TargetKind.shape) (targetQuestion w))
    |>.bind (fieldUnder [.code] "handler" .text (handlerQuestion w))
    |>.bind (fieldUnder built "template.path" .text (templatePathQuestion w))
    |>.bind (fieldUnder built "template.logicalId" .text (logicalIdQuestion w))
    |>.bind (fieldUnder [.api] "api.path" .text (routePathQuestion w))
    |>.bind (fieldUnder [.api] "api.method" HttpMethod.shape (methodQuestion w))
    |>.bind (runtimeField w)
    |>.bind (.asking (.ofText "event") (.shaped (.optional .anything)) (eventQuestion w))
    |>.require (.ofText "name")
    |>.require targetPath
    |>.require (.ofText "runtime")

/-- The sitting for a configuration. -/
def sitting (w : Wording) (taken : List String) (initial : Draft) (options : Options) : Sitting :=
  .new (form w taken) initial options

end Interview.LaunchConfig
