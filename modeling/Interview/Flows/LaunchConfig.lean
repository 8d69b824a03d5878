import Interview.Answer.Shape
/-
Launch configurations for debugging a serverless function locally.

What a configuration consists of depends on its target: a `code` target has a handler, a
`template` target a resource of a template, and an `api` target such a resource and the
route that triggers it. The type leaves all of them optional, because that is the written
form; which of them are there for which target is a matter of the form that asks.
-/

set_option autoImplicit false

namespace Interview

/-! ## The parts -/

/-- What is launched. -/
inductive TargetKind
  /-- A handler in a source file. -/
  | code
  /-- A function resource of a template. -/
  | template
  /-- A route in front of a template resource. -/
  | api
deriving DecidableEq, Repr

/-- The methods a route can answer to. -/
inductive HttpMethod
  | get
  | post
  | put
  | patch
  | delete
deriving DecidableEq, Repr

/-- A function resource of a template. -/
structure TemplateTarget where
  path : String
  logicalId : String
deriving DecidableEq, Repr

/-- A route. -/
structure ApiTarget where
  path : String
  method : HttpMethod
deriving DecidableEq, Repr

/-- A launch configuration. -/
structure LaunchConfig where
  name : String
  target : TargetKind
  handler : Option String
  template : Option TemplateTarget
  api : Option ApiTarget
  runtime : String
  event : Option Json

/-! ## Names -/

namespace TargetKind

/-- All targets, in the order in which they are offered. -/
def all : List TargetKind := [code, template, api]

/-- The written name of a target. -/
def name : TargetKind → String
  | code => "code"
  | template => "template"
  | api => "api"

/-- The target with a written name. -/
def ofName? (s : String) : Option TargetKind :=
  all.find? fun k => k.name = s

/-- The shape of a written target. -/
def shape : Shape := .variant (all.map name)

/-- The target that a value is. -/
def ofJson? (v : Json) : Option TargetKind :=
  (shape.decode? v).bind fun w => w.text?.bind ofName?

end TargetKind

namespace HttpMethod

/-- All methods, in the order in which they are offered. -/
def all : List HttpMethod := [get, post, put, patch, delete]

/-- The written name of a method. -/
def name : HttpMethod → String
  | get => "GET"
  | post => "POST"
  | put => "PUT"
  | patch => "PATCH"
  | delete => "DELETE"

/-- The method with a written name. -/
def ofName? (s : String) : Option HttpMethod :=
  all.find? fun m => m.name = s

/-- The shape of a written method. -/
def shape : Shape := .variant (all.map name)

/-- The method that a value is. -/
def ofJson? (v : Json) : Option HttpMethod :=
  (shape.decode? v).bind fun w => w.text?.bind ofName?

end HttpMethod

/-! ## The runtimes of a target -/

/-- Runtimes that can be started straight from source. -/
def sourceRuntimes : List String := ["python3.12", "python3.11", "nodejs20.x", "nodejs18.x"]

/-- Runtimes that need a build first. -/
def builtRuntimes : List String := ["java21", "dotnet8", "provided.al2023"]

/-- The runtimes on offer for a target: a target that is built can have any of them. -/
def TargetKind.runtimes : TargetKind → List String
  | code => sourceRuntimes
  | template | api => sourceRuntimes ++ builtRuntimes

/-! ## The written form -/

namespace TemplateTarget

/-- The shape of a written template resource. -/
def shape : Shape := .record [("path", .text), ("logicalId", .text)]

/-- The template resource that a value is. -/
def ofJson? (v : Json) : Option TemplateTarget := do
  let r ← shape.decode? v
  let path ← (r.member? "path").bind Json.text?
  let logicalId ← (r.member? "logicalId").bind Json.text?
  return ⟨path, logicalId⟩

/-- The written form, its parts in the order of the declaration. -/
def toJson (t : TemplateTarget) : Json :=
  .object [("path", .text t.path), ("logicalId", .text t.logicalId)]

end TemplateTarget

namespace ApiTarget

/-- The shape of a written route. -/
def shape : Shape := .record [("path", .text), ("method", HttpMethod.shape)]

/-- The route that a value is. -/
def ofJson? (v : Json) : Option ApiTarget := do
  let r ← shape.decode? v
  let path ← (r.member? "path").bind Json.text?
  let method ← (r.member? "method").bind HttpMethod.ofJson?
  return ⟨path, method⟩

/-- The written form, its parts in the order of the declaration. -/
def toJson (t : ApiTarget) : Json :=
  .object [("path", .text t.path), ("method", .text t.method.name)]

end ApiTarget

namespace LaunchConfig

/-- The shape of a written configuration. -/
def shape : Shape :=
  .record
    [("name", .text), ("target", TargetKind.shape), ("handler", .defaulted .text),
      ("template", .defaulted TemplateTarget.shape), ("api", .defaulted ApiTarget.shape),
      ("runtime", .text), ("event", .defaulted .anything)]

/-- The configuration that a value is. -/
def ofJson? (v : Json) : Option LaunchConfig := do
  let r ← shape.decode? v
  let name ← (r.member? "name").bind Json.text?
  let target ← (r.member? "target").bind TargetKind.ofJson?
  let runtime ← (r.member? "runtime").bind Json.text?
  return {
    name, target, runtime
    handler := (r.member? "handler").bind Json.text?
    template := (r.member? "template").bind TemplateTarget.ofJson?
    api := (r.member? "api").bind ApiTarget.ofJson?
    event := (r.member? "event").filter fun v => !v.isNull }

/-- The written form, its parts in the order of the declaration. What is absent is left out. -/
def toJson (c : LaunchConfig) : Json :=
  .object <|
    [("name", .text c.name), ("target", .text c.target.name)] ++
      (c.handler.map fun s => ("handler", Json.text s)).toList ++
      (c.template.map fun t => ("template", t.toJson)).toList ++
      (c.api.map fun a => ("api", a.toJson)).toList ++
      [("runtime", .text c.runtime)] ++
      (c.event.map fun v => ("event", v)).toList

end LaunchConfig

end Interview
