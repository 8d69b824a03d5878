import Interview.Answer.Shape
/-
Live-tail requests: which log group to follow, which of its events to show, and from when.

A log group is chosen in two tiers, so a choice names both: the region is its key, and the
log group is the item picked under that key.
-/

set_option autoImplicit false

namespace Interview

/-- A log group under the region it was picked from. -/
structure LogGroupChoice where
  region : String
  group : String
deriving DecidableEq, Repr

/-- Where a tail starts. -/
inductive StartFrom
  | now
  | fiveMinutesAgo
  | oneHourAgo
deriving DecidableEq, Repr

/-- A live-tail request. -/
structure TailRequest where
  logGroup : LogGroupChoice
  pattern : String
  start : StartFrom
deriving DecidableEq, Repr

namespace LogGroupChoice

/-- The shape of a written choice. -/
def shape : Shape := .choice .text .text

/-- The choice that a value is. -/
def ofJson? (v : Json) : Option LogGroupChoice := do
  let r ← shape.decode? v
  let region ← (r.member? "key").bind Json.text?
  let group ← (r.member? "item").bind Json.text?
  return ⟨region, group⟩

/-- The written form, its parts in the order of the declaration. -/
def toJson (c : LogGroupChoice) : Json :=
  .object [("key", .text c.region), ("item", .text c.group)]

/-- The choice as an answer in a draft. -/
def answer (c : LogGroupChoice) : Json :=
  .ofMembers [("key", .text c.region), ("item", .text c.group)]

end LogGroupChoice

namespace StartFrom

/-- All starts, in the order in which they are offered. -/
def all : List StartFrom := [now, fiveMinutesAgo, oneHourAgo]

/-- The written name of a start. -/
def name : StartFrom → String
  | now => "now"
  | fiveMinutesAgo => "five_minutes_ago"
  | oneHourAgo => "one_hour_ago"

/-- What the user reads. -/
def label : StartFrom → String
  | now => "Now"
  | fiveMinutesAgo => "5 minutes ago"
  | oneHourAgo => "1 hour ago"

/-- How many seconds before now the first event may be. -/
def lookback : StartFrom → Nat
  | now => 0
  | fiveMinutesAgo => 5 * 60
  | oneHourAgo => 60 * 60

/-- The start with a written name. -/
def ofName? (s : String) : Option StartFrom :=
  all.find? fun k => k.name = s

/-- The shape of a written start. -/
def shape : Shape := .variant (all.map name)

/-- The start that a value is. -/
def ofJson? (v : Json) : Option StartFrom :=
  (shape.decode? v).bind fun w => w.text?.bind ofName?

end StartFrom

namespace TailRequest

/-- The shape of a written request. -/
def shape : Shape :=
  .record [("logGroup", LogGroupChoice.shape), ("pattern", .text), ("start", StartFrom.shape)]

/-- The request that a value is. -/
def ofJson? (v : Json) : Option TailRequest := do
  let r ← shape.decode? v
  let logGroup ← (r.member? "logGroup").bind LogGroupChoice.ofJson?
  let pattern ← (r.member? "pattern").bind Json.text?
  let start ← (r.member? "start").bind StartFrom.ofJson?
  return ⟨logGroup, pattern, start⟩

/-- The written form, its parts in the order of the declaration. -/
def toJson (r : TailRequest) : Json :=
  .object [("logGroup", r.logGroup.toJson), ("pattern", .text r.pattern),
    ("start", .text r.start.name)]

end TailRequest

end Interview
