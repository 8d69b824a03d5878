import Interview.TwoTier
/-
Log groups: a catalogue of regions with their log groups, and the question that picks a
log group in two tiers.

The same region may be listed more than once; its log groups are those given last. A region
may also be listed without being known to the lookup, and then opening it fails. A region
without log groups leads back to the list of regions.
-/

set_option autoImplicit false

namespace Interview

/-- A cloud region. -/
structure Region where
  id : String
  name : String
deriving DecidableEq, Repr

/-- Regions and their log groups. -/
structure LogGroups where
  /-- The regions on offer, in the order in which they are shown. -/
  regions : List Region
  /-- The log groups of the regions that are known, by the region's id. -/
  groups : List (String × List String)
  /-- How long a lookup takes. -/
  latency : Delay

namespace LogGroups

/-- No regions. -/
def empty : LogGroups := ⟨[], [], .none⟩

/-- The catalogue with one more region and its log groups. -/
def withRegion (g : LogGroups) (r : Region) (groups : List String) : LogGroups :=
  { g with
    regions := g.regions ++ [r]
    groups := (r.id, groups) :: g.groups.filter fun p => p.1 ≠ r.id }

/-- The catalogue with one more region that only appears in the list. -/
def withListed (g : LogGroups) (r : Region) : LogGroups :=
  { g with regions := g.regions ++ [r] }

/-- A few regions to try things out. -/
def sample : LogGroups :=
  empty
    |>.withRegion ⟨"us-east-1", "US East (N. Virginia)"⟩
      ["/aws/lambda/orders-api", "/aws/lambda/orders-worker", "/aws/lambda/payments"]
    |>.withRegion ⟨"eu-west-1", "Europe (Ireland)"⟩
      ["/aws/lambda/orders-api", "/aws/lambda/thumbnailer"]
    |>.withRegion ⟨"ap-southeast-2", "Asia Pacific (Sydney)"⟩ []

/-- The log groups of a region. -/
def lookup (g : LogGroups) (region : String) : Except Failure (List String) :=
  match g.groups.find? fun p => p.1 = region with
  | some (_, groups) => .ok groups
  | none => .error (.because ("Unknown region " ++ region))

/-- The lookup of a region as the items of a list. A successful one is logged. -/
def load (g : LogGroups) (region : String) : Load :=
  let found := g.lookup region
  let notes : List Entry :=
    match found with
    | .ok groups =>
      [.logged ⟨.debug, "Fetched log groups",
        [("region", .text region), ("count", .int groups.length)]⟩]
    | .error _ => []
  ⟨[], [⟨notes, g.latency, found.map fun groups => groups.map Item.labelled⟩], .none⟩

/-- A region as an item: its name, with its id as description. -/
def regionItem (r : Region) : Item :=
  { Item.new r.name (.text r.id) with description := some r.id }

/-- The question for a log group: a region first, then one of its log groups. -/
def question (w : Wording) (g : LogGroups) : Question :=
  .lookup w "Log group" (g.regions.map regionItem) fun region =>
    g.load (region.text?.getD "")

end LogGroups

end Interview
