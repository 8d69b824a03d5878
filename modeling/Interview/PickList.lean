import Interview.Act
import Interview.Judgement
import Interview.Wording
/-
Lists to pick from.

The items of a list are there from the start, or they arrive in batches while the user is
already choosing. Until the last batch is in the list is busy and says that it is loading;
an event is looked for only after everything that is ready has been taken in.

An item is shown as picked when it is flagged so, or when its data are among the recent
answers. Whenever the rows are set and nothing is selected, the picked items become the
selection. That nothing is selected may mean that nobody has chosen yet, or that the user
has chosen nothing; the list does not tell the two apart. Items that come in later and are
picked are shown so, but they are not added to a selection that is not empty.
-/

set_option autoImplicit false

namespace Interview

open Control (Event)

/-! ## Items and where they come from -/

/-- An entry of a list, with the data that it stands for. -/
structure Item where
  label : String
  description : Option String
  detail : Option String
  data : Json
  picked : Bool

namespace Item

/-- An item with nothing but a label. -/
def new (label : String) (data : Json) : Item :=
  ⟨label, none, none, data, false⟩

/-- An item that stands for its own label. -/
def labelled (label : String) : Item :=
  new label (.text label)

/-- How the item looks. -/
def row (i : Item) (picked : Bool) : Row :=
  ⟨i.label, i.description, i.detail, picked⟩

end Item

/-- Items that arrive together, or the failure to load them. -/
structure Batch where
  /-- What is noted when the batch arrives. -/
  notes : List Entry
  delay : Delay
  outcome : Except Failure (List Item)

/-- A supply of batches. -/
structure Load where
  /-- What is noted when the supply is opened. -/
  notes : List Entry
  batches : List Batch
  /-- How long after the last batch the supply ends. -/
  ending : Delay

/-- Where the items of a list come from. -/
inductive ItemSource
  /-- They are there from the start. -/
  | fixed (items : List Item)
  /-- They are loaded each time the list is first shown. -/
  | lazy (load : Load)

/-! ## Lists -/

/-- The state of a list. -/
structure PickList where
  source : ItemSource
  /-- Whether any number of items can be picked, and not just one. -/
  many : Bool
  items : List Item
  /-- The batches still to come. -/
  loading : Option (List Batch × Delay)
  /-- The places of the selected items. -/
  selection : List Nat
  /-- The data picked at an earlier time. -/
  recent : List Json
  /-- The placeholder to show when loading is over. -/
  placeholder : Option String
  /-- Whether a failure to load is shown as a message, and not passed on. -/
  showFailures : Bool
  /-- Whether the only row is the one that says that there are no items. -/
  vacant : Bool

namespace PickList

/-- A list that was not shown yet. -/
def new (source : ItemSource) (many : Bool) : PickList :=
  { source, many, items := [], loading := none, selection := [], recent := [],
    placeholder := none, showFailures := false, vacant := false }

/-- A copy of a list was not shown yet. -/
def copy (l : PickList) : PickList :=
  { new l.source l.many with recent := l.recent, showFailures := l.showFailures }

/-- The list as it was at an earlier attempt. -/
def restore (l : PickList) (a : Attempt Json) : PickList :=
  match l.many, a.value with
  | true, .list vs => { l with recent := vs }
  | true, _ => l
  | false, v => { l with recent := [v] }

/-! ## Showing -/

/-- Whether an item is shown as picked. -/
def shownPicked (l : PickList) (i : Item) : Bool :=
  i.picked || l.recent.contains i.data

/-- The places of the items that are shown as picked. -/
def pickedPlaces (l : PickList) : List Nat :=
  (l.items.zipIdx.filter fun p => l.shownPicked p.1).map Prod.snd

/-- The items are shown; at the end of loading without any, a row that says so. -/
def render (l : PickList) (w : Wording) (finished : Bool) : List Act × PickList :=
  if finished && l.items.isEmpty then
    ([.call (.setRows [Row.plain w.noItems])], { l with vacant := true, selection := [] })
  else
    let selection := if l.selection.isEmpty then l.pickedPlaces else l.selection
    ([.call (.setRows (l.items.map fun i => i.row (l.shownPicked i)))],
      { l with vacant := false, selection })

/-- What happens when the control is first shown. -/
def start (l : PickList) (w : Wording) : List Act × PickList :=
  match l.source with
  | .fixed items => render { l with items } w true
  | .lazy load =>
    (load.notes.map Act.entry ++ [.call (.setBusy true), .call (.setPlaceholder w.loading)],
      { l with loading := some (load.batches, load.ending) })

/-! ## Loading -/

/-- Loading is over: the control is idle, and its own placeholder returns. -/
def finishLoading (l : PickList) (w : Wording) : List Act × PickList :=
  let (acts, l) := render { l with loading := none } w true
  (.call (.setBusy false) :: .call (.setPlaceholder (l.placeholder.getD "")) :: acts, l)

/-- Everything that is ready is taken in, batch by batch. -/
def takeIn (w : Wording) (ending : Delay) : List Batch → PickList → List Act × PickList × Look
  | [], l =>
    if ending.isOver then
      let (acts, l) := l.finishLoading w
      (acts, l, .await)
    else ([], { l with loading := some ([], ending.wait) }, .await)
  | b :: rest, l =>
    if b.delay.isOver then
      let notes := b.notes.map Act.entry
      match b.outcome with
      | .ok items =>
        let (acts, l) :=
          render { l with items := l.items ++ items, loading := some (rest, ending) } w false
        let (more, l, look) := takeIn w ending rest l
        (notes ++ acts ++ more, l, look)
      | .error f =>
        if l.showFailures then
          -- the batches after the failure are given up, and what is there is shown once more
          let (acts, l) := l.finishLoading w
          (notes ++ .call (.setMessage (some f.chain)) :: acts, l, .await)
        else (notes ++ [.call (.setBusy false)], { l with loading := none }, .failed f)
    else
      ([], { l with loading := some ({ b with delay := b.delay.wait } :: rest, ending) }, .await)

/-- A look at the batches. -/
def look (l : PickList) (w : Wording) : List Act × PickList × Look :=
  match l.loading with
  | none => ([], l, .await)
  | some (batches, ending) => takeIn w ending batches l

/-! ## Events -/

/-- The items at some places, as far as there are any. -/
def itemsAt (l : PickList) (places : List Nat) : List Item :=
  places.filterMap fun i => l.items[i]?

/-- What an acceptance comes to. Of one item, the first selected one counts, and without a
selection the first of all. -/
def accept (l : PickList) : Option (Reply Json) :=
  if l.vacant then some .back
  else if l.many then some (.value (.list ((l.itemsAt l.selection).map Item.data)))
  else (l.items[l.selection.head?.getD 0]?).map fun i => .value i.data

/-- What an event comes to: the reply that it settles the question with, if any. -/
def handle (l : PickList) : Event → PickList × Option (Reply Json)
  | .selected places =>
    ({ l with selection := places.filter (· < l.items.length) }, none)
  | .accept => (l, l.accept)
  | _ => (l, none)

end PickList

end Interview
