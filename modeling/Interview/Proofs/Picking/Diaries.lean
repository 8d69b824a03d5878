import Interview.Proofs.Terminal.Lists
import Mathlib.Data.List.Basic
/-
The diary of a list: which items came in, what was asked of its control, and what its user did,
in the order of these things.

The transcript tells of the calls and of the events. It does not tell when a batch came in or when
the batches were over, because nobody but the list is there to see it, so a promise about loading
cannot be stated about the transcript alone. A diary has the batches as well. It is read off the
turns of a screen and kept nowhere else, and without the batches it is what the transcript says
(`Screen.heard_ask`).

What there is to know of a list at some moment is reckoned up from its diary (`Diary.tally`): how
far loading has come, which batches there are, and what the control shows.
-/

set_option autoImplicit false

namespace Interview

open Control (Event Call)

/-! ## Rows -/

/-- The places of the rows that are shown as picked. -/
def Row.pickedAt (rows : List Row) : List Nat :=
  (rows.zipIdx.filter fun p => p.1.picked).map Prod.snd

/-- Whether an item is shown as picked when these answers are recent. -/
def Item.isPicked (recent : List Json) (i : Item) : Bool :=
  i.picked || recent.contains i.data

/-- The rows of some items when these answers are recent. -/
def Item.rows (recent : List Json) (items : List Item) : List Row :=
  items.map fun i => i.row (i.isPicked recent)

@[simp] theorem Item.length_rows (recent : List Json) (items : List Item) :
    (rows recent items).length = items.length :=
  List.length_map _

theorem Row.lt_of_mem_pickedAt {rows : List Row} {p : Nat} (h : p ∈ pickedAt rows) :
    p < rows.length := by
  obtain ⟨⟨r, q⟩, hmem, rfl⟩ := List.mem_map.mp h
  have hlt := List.snd_lt_of_mem_zipIdx (List.mem_filter.mp hmem).1
  simpa using hlt

/-- The rows that are shown as picked are those of the items that are. -/
theorem Item.pickedAt_rows (recent : List Json) (items : List Item) :
    Row.pickedAt (rows recent items) =
      (items.zipIdx.filter fun p => p.1.isPicked recent).map Prod.snd := by
  rw [Row.pickedAt, rows, List.zipIdx_map, List.filter_map, List.map_map]
  rfl

/-! ## Incidents -/

/-- Something that happens to a list. -/
inductive Incident
  /-- These are the recent answers from now on. -/
  | recalled (answers : List Json)
  /-- The list is shown, and all its items are there. -/
  | stocked (items : List Item)
  /-- The list is shown, and its items are loaded. -/
  | opened
  /-- A batch has come in. -/
  | brought (items : List Item)
  /-- There are no more batches. -/
  | ended
  /-- A batch could not be loaded. This is shown as a message, or else it ends the asking. -/
  | failed (f : Failure) (shown : Bool)
  /-- The control was called. -/
  | called (c : Call)
  /-- The control handed out an event. -/
  | event (e : Event)

/-- The places of the rows that are picked, when rows are set. -/
def Incident.picks : Incident → List Nat
  | called (.setRows rows) => Row.pickedAt rows
  | _ => []

/-- Whether an incident is a selection of the user. -/
def Incident.isSelection : Incident → Bool
  | event (.selected _) => true
  | _ => false

/-- What has happened to a list, first things first. -/
abbrev Diary := List Incident

/-- How far a list has come with its items. -/
inductive Phase
  /-- It was not shown yet. -/
  | unshown
  /-- Batches may come in. -/
  | loading
  /-- No more batches come in, because there are none or because of a failure that was shown. -/
  | complete (failure : Option Failure)
  /-- No more batches come in, because of a failure that ended the asking. -/
  | abandoned (f : Failure)

namespace Phase

/-- Whether the list was not shown yet. -/
def isUnshown : Phase → Bool
  | unshown => true
  | _ => false

theorem eq_unshown {p : Phase} (h : p.isUnshown = true) : p = .unshown := by
  cases p with
  | unshown => rfl
  | loading | complete | abandoned => exact absurd h Bool.false_ne_true

/-- Whether the list is shown as complete. -/
def isComplete : Phase → Bool
  | complete _ => true
  | _ => false

end Phase

/-! ## Tallies -/

/-- What there is to know of a list after what has happened to it. -/
structure Tally where
  phase : Phase
  /-- The batches that have come in. Items that are there from the start are one batch. -/
  batches : List (List Item)
  /-- The recent answers. -/
  recent : List Json
  /-- Whether the recent answers are still those with which the list was shown. -/
  steady : Bool
  /-- The rows on display. -/
  rows : Option (List Row)
  /-- The answers that were recent when the rows were set. -/
  marks : List Json
  /-- The places that are selected: those that the user has selected, or, as long as these are
  none, those of the rows that were shown as picked. -/
  selection : List Nat
  /-- How often and with what the control was told whether it is busy. -/
  busy : List Bool
  /-- The placeholder that was set last. -/
  placeholder : Option String

namespace Tally

/-- Nothing has happened. -/
def blank : Tally :=
  { phase := .unshown, batches := [], recent := [], steady := true, rows := none, marks := []
    selection := [], busy := [], placeholder := none }

/-- The items that have come in. -/
def items (k : Tally) : List Item :=
  k.batches.flatten

/-- Whether the list says that there are no items. -/
def vacant (k : Tally) : Bool :=
  k.phase.isComplete && k.items.isEmpty

/-- What there is to know after one more incident. -/
def after (k : Tally) : Incident → Tally
  | .recalled answers =>
    { k with recent := answers, steady := k.steady && k.phase.isUnshown }
  | .stocked items => { k with phase := .complete none, batches := [items] }
  | .opened => { k with phase := .loading }
  | .brought items => { k with batches := k.batches ++ [items] }
  | .ended => { k with phase := .complete none }
  | .failed f true => { k with phase := .complete (some f) }
  | .failed f false => { k with phase := .abandoned f }
  | .called (.setRows rows) =>
    { k with
      rows := some rows
      marks := k.recent
      selection := if k.selection.isEmpty then Row.pickedAt rows else k.selection }
  | .called (.setBusy b) => { k with busy := k.busy ++ [b] }
  | .called (.setPlaceholder s) => { k with placeholder := some s }
  | .called _ => k
  | .event (.selected places) => { k with selection := places.filter (· < k.items.length) }
  | .event _ => k

/-- The data of the items at some places. -/
def dataAt (k : Tally) (places : List Nat) : List Json :=
  places.filterMap fun p => (k.items[p]?).map Item.data

/-- What an acceptance comes to. -/
def reply (many : Bool) (k : Tally) : Option (Reply Json) :=
  if k.vacant then some .back
  else if many then some (.value (.list (k.dataAt k.selection)))
  else (k.items[k.selection.head?.getD 0]?).map fun i => .value i.data

end Tally

namespace Diary

/-- What there is to know at the end of a diary. -/
def tally (ms : Diary) : Tally :=
  ms.foldl Tally.after Tally.blank

theorem tally_append (ms ns : Diary) : tally (ms ++ ns) = ns.foldl Tally.after ms.tally := by
  rw [tally, List.foldl_append]
  rfl

@[simp] theorem tally_concat (ms : Diary) (m : Incident) :
    tally (ms ++ [m]) = ms.tally.after m := by
  rw [tally_append]
  rfl

/-- The calls among some acts. -/
def calls (acts : List Act) : Diary :=
  (Act.calls acts).map .called

@[simp] theorem calls_nil : calls [] = [] := rfl

@[simp] theorem calls_call (c : Call) (acts : List Act) :
    calls (.call c :: acts) = .called c :: calls acts := rfl

@[simp] theorem calls_append (acts more : List Act) :
    calls (acts ++ more) = calls acts ++ calls more := by
  simp [calls, Act.calls]

@[simp] theorem calls_entries (es : List Entry) : calls (es.map Act.entry) = [] := by
  simp [calls, Act.calls, List.filterMap_map]

@[simp] theorem calls_ofNotes (notes : List Note) : calls (Act.ofNotes notes) = [] := by
  simp [calls, Act.calls, Act.ofNotes, List.filterMap_map]

/-- The picks of the first rows that had any. -/
def firstPicks : Diary → List Nat
  | [] => []
  | m :: ms => if m.picks = [] then firstPicks ms else m.picks

/-- The user has selected nothing. -/
def Untouched (ms : Diary) : Prop :=
  ∀ m ∈ ms, m.isSelection = false

instance (ms : Diary) : Decidable ms.Untouched :=
  inferInstanceAs (Decidable (∀ m ∈ ms, m.isSelection = false))

end Diary

/-! ## The diaries of screens -/

namespace PickList

/-- What is found when the batches are looked at: the diary of `PickList.takeIn`. -/
def intakeFrom (w : Wording) (ending : Delay) : List Batch → PickList → Diary
  | [], l => if ending.isOver then .ended :: Diary.calls (l.finishLoading w).1 else []
  | b :: rest, l =>
    if b.delay.isOver then
      match b.outcome with
      | .ok items =>
        let (acts, l) :=
          render { l with items := l.items ++ items, loading := some (rest, ending) } w false
        .brought items :: (Diary.calls acts ++ intakeFrom w ending rest l)
      | .error f =>
        if l.showFailures then
          .failed f true :: .called (.setMessage (some f.chain)) ::
            Diary.calls (l.finishLoading w).1
        else [.failed f false, .called (.setBusy false)]
    else []

/-- What a look finds. -/
def intake (l : PickList) (w : Wording) : Diary :=
  match l.loading with
  | none => []
  | some (batches, ending) => intakeFrom w ending batches l

/-- What happens when the control is first shown. -/
def opening (l : PickList) (w : Wording) : Diary :=
  match l.source with
  | .fixed items => .stocked items :: Diary.calls (l.start w).1
  | .lazy _ => .opened :: Diary.calls (l.start w).1

/-- What a list of one choice or of many remembers of an earlier answer. -/
def recollection (many : Bool) (answer : Json) : Diary :=
  match many, answer with
  | true, .list vs => [.recalled vs]
  | true, _ => []
  | false, v => [.recalled [v]]

end PickList

namespace Content

/-- What a content finds when it looks. -/
def intake (w : Wording) : Content → Diary
  | text _ => []
  | list l => l.intake w

/-- What happens to a content when its control is first shown. -/
def opening (w : Wording) (c : Chrome) : Content → Diary
  | text _ => []
  | list l => PickList.opening { l with placeholder := c.placeholder } w

end Content

/-- What is heard when a control is waited for. -/
def Session.Arrival.diary : Session.Arrival → Diary
  | .event e => [.event e]
  | _ => []

namespace Screen

/-- What happens in one turn. -/
def turnDiary (id : Nat) (s : Screen) (w : Session) : Diary :=
  s.content.intake s.wording ++
    match s.found with
    | .await => ((perform id s.lookActs w).next id).1.diary
    | _ => []

/-- What happens in a conversation. -/
def diary (id : Nat) : Nat → Screen → Session → Diary
  | 0, _, _ => []
  | n + 1, s, w =>
    s.turnDiary id w ++
      match s.turn id w with
      | .stays s w => diary id n s w
      | .ends _ _ _ => []

/-- What happens when a screen is put before the user. -/
def appearance (s : Screen) : Diary :=
  .called .makeVisible ::
    match s.control with
    | some _ => []
    | none => s.content.opening s.wording s.chrome

/-- What happens while a screen is asked. -/
def askDiary (n : Nat) (s : Screen) (w : Session) : Diary :=
  if s.disposed then []
  else
    let (id, s', w) := s.appear w
    s.appearance ++ diary id n s' w

/-- What a screen has gone through since its list was made. A copy of a screen has a list that was
just made. -/
inductive Underwent (made : PickList) : Screen → Diary → Prop
  /-- Nothing has happened to it. -/
  | fresh {s : Screen} (content : s.content = .list made) (unshown : made.Unshown)
      (unselected : made.selection = []) (control : s.control = none) :
      Underwent made s [.recalled made.recent]
  /-- It was asked. -/
  | asked {s : Screen} {ms : Diary} (h : Underwent made s ms) (n : Nat) (w : Session) :
      Underwent made (s.ask n w).2.1 (ms ++ s.askDiary n w)
  /-- It was restored from an earlier attempt. -/
  | restored {s : Screen} {ms : Diary} (h : Underwent made s ms) (a : Attempt Json) :
      Underwent made (s.restore a) (ms ++ PickList.recollection made.many a.value)
  /-- It was told of its place. -/
  | placed {s : Screen} {ms : Diary} (h : Underwent made s ms) (current total : Nat) (w : Session) :
      Underwent made (s.place current total w).1 ms
  /-- It was disposed. -/
  | disposed {s : Screen} {ms : Diary} (h : Underwent made s ms) (w : Session) :
      Underwent made (s.dispose w).1 ms

end Screen

end Interview
