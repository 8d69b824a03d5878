import Interview.Proofs.Picking.Selections
import Interview.Proofs.Picking.Transcripts
/-
Lists of one choice whose items are ready when they are shown.

All the batches of such a list are taken in at its first look, and before the first event the list
is settled: it has all its items, and the first of the selected places is that of the first item
that is shown as picked (`PickList.Settled`). How the items were split does not matter. It is true
that the selection of one batch is kept when the next one comes in, but a batch leaves the selection
empty only if none of the items up to then is shown as picked, and so the first place is found in
the first batch that has any.

Lists that are settled with the same items may still differ in what is selected after the first
place. Nothing that happens to a list of one choice depends on that (`PickList.Alike`).
-/

set_option autoImplicit false

namespace Interview

open Control (Event Call)

/-! ## The item that is chosen by doing nothing -/

namespace Item

variable {recent : List Json} {items : List Item}

/-- The item that is chosen if the user does nothing: the first one that is shown as picked, or else
the first of all. -/
def default? (recent : List Json) (items : List Item) : Option Item :=
  (items.find? (isPicked recent)).or items.head?

/-- What choosing an item comes to. Where there is none, the user goes back. -/
def reply : Option Item → Reply Json
  | some i => .value i.data
  | none => .back

/-- What a list of one choice answers if it is accepted as it is. -/
def defaultReply (recent : List Json) (items : List Item) : Reply Json :=
  reply (default? recent items)

/-- The item stands at the place of the first picked row, or else at the first place. -/
theorem getElem?_default (recent : List Json) (items : List Item) :
    items[((rows recent items).findIdx? Row.picked).getD 0]? = default? recent items := by
  have hrows : (rows recent items).findIdx? Row.picked = items.findIdx? (isPicked recent) := by
    rw [rows, List.findIdx?_map]
    rfl
  rw [hrows, default?, List.find?_eq_bind_findIdx?_getElem?, List.head?_eq_getElem?]
  rcases hplace : items.findIdx? (isPicked recent) with _ | p
  · rfl
  · obtain ⟨hlt, -⟩ := List.findIdx?_eq_some_iff_getElem.mp hplace
    show items[p]? = (items[p]?).or items[0]?
    rw [List.getElem?_eq_getElem hlt]
    rfl

end Item

/-- The first pick is the first picked row. -/
theorem Row.head?_pickedAt (rows : List Row) :
    (pickedAt rows).head? = rows.findIdx? Row.picked := by
  rw [pickedAt, List.head?_map, List.head?_filter, List.findIdx?_eq_fst_find?_zipIdx]

/-! ## The rows that were set last -/

/-- The rows that a call sets. -/
def Control.Call.rows? : Call → Option (List Row)
  | .setRows rows => some rows
  | _ => none

namespace Act

/-- The rows that some acts set last. -/
def lastRows (acts : List Act) : Option (List Row) :=
  ((calls acts).filterMap Call.rows?).getLast?

theorem lastRows_append (acts more : List Act) :
    lastRows (acts ++ more) = (lastRows more).or (lastRows acts) := by
  simp only [lastRows, calls, List.filterMap_append, List.getLast?_append]

theorem lastRows_call (c : Call) (acts : List Act) :
    lastRows (.call c :: acts) = (lastRows acts).or c.rows? := by
  rw [← List.singleton_append, lastRows_append]
  congr 1
  cases c with
  | setRows | makeVisible | setValue | setMessage | setBusy | setPlaceholder | setTitle | dispose =>
    rfl

end Act

/-- The rows that are set in an incident. -/
def Incident.rows? : Incident → Option (List Row)
  | called c => c.rows?
  | _ => none

namespace Diary

/-- The rows that were set last. -/
def lastRows (ms : Diary) : Option (List Row) :=
  (ms.filterMap Incident.rows?).getLast?

theorem lastRows_append (ms ns : Diary) :
    lastRows (ms ++ ns) = (lastRows ns).or (lastRows ms) := by
  rw [lastRows, List.filterMap_append, List.getLast?_append]
  rfl

theorem lastRows_calls (acts : List Act) : lastRows (calls acts) = Act.lastRows acts := by
  rw [lastRows, calls, List.filterMap_map]
  rfl

/-- What does not show in the transcript sets no rows. -/
theorem lastRows_filter (ms : Diary) : lastRows (ms.filter Incident.isHeard) = lastRows ms := by
  rw [lastRows, lastRows, List.filterMap_filter]
  congr 2
  funext m
  cases m with
  | called | event => rfl
  | recalled | stocked | opened | brought | ended | failed => rfl

/-- **The rows on display** are those that were set last. -/
theorem rows_tally (ms : Diary) : ms.tally.rows = ms.lastRows := by
  induction ms using List.reverseRecOn with
  | nil => rfl
  | append_singleton ms m ih =>
    rw [tally_concat, lastRows_append, ← ih]
    cases m with
    | called c =>
      cases c with
      | setRows | makeVisible | setValue | setMessage | setBusy | setPlaceholder | setTitle
      | dispose => rfl
    | event e =>
      cases e with
      | selected | changed | accept | hide | button => rfl
    | failed f shown =>
      cases shown with
      | true | false => rfl
    | recalled | stocked | opened | brought | ended => rfl

end Diary

/-! ## What is ready -/

/-- Whether a batch comes in as soon as it is looked for. -/
def Batch.isReady (b : Batch) : Bool :=
  b.delay.isOver && b.outcome.toOption.isSome

/-- Whether all the items are there at the first look. -/
def ItemSource.isReady : ItemSource → Bool
  | fixed _ => true
  | lazy load => load.batches.all Batch.isReady && load.ending.isOver

theorem Batch.outcome_of_isReady {b : Batch} (h : b.isReady = true) :
    b.delay.isOver = true ∧ ∃ items, b.outcome = .ok items := by
  obtain ⟨hover, hsome⟩ := Bool.and_eq_true_iff.mp h
  refine ⟨hover, ?_⟩
  cases hb : b.outcome with
  | ok items => exact ⟨items, rfl⟩
  | error f => exact absurd hsome (by simp [hb, Except.toOption])

namespace PickList

variable {l l' : PickList} {w : Wording} {recent : List Json} {items : List Item}

theorem lastRows_intake (l : PickList) (w : Wording) :
    (l.intake w).lastRows = Act.lastRows (l.look w).1 := by
  rw [← Diary.lastRows_filter, filter_intake, Diary.lastRows_calls]

theorem lastRows_opening (l : PickList) (w : Wording) :
    (l.opening w).lastRows = Act.lastRows (l.start w).1 := by
  rw [← Diary.lastRows_filter, filter_opening, Diary.lastRows_calls]

/-! ## Taking in what is ready -/

/-- If anything is selected, the first place is the first that is shown as picked. -/
def Leads (l : PickList) : Prop :=
  l.selection = [] ∨ l.selection.head? = (Row.pickedAt (Item.rows l.recent l.items)).head?

/-- The list has these items and no more come in, and the first place that is selected is the first
that is shown as picked. -/
structure Settled (recent : List Json) (items : List Item) (l : PickList) : Prop where
  one : l.many = false
  idle : l.loading = none
  items_eq : l.items = items
  vacant : l.vacant = items.isEmpty
  first : l.selection.head? = (Row.pickedAt (Item.rows recent items)).head?

/-- **More items and their rows** leave the first place where it is. If nothing was selected, all
that is shown as picked now is. -/
theorem head?_selection {selection : List Nat}
    (h : selection = [] ∨ selection.head? = (Row.pickedAt (Item.rows recent items)).head?)
    (more : List Item) :
    (if selection.isEmpty then Row.pickedAt (Item.rows recent (items ++ more))
      else selection).head? = (Row.pickedAt (Item.rows recent (items ++ more))).head? := by
  cases selection with
  | nil => rfl
  | cons p places =>
    obtain hnil | hhead := h
    · exact absurd hnil (by simp)
    · rw [if_neg (by simp), Item.rows_append, Row.pickedAt_append, List.head?_append, ← hhead]
      rfl

theorem Leads.selection_eq_nil (h : l.Leads) (hitems : l.items = []) : l.selection = [] := by
  obtain hnil | hhead := h
  · exact hnil
  · rw [hitems] at hhead
    exact List.head?_eq_none_iff.mp hhead

/-- A batch comes in. -/
theorem Leads.brought (h : l.Leads) (more : List Item) (loading : Option (List Batch × Delay)) :
    (render { l with items := l.items ++ more, loading } w false).2.Leads := by
  rw [render_unfinished]
  exact Or.inr (head?_selection h more)

/-- What is rendered at the end is settled, and shown. -/
theorem Leads.settled (h : l.Leads) (hone : l.many = false) (hidle : l.loading = none) :
    (render l w true).2.Settled l.recent l.items ∧
      Act.lastRows (render l w true).1 = some (Item.finalRows w l.recent l.items) := by
  rw [render_finished w h.selection_eq_nil]
  refine ⟨⟨hone, hidle, rfl, rfl, ?_⟩, rfl⟩
  have hhead := head?_selection h []
  rw [List.append_nil] at hhead
  rw [withRows, Item.pickedAt_finalRows]
  exact hhead

/-- **All that is ready is taken in**, and the list is settled then. The induction is on the
batches. -/
theorem Leads.takeIn {batches : List Batch} {ending : Delay} (h : l.Leads) (hone : l.many = false)
    (hbatches : batches.all Batch.isReady = true) (hending : ending.isOver = true) :
    (takeIn w ending batches l).2.2 = .await ∧
      (takeIn w ending batches l).2.1.Settled l.recent (l.items ++ Batch.arriving batches) ∧
      Act.lastRows (takeIn w ending batches l).1 =
        some (Item.finalRows w l.recent (l.items ++ Batch.arriving batches)) := by
  induction batches generalizing l with
  | nil =>
    have hidle : PickList.Leads { l with loading := none } := h
    obtain ⟨hsettled, hrows⟩ := hidle.settled (w := w) hone rfl
    rw [PickList.takeIn, if_pos hending, Batch.arriving, List.append_nil]
    refine ⟨rfl, hsettled, ?_⟩
    -- being told that loading is over comes before the rows
    show Act.lastRows (.call _ :: .call _ :: (render { l with loading := none } w true).1) = _
    rw [Act.lastRows_call, Act.lastRows_call, hrows]
    rfl
  | cons b rest ih =>
    rw [List.all_cons, Bool.and_eq_true] at hbatches
    obtain ⟨hfirst, hrest⟩ := hbatches
    obtain ⟨hover, items, hb⟩ := Batch.outcome_of_isReady hfirst
    have hbrought := h.brought (w := w) items (some (rest, ending))
    obtain ⟨hawait, hsettled, hrows⟩ := ih hbrought hone hrest
    have harriving : l.items ++ Batch.arriving (b :: rest) =
        (l.items ++ items) ++ Batch.arriving rest := by
      rw [Batch.arriving, hb, List.append_assoc]
    rw [PickList.takeIn, if_pos hover, hb, harriving]
    refine ⟨hawait, hsettled, ?_⟩
    simp only
    rw [Act.lastRows_append]
    exact congrArg (Option.or · _) hrows

/-- **A list is settled after its first look**, if its items are ready, and all of them are shown. -/
theorem Unshown.settled (h : l.Unshown) (hselection : l.selection = []) (hone : l.many = false)
    (hready : l.source.isReady = true) (w : Wording) :
    ((l.start w).2.look w).2.2 = .await ∧
      ((l.start w).2.look w).2.1.Settled l.recent l.source.items ∧
      Act.lastRows ((l.start w).1 ++ ((l.start w).2.look w).1) =
        some (Item.finalRows w l.recent l.source.items) := by
  cases l with | mk source many loaded =>
  cases source with
  | fixed items =>
    obtain ⟨hsettled, hrows⟩ := Leads.settled (w := w) (l := { items, .. }) (Or.inl hselection) hone
      h.loading
    rw [PickList.start, PickList.look, hsettled.idle, List.append_nil]
    exact ⟨rfl, hsettled, hrows⟩
  | lazy load =>
    obtain rfl : loaded = [] := h.items
    obtain ⟨hbatches, hending⟩ := Bool.and_eq_true_iff.mp hready
    obtain ⟨hawait, hsettled, hrows⟩ := Leads.takeIn (w := w)
      (l := { loading := some (load.batches, load.ending), .. }) (Or.inl hselection) hone hbatches
      hending
    refine ⟨hawait, hsettled, ?_⟩
    -- opening the supply sets no rows
    rw [Act.lastRows_append]
    exact congrArg (Option.or · _) hrows

/-! ## Events -/

/-- **What a settled list answers** if it is accepted as it is. -/
theorem Settled.accept (h : l.Settled recent items) :
    l.accept = some (Item.defaultReply recent items) := by
  rw [PickList.accept, h.vacant, h.one, h.items_eq, h.first, Row.head?_pickedAt,
    Item.getElem?_default, Item.defaultReply]
  cases items with
  | nil => rfl
  | cons i rest =>
    -- with an item there is a default
    obtain ⟨j, hj⟩ : ∃ j, Item.default? recent (i :: rest) = some j := by
      rw [Item.default?]
      cases (i :: rest).find? (Item.isPicked recent) with
      | none => exact ⟨i, rfl⟩
      | some j => exact ⟨j, rfl⟩
    rw [hj]
    rfl

/-- Lists of one choice that nobody can tell apart: they have the same items and no more come in,
and the same place is selected first. -/
structure Alike (l l' : PickList) : Prop where
  one : l.many = false ∧ l'.many = false
  idle : l.loading = none ∧ l'.loading = none
  items : l.items = l'.items
  vacant : l.vacant = l'.vacant
  first : l.selection.head? = l'.selection.head?

theorem Settled.alike (h : l.Settled recent items) (h' : l'.Settled recent items) : l.Alike l' where
  one := ⟨h.one, h'.one⟩
  idle := ⟨h.idle, h'.idle⟩
  items := h.items_eq.trans h'.items_eq.symm
  vacant := h.vacant.trans h'.vacant.symm
  first := h.first.trans h'.first.symm

/-- **An event** comes to the same for both, and leaves them alike. -/
theorem Alike.handle (h : l.Alike l') (e : Event) :
    (l.handle e).1.Alike (l'.handle e).1 ∧ (l.handle e).2 = (l'.handle e).2 := by
  cases e with
  | selected places =>
    refine ⟨⟨h.one, h.idle, h.items, h.vacant, ?_⟩, rfl⟩
    show (places.filter (· < l.items.length)).head? = (places.filter (· < l'.items.length)).head?
    rw [h.items]
  | accept =>
    refine ⟨h, ?_⟩
    show l.accept = l'.accept
    rw [PickList.accept, PickList.accept, h.vacant, h.one.1, h.one.2, h.items, h.first]
    rfl
  | changed | hide | button => exact ⟨h, rfl⟩

end PickList

end Interview
