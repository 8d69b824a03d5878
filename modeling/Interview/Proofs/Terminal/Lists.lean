import Interview.Proofs.Terminal.Stands
/-
Lists on a terminal show what they hold.

A list that loads its items changes under the hands of its user, and what the user chooses is a
place among the entries that were on the terminal when the user was asked. Nothing goes wrong
because the two never overlap: the control is busy as long as a batch can still come, and a busy
control does not ask. So whenever the user is asked, the rows on the control are those of all the
items that the source will ever bring, and they stay so until the user has answered.

The invariant (`PickList.OnShow`) is kept by every batch that is taken in, by every event, and by
whatever happens to the question between two times that it is asked.
-/

set_option autoImplicit false

namespace Interview

open Control (Event Call)

/-! ## What a source brings -/

/-- The items of some batches, up to the first that could not be loaded. -/
def Batch.arriving : List Batch → List Item
  | [] => []
  | b :: rest =>
    match b.outcome with
    | .ok items => items ++ arriving rest
    | .error _ => []

/-- Whether one of some batches cannot be loaded. -/
def Batch.anyFails (batches : List Batch) : Bool :=
  batches.any fun b => b.outcome.toOption.isNone

namespace ItemSource

/-- All the items that a source ever brings, in order. -/
def items : ItemSource → List Item
  | fixed items => items
  | lazy load => Batch.arriving load.batches

/-- Whether the source cannot bring all that it has. -/
def fails : ItemSource → Bool
  | fixed _ => false
  | lazy load => Batch.anyFails load.batches

end ItemSource

namespace PickList

variable {wording : Wording} {made l : PickList} {c : Terminal}

/-- The items that are still to come. -/
def coming (l : PickList) : List Item :=
  match l.loading with
  | some (batches, _) => Batch.arriving batches
  | none => []

/-- A list that was not shown yet. -/
structure Unshown (l : PickList) : Prop where
  items : l.items = []
  loading : l.loading = none
  vacant : l.vacant = false

theorem unshown_new (source : ItemSource) (many : Bool) : (new source many).Unshown :=
  ⟨rfl, rfl, rfl⟩

theorem unshown_copy (l : PickList) : l.copy.Unshown :=
  ⟨rfl, rfl, rfl⟩

theorem Unshown.restore (h : l.Unshown) (a : Attempt Json) : (l.restore a).Unshown := by
  unfold PickList.restore
  split
  · exact ⟨h.items, h.loading, h.vacant⟩
  · exact h
  · exact ⟨h.items, h.loading, h.vacant⟩

/-- The rows are those of the items, whichever of them are shown as picked, or the one row that
says that there are none. -/
def Rows (wording : Wording) (l : PickList) (rows : List Row) : Prop :=
  if l.vacant then rows = [Row.plain wording.noItems]
  else ∃ picked : Item → Bool, rows = l.items.map fun i => i.row (picked i)

/-- The list is still the one that was made: it has the same source and the same settings. -/
def Same (made l : PickList) : Prop :=
  l.source = made.source ∧ l.many = made.many ∧ l.showFailures = made.showFailures

/-- **The control shows what the list holds**, and does not ask before all of it is in. -/
structure OnShow (wording : Wording) (made l : PickList) (c : Terminal) : Prop where
  same : made.Same l
  inUse : c.InUse
  content : ∃ rows, c.content = .list rows l.many ∧ l.Rows wording rows
  busy : c.busy = l.loading.isSome
  /-- While rows can come in, nobody was asked. -/
  loading : l.loading.isSome → c.queued = [] ∧ c.inFlight = none ∧ l.vacant = false
  queued : c.queued = [] ∨ c.queued = [.accept]
  items : l.items ++ l.coming = made.source.items
  fails : ∀ batches ending, l.loading = some (batches, ending) →
    Batch.anyFails batches = made.source.fails
  vacant : l.vacant = true → l.items = []
  /-- The list says that there are no items, unless it was given up without a word. -/
  said : l.loading = none → l.items = [] →
    l.vacant = true ∨ (made.source.fails = true ∧ made.showFailures = false)

/-! ## What the invariant does not depend on -/

/-- A list that is on show can be taken for the one that was made. -/
theorem OnShow.again (h : OnShow wording made l c) : OnShow wording l l c := by
  obtain ⟨hsource, -, hshow⟩ := h.same
  refine ⟨⟨rfl, rfl, rfl⟩, h.inUse, h.content, h.busy, h.loading, h.queued, ?_, ?_, h.vacant, ?_⟩
  · rw [hsource]
    exact h.items
  · rw [hsource]
    exact h.fails
  · rw [hsource, hshow]
    exact h.said

theorem OnShow.withSelection (h : OnShow wording made l c) (selection : List Nat) :
    OnShow wording made { l with selection } c :=
  ⟨h.same, h.inUse, h.content, h.busy, h.loading, h.queued, h.items, h.fails, h.vacant, h.said⟩

theorem OnShow.withRecent (h : OnShow wording made l c) (recent : List Json) :
    OnShow wording made { l with recent } c :=
  ⟨h.same, h.inUse, h.content, h.busy, h.loading, h.queued, h.items, h.fails, h.vacant, h.said⟩

theorem OnShow.restore (h : OnShow wording made l c) (a : Attempt Json) :
    OnShow wording made (l.restore a) c := by
  unfold PickList.restore
  split
  · exact h.withRecent _
  · exact h
  · exact h.withRecent _

theorem OnShow.handle (h : OnShow wording made l c) (e : Event) :
    OnShow wording made (l.handle e).1 c := by
  unfold PickList.handle
  split
  · exact h.withSelection _
  · exact h
  · exact h

theorem OnShow.chrome (h : OnShow wording made l c) (chrome : Chrome) :
    OnShow wording made l { c with chrome } :=
  ⟨h.same, ⟨h.inUse.disposed, h.inUse.inFlight⟩, h.content, h.busy, h.loading, h.queued, h.items,
    h.fails, h.vacant, h.said⟩

/-- A list that is not loading has all its items. -/
theorem OnShow.items_eq (h : OnShow wording made l c) (hloading : l.loading = none) :
    l.items = made.source.items := by
  have hitems := h.items
  simp only [coming, hloading, List.append_nil] at hitems
  exact hitems

/-- Once all the items are in, events come and go. -/
theorem OnShow.listening (h : OnShow wording made l c) (hloading : l.loading = none)
    {queued : List Event} {inFlight : Option Terminal.Interaction}
    (hqueued : queued = [] ∨ queued = [.accept])
    (hinFlight : inFlight = none ∨ inFlight = some (.running c.content)) :
    OnShow wording made l { c with queued, inFlight } where
  same := h.same
  inUse := ⟨h.inUse.disposed, hinFlight⟩
  content := h.content
  busy := h.busy
  loading hsome := absurd hsome (by simp [hloading])
  queued := hqueued
  items := h.items
  fails := h.fails
  vacant := h.vacant
  said := h.said

/-- A list that still waits for its rows is not asked for. -/
theorem OnShow.loading_of_asks (h : OnShow wording made l c) (hasks : c.Asks) :
    l.loading = none := by
  rcases hl : l.loading with _ | batches
  · rfl
  · obtain ⟨-, hfree, -⟩ := h.loading (by simp [hl])
    obtain ⟨rows, hcontent, -⟩ := h.content
    have hidle := (h.inUse.asks_iff.mp hasks).2 hfree
    have hbusy : c.busy = true := by simp [h.busy, hl]
    simp [Terminal.awaitsRows, hcontent, hbusy] at hidle

/-! ## Showing -/

/-- A control for a list of whose user nothing was asked. -/
structure Untouched (many : Bool) (c : Terminal) : Prop where
  disposed : c.disposed = false
  inFlight : c.inFlight = none
  queued : c.queued = []
  content : ∃ rows, c.content = .list rows many

theorem OnShow.untouched (h : OnShow wording made l c) (hloading : l.loading.isSome) :
    Untouched l.many c := by
  obtain ⟨hqueued, hfree, -⟩ := h.loading hloading
  obtain ⟨rows, hcontent, -⟩ := h.content
  exact ⟨h.inUse.disposed, hfree, hqueued, rows, hcontent⟩

theorem Untouched.apply {many : Bool} (h : Untouched many c) {k : Call} (hk : k ≠ .dispose) :
    Untouched many (c.apply k) := by
  obtain ⟨hdisposed, hfree, hqueued, rows, hcontent⟩ := h
  cases k with
  | dispose => exact absurd rfl hk
  | setRows rows' =>
      simp only [Terminal.apply, hcontent]
      exact ⟨hdisposed, hfree, hqueued, rows', rfl⟩
  | setValue s =>
      simp only [Terminal.apply, hcontent]
      exact ⟨hdisposed, hfree, hqueued, rows, hcontent⟩
  | makeVisible | setMessage | setBusy | setPlaceholder | setTitle =>
      exact ⟨hdisposed, hfree, hqueued, rows, hcontent⟩

/-- **What is rendered is on show.** The list is rendered as finished when no more items come. -/
theorem onShow_render {finished : Bool} (hfinished : finished = l.loading.isNone)
    (hc : Untouched l.many c) (hbusy : c.busy = l.loading.isSome)
    (hsame : made.Same l) (hitems : l.items ++ l.coming = made.source.items)
    (hfails : ∀ batches ending, l.loading = some (batches, ending) →
      Batch.anyFails batches = made.source.fails) :
    OnShow wording made (l.render wording finished).2 (c.obey (l.render wording finished).1) := by
  subst hfinished
  obtain ⟨hdisposed, hfree, hqueued, rows, hcontent⟩ := hc
  unfold PickList.render
  split
  · -- there are no items, and none will come
    rename_i hempty
    rw [Bool.and_eq_true, Option.isNone_iff_eq_none, List.isEmpty_iff] at hempty
    simp only [Terminal.obey_call, Terminal.obey_nil, Terminal.apply, hcontent]
    exact {
      same := hsame
      inUse := ⟨hdisposed, Or.inl hfree⟩
      content := ⟨_, rfl, rfl⟩
      busy := hbusy
      loading := fun hsome => absurd hsome (by simp [hempty.1])
      queued := Or.inl hqueued
      items := hitems
      fails := hfails
      vacant := fun _ => hempty.2
      said := fun _ _ => Or.inl rfl }
  · rename_i hnonempty
    simp only [Terminal.obey_call, Terminal.obey_nil, Terminal.apply, hcontent]
    exact {
      same := hsame
      inUse := ⟨hdisposed, Or.inl hfree⟩
      content := ⟨_, rfl, l.shownPicked, rfl⟩
      busy := hbusy
      loading := fun _ => ⟨hqueued, hfree, rfl⟩
      queued := Or.inl hqueued
      items := hitems
      fails := hfails
      vacant := fun hvacant => absurd hvacant Bool.false_ne_true
      said := fun hloading hitems => absurd (by simp_all) hnonempty }

/-- Loading is over, and the list is shown as it is. -/
theorem onShow_finishLoading (hc : Untouched l.many c) (hsame : made.Same l)
    (hitems : l.items = made.source.items) :
    OnShow wording made (l.finishLoading wording).2 (c.obey (l.finishLoading wording).1) := by
  have hidle : ∀ s, Untouched l.many ((c.apply (.setBusy false)).apply (.setPlaceholder s)) :=
    fun s => (hc.apply (by simp)).apply (by simp)
  exact onShow_render (l := { l with loading := none }) rfl (hidle _) rfl
    hsame ((List.append_nil _).trans hitems)
    (fun _ _ h => absurd h (by simp))

/-! ## Loading -/

/-- Batches that were looked at in vain are the same as before. -/
theorem OnShow.wait (h : OnShow wording made l c) {batches : List Batch} {ending : Delay}
    (hloading : l.loading = some (batches, ending)) {batches' : List Batch} {ending' : Delay}
    (harriving : Batch.arriving batches' = Batch.arriving batches)
    (hfails : Batch.anyFails batches' = Batch.anyFails batches) :
    OnShow wording made { l with loading := some (batches', ending') } c where
  same := h.same
  inUse := h.inUse
  content := h.content
  busy := by rw [h.busy, hloading]; rfl
  loading _ := h.loading (by simp [hloading])
  queued := h.queued
  items := by
    rw [← h.items]
    simp only [coming, hloading, harriving]
  fails _ _ heq := by
    obtain ⟨rfl, rfl⟩ := Prod.mk.inj (Option.some.inj heq)
    exact hfails.trans (h.fails _ _ hloading)
  vacant := h.vacant
  said hnone := absurd hnone (by simp)

/-- Loading is given up without a word: what is there stays, as it is shown. -/
theorem OnShow.giveUp (h : OnShow wording made l c) {batches : List Batch} {ending : Delay}
    (hloading : l.loading = some (batches, ending)) (hnone : Batch.arriving batches = [])
    (hfails : Batch.anyFails batches = true) (hshow : made.showFailures = false) :
    OnShow wording made { l with loading := none } (c.apply (.setBusy false)) where
  same := h.same
  inUse := ⟨h.inUse.disposed, h.inUse.inFlight⟩
  content := h.content
  busy := rfl
  loading hsome := absurd hsome (by simp)
  queued := h.queued
  items := by
    rw [← h.items]
    simp only [coming, hloading, hnone]
  fails _ _ heq := absurd heq (by simp)
  vacant := h.vacant
  said _ _ := Or.inr ⟨by rw [← h.fails _ _ hloading, hfails], hshow⟩

/-- **Everything that is ready is taken in**, and shown. The induction is on the batches. -/
theorem OnShow.takeIn {batches : List Batch} {ending : Delay} (h : OnShow wording made l c)
    (hloading : l.loading = some (batches, ending)) :
    OnShow wording made (takeIn wording ending batches l).2.1
      (c.obey (takeIn wording ending batches l).1) := by
  induction batches generalizing l c with
  | nil =>
      have hitems := h.items
      simp only [coming, hloading, Batch.arriving, List.append_nil] at hitems
      unfold PickList.takeIn
      split
      · exact onShow_finishLoading (h.untouched (by simp [hloading])) h.same hitems
      · exact h.wait hloading rfl rfl
  | cons b rest ih =>
      have huntouched := h.untouched (by simp [hloading])
      have hitems := h.items
      have hfails := h.fails _ _ hloading
      unfold PickList.takeIn
      split
      · rcases hb : b.outcome with f | items
        · -- the batch cannot be loaded, and the batches after it are given up
          simp only [coming, hloading, Batch.arriving, hb, List.append_nil] at hitems
          have hfailed : Batch.anyFails (b :: rest) = true := by
            simp [Batch.anyFails, hb, Except.toOption]
          simp only
          split
          · simp only [Terminal.obey_append, Terminal.obey_entries, Terminal.obey_call]
            exact onShow_finishLoading (huntouched.apply (by simp)) h.same hitems
          · rename_i hshow
            simp only [Terminal.obey_append, Terminal.obey_entries, Terminal.obey_call,
              Terminal.obey_nil]
            refine h.giveUp hloading ?_ hfailed (by simpa [h.same.2.2] using hshow)
            simp only [Batch.arriving, hb]
        · -- the batch comes in, and the others are looked at
          simp only [coming, hloading, Batch.arriving, hb] at hitems
          simp only [Terminal.obey_append, Terminal.obey_entries]
          have hrest : Batch.anyFails rest = made.source.fails := by
            rw [← hfails]
            simp [Batch.anyFails, hb, Except.toOption]
          refine ih (onShow_render (l := { l with
              items := l.items ++ items
              loading := some (rest, ending) }) rfl huntouched ?_ h.same ?_ ?_) rfl
          · rw [h.busy, hloading]
            rfl
          · simpa only [coming, List.append_assoc] using hitems
          · intro batches ending heq
            obtain ⟨rfl, rfl⟩ := Prod.mk.inj (Option.some.inj heq)
            exact hrest
      · exact h.wait hloading (by simp [Batch.arriving]) (by simp [Batch.anyFails])

/-- **A look keeps the list on show.** -/
theorem OnShow.look (h : OnShow wording made l c) :
    OnShow wording made (l.look wording).2.1 (c.obey (l.look wording).1) := by
  unfold PickList.look
  split
  · exact h
  · rename_i batches ending hloading
    exact h.takeIn hloading

/-- **A list is on show from the start**, on a control that was just made. -/
theorem Unshown.start (h : l.Unshown) (hsame : made.Same l) (hc : Untouched l.many c)
    (hbusy : c.busy = false) (hrows : c.content = .list [] l.many) :
    OnShow wording made (l.start wording).2 (c.obey (l.start wording).1) := by
  unfold PickList.start
  split
  · rename_i items hsource
    have hfinished : true = l.loading.isNone := by rw [h.loading]; rfl
    refine onShow_render hfinished hc ?_ hsame ?_ ?_
    · simp [h.loading, hbusy]
    · simp [coming, h.loading, ← hsame.1, hsource, ItemSource.items]
    · intro batches ending heq
      exact absurd heq (by simp [h.loading])
  · rename_i load hsource
    simp only [Terminal.obey_append, Terminal.obey_entries, Terminal.obey_call, Terminal.obey_nil]
    exact {
      same := hsame
      inUse := ⟨hc.disposed, Or.inl hc.inFlight⟩
      content := ⟨[], hrows, by simp [Rows, h.vacant, h.items]⟩
      busy := rfl
      loading := fun _ => ⟨hc.queued, hc.inFlight, h.vacant⟩
      queued := Or.inl hc.queued
      items := by simp [coming, h.items, ← hsame.1, hsource, ItemSource.items]
      fails := fun batches ending heq => by
        obtain ⟨rfl, rfl⟩ := Prod.mk.inj (Option.some.inj heq)
        simp [← hsame.1, hsource, ItemSource.fails]
      vacant := fun hvacant => absurd hvacant (by simp [h.vacant])
      said := fun hnone => absurd hnone (by simp) }

end PickList

end Interview
