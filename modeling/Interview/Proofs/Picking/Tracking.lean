import Interview.Proofs.Picking.Calls
/-
A list keeps up with its diary.

What a list remembers of its items, of its selection and of its loading can be reckoned up from its
diary (`PickList.Agrees`), and the diary is true (`PickList.Follows`). Each operation of a list keeps
this, whatever its batches and their delays are. Taking in the batches that are ready is the one
operation with a loop, and there the induction is on the batches.
-/

set_option autoImplicit false

namespace Interview

open Control (Event Call)

/-- Whether an incident is neither an event nor the end of the asking. -/
def Incident.isSmooth : Incident → Bool
  | .event _ => false
  | .failed _ false => false
  | _ => true

namespace Diary

/-- Nothing but calls and what the list does by itself. -/
def Smooth (ms : Diary) : Prop :=
  ∀ m ∈ ms, m.isSmooth = true

theorem smooth_nil : Smooth [] :=
  fun _ h => absurd h List.not_mem_nil

theorem Smooth.cons {ms : Diary} (h : ms.Smooth) {m : Incident} (hm : m.isSmooth = true) :
    Smooth (m :: ms) :=
  List.forall_mem_cons.mpr ⟨hm, h⟩

theorem Smooth.append {ms ns : Diary} (h : ms.Smooth) (h' : ns.Smooth) : Smooth (ms ++ ns) :=
  List.forall_mem_append.mpr ⟨h, h'⟩

theorem smooth_calls (acts : List Act) : Smooth (calls acts) := by
  intro m hm
  obtain ⟨c, -, rfl⟩ := List.mem_map.mp hm
  rfl

end Diary

namespace PickList

variable {made l l' : PickList} {w : Wording} {hint : Option String} {k : Tally} {ms : Diary}
  {e : Option Failure}

/-! ## Keeping up -/

/-- The list remembers what there is to know. -/
structure Agrees (l made : PickList) (hint : Option String) (k : Tally) : Prop where
  same : made.Same l
  items : l.items = k.items
  recent : l.recent = k.recent
  selection : l.selection = k.selection
  vacant : l.vacant = k.vacant
  idle : l.loading = none → k.phase ≠ .loading
  /-- The batches still to come are those of the source that have not come in. -/
  loading : ∀ batches ending, l.loading = some (batches, ending) → k.phase = .loading ∧
    made.source.outcomes = k.batches.map .ok ++ batches.map Batch.outcome
  placeholder : k.phase ≠ .unshown → l.placeholder = hint

/-- **The list keeps up with its diary**, which is true. -/
structure Follows (l made : PickList) (w : Wording) (hint : Option String) (ms : Diary) :
    Prop where
  truthful : ms.Truthful made w hint
  agrees : l.Agrees made hint ms.tally

/-- One more incident, with the calls that are due to it. -/
theorem Follows.next (h : l.Follows made w hint ms) {m : Incident} (hm : m.Occurs made ms.tally)
    {acts : List Act}
    (hacts : Diary.calls acts = ((ms.tally.after m).due w hint m).map .called)
    (hl : l'.Agrees made hint (ms.tally.advance w hint m)) :
    l'.Follows made w hint (ms ++ m :: Diary.calls acts) := by
  rw [hacts]
  refine ⟨.next h.truthful m hm, ?_⟩
  rw [Diary.tally_next]
  exact hl

/-- One more incident to which no call is due. -/
theorem Follows.concat (h : l.Follows made w hint ms) {m : Incident} (hm : m.Occurs made ms.tally)
    (hdue : (ms.tally.after m).due w hint m = []) (hl : l'.Agrees made hint (ms.tally.after m)) :
    l'.Follows made w hint (ms ++ [m]) := by
  have hadvance : ms.tally.advance w hint m = ms.tally.after m := by
    rw [Tally.advance, hdue]
    rfl
  rw [← Diary.calls_nil]
  apply h.next hm
  · rw [hdue]
    rfl
  · rw [hadvance]
    exact hl

theorem Follows.selected (h : l.Follows made w hint ms) : ∀ p ∈ l.selection, p < l.items.length := by
  rw [h.agrees.selection, h.agrees.items]
  exact h.truthful.inStep.selected

/-- Without items there is nothing to select. -/
theorem Follows.selection_eq_nil (h : l.Follows made w hint ms) (hitems : l.items = []) :
    l.selection = [] := by
  apply List.eq_nil_iff_forall_not_mem.mpr
  intro p hp
  have hlt := h.selected p hp
  rw [hitems] at hlt
  exact absurd hlt (Nat.not_lt_zero p)

/-- As long as batches can come in, the list does not say that there are no items. -/
theorem Agrees.vacant_eq_false (h : l.Agrees made hint k) (hphase : k.phase = .loading) :
    l.vacant = false := by
  rw [h.vacant, Tally.vacant, hphase]
  rfl

/-! ## Showing -/

/-- The list after rows were set. -/
def withRows (l : PickList) (vacant : Bool) (rows : List Row) : PickList :=
  { l with vacant, selection := if l.selection.isEmpty then Row.pickedAt rows else l.selection }

theorem Agrees.withRows (h : l.Agrees made hint k) (rows : List Row) :
    (l.withRows l.vacant rows).Agrees made hint (k.after (.called (.setRows rows))) where
  same := h.same
  items := h.items
  recent := h.recent
  selection := by
    show (if l.selection.isEmpty then _ else l.selection) = _
    rw [h.selection]
    rfl
  vacant := h.vacant
  idle := h.idle
  loading := h.loading
  placeholder := h.placeholder

theorem render_unfinished (l : PickList) (w : Wording) :
    l.render w false =
      ([.call (.setRows (Item.rows l.recent l.items))],
        l.withRows false (Item.rows l.recent l.items)) := by
  rw [PickList.withRows, Item.pickedAt_rows]
  rfl

theorem render_finished (w : Wording) (h : l.items = [] → l.selection = []) :
    l.render w true =
      ([.call (.setRows (Item.finalRows w l.recent l.items))],
        l.withRows l.items.isEmpty (Item.finalRows w l.recent l.items)) := by
  rcases hitems : l.items with _ | ⟨i, rest⟩
  · -- the row that says that there are no items is not picked
    simp only [render, PickList.withRows, hitems, h hitems]
    rfl
  · have hfinal : Item.finalRows w l.recent (i :: rest) = Item.rows l.recent l.items := by
      rw [hitems]
      rfl
    have hrender : l.render w true = l.render w false := by
      rw [render, render, hitems]
      rfl
    rw [hfinal, hrender]
    exact l.render_unfinished w

/-! ## Loading -/

/-- What the list is like when loading is over. -/
theorem Agrees.complete (h : l.Agrees made hint k) (hphase : k.phase = .loading) :
    Agrees { l with loading := none, vacant := l.items.isEmpty } made hint
      { k with phase := .complete e } where
  same := h.same
  items := h.items
  recent := h.recent
  selection := h.selection
  vacant := by
    show l.items.isEmpty = k.items.isEmpty
    rw [h.items]
  idle _ := by simp
  loading _ _ hsome := absurd hsome (by simp)
  placeholder _ := h.placeholder (by simp [hphase])

/-- What ends the loading: the calls that are due then. -/
theorem Follows.finishLoading (h : l.Follows made w hint ms) (hphase : ms.tally.phase = .loading) :
    (l.finishLoading w).1 =
        (Tally.closing w hint { ms.tally with phase := .complete e }).map .call ∧
      (l.finishLoading w).2.Agrees made hint
        ((Tally.closing w hint { ms.tally with phase := .complete e }).foldl
          (fun k c => k.after (.called c)) { ms.tally with phase := .complete e }) := by
  have hplaceholder : l.placeholder = hint := h.agrees.placeholder (by simp [hphase])
  have hrender := render_finished (l := { l with loading := none }) w h.selection_eq_nil
  have hclosing : Tally.closing w hint { ms.tally with phase := .complete e } =
      [.setBusy false, .setPlaceholder (l.placeholder.getD ""),
        .setRows (Item.finalRows w l.recent l.items)] := by
    rw [hplaceholder, h.agrees.recent, h.agrees.items]
    rfl
  rw [hclosing, PickList.finishLoading, hrender]
  refine ⟨rfl, ?_⟩
  -- what the control is told of its business and of its placeholder does not concern the list
  have hcomplete := (h.agrees.complete (e := e) hphase).withRows
    (Item.finalRows w l.recent l.items)
  exact ⟨hcomplete.same, hcomplete.items, hcomplete.recent, hcomplete.selection, hcomplete.vacant,
    hcomplete.idle, hcomplete.loading, hcomplete.placeholder⟩

variable {b : Batch} {rest : List Batch} {ending : Delay} {f : Failure} {items : List Item}

/-- **A batch comes in.** -/
theorem Follows.brought (h : l.Follows made w hint ms)
    (hloading : l.loading = some (b :: rest, ending)) (hb : b.outcome = .ok items) :
    (render { l with items := l.items ++ items, loading := some (rest, ending) } w
        false).2.Follows made w hint
      (ms ++ .brought items :: Diary.calls
        (render { l with items := l.items ++ items, loading := some (rest, ending) } w false).1) := by
  obtain ⟨hphase, hsupply⟩ := h.agrees.loading _ _ hloading
  rw [List.map_cons, hb] at hsupply
  have hitems : l.items ++ items = (ms.tally.after (.brought items)).items := by
    simp [h.agrees.items, Tally.after, Tally.items]
  have hagrees : Agrees { l with
      items := l.items ++ items
      loading := some (rest, ending)
      vacant := false } made hint (ms.tally.after (.brought items)) := {
    same := h.agrees.same
    items := hitems
    recent := h.agrees.recent
    selection := h.agrees.selection
    vacant := by
      rw [Tally.vacant, Tally.after, hphase]
      rfl
    idle := fun hnone => absurd hnone (by simp)
    loading := fun batches ending heq => by
      obtain ⟨rfl, rfl⟩ := Prod.mk.inj (Option.some.inj heq)
      refine ⟨hphase, ?_⟩
      simp [hsupply, Tally.after]
    placeholder := h.agrees.placeholder }
  have hoccurs : (Incident.brought items).Occurs made ms.tally := ⟨hphase, _, hsupply⟩
  rw [render_unfinished]
  apply h.next hoccurs
  · show [Incident.called (.setRows (Item.rows l.recent (l.items ++ items)))] = _
    rw [hitems, h.agrees.recent]
    rfl
  · have hrows := hagrees.withRows (Item.rows l.recent (l.items ++ items))
    rw [hitems, h.agrees.recent] at hrows ⊢
    exact hrows

/-- **There are no more batches.** -/
theorem Follows.ended (h : l.Follows made w hint ms) (hloading : l.loading = some ([], ending)) :
    (l.finishLoading w).2.Follows made w hint
      (ms ++ .ended :: Diary.calls (l.finishLoading w).1) := by
  obtain ⟨hphase, hsupply⟩ := h.agrees.loading _ _ hloading
  obtain ⟨hacts, hagrees⟩ := h.finishLoading (e := none) hphase
  have hoccurs : Incident.ended.Occurs made ms.tally :=
    ⟨hphase, hsupply.trans (List.append_nil _)⟩
  apply h.next hoccurs
  · rw [hacts]
    rfl
  · exact hagrees

/-- **A batch cannot be loaded**, and this is shown. -/
theorem Follows.failed (h : l.Follows made w hint ms)
    (hloading : l.loading = some (b :: rest, ending)) (hb : b.outcome = .error f)
    (hshow : l.showFailures = true) :
    (l.finishLoading w).2.Follows made w hint
      (ms ++ .failed f true :: .called (.setMessage (some f.chain)) ::
        Diary.calls (l.finishLoading w).1) := by
  obtain ⟨hphase, hsupply⟩ := h.agrees.loading _ _ hloading
  obtain ⟨hacts, hagrees⟩ := h.finishLoading (e := some f) hphase
  rw [List.map_cons, hb] at hsupply
  rw [← Diary.calls_call]
  have hoccurs : (Incident.failed f true).Occurs made ms.tally :=
    ⟨hphase, hshow.symm.trans h.agrees.same.2.2, _, hsupply⟩
  apply h.next hoccurs
  · rw [Diary.calls_call, hacts]
    rfl
  · exact hagrees

/-- **A batch cannot be loaded**, and this is passed on. -/
theorem Follows.abandoned (h : l.Follows made w hint ms)
    (hloading : l.loading = some (b :: rest, ending)) (hb : b.outcome = .error f)
    (hshow : l.showFailures = false) :
    Follows { l with loading := none } made w hint
      (ms ++ [.failed f false, .called (.setBusy false)]) := by
  obtain ⟨hphase, hsupply⟩ := h.agrees.loading _ _ hloading
  rw [List.map_cons, hb] at hsupply
  have hoccurs : (Incident.failed f false).Occurs made ms.tally :=
    ⟨hphase, hshow.symm.trans h.agrees.same.2.2, _, hsupply⟩
  rw [← Diary.calls_nil, ← Diary.calls_call]
  apply h.next hoccurs
  · rfl
  · exact {
      same := h.agrees.same
      items := h.agrees.items
      recent := h.agrees.recent
      selection := h.agrees.selection
      vacant := h.agrees.vacant_eq_false hphase
      idle := fun _ => by simp [Tally.advance, Tally.due, Tally.after]
      loading := fun _ _ hsome => absurd hsome (by simp)
      placeholder := fun _ => h.agrees.placeholder (by simp [hphase]) }

/-- The batches are looked at in vain. -/
theorem Follows.wait (h : l.Follows made w hint ms) {batches batches' : List Batch}
    {ending' : Delay} (hloading : l.loading = some (batches, ending))
    (houtcomes : batches'.map Batch.outcome = batches.map Batch.outcome) :
    Follows { l with loading := some (batches', ending') } made w hint ms where
  truthful := h.truthful
  agrees := {
    same := h.agrees.same
    items := h.agrees.items
    recent := h.agrees.recent
    selection := h.agrees.selection
    vacant := h.agrees.vacant
    idle := fun hnone => absurd hnone (by simp)
    loading := fun _ _ heq => by
      obtain ⟨rfl, rfl⟩ := Prod.mk.inj (Option.some.inj heq)
      rw [houtcomes]
      exact h.agrees.loading _ _ hloading
    placeholder := h.agrees.placeholder }

/-- **Everything that is ready is taken in.** The induction is on the batches. -/
theorem Follows.takeIn {batches : List Batch} (h : l.Follows made w hint ms)
    (hloading : l.loading = some (batches, ending)) :
    (takeIn w ending batches l).2.1.Follows made w hint
      (ms ++ intakeFrom w ending batches l) := by
  induction batches generalizing l ms with
  | nil =>
    rw [PickList.takeIn, intakeFrom]
    by_cases hover : ending.isOver = true
    · rw [if_pos hover, if_pos hover]
      exact h.ended hloading
    · rw [if_neg hover, if_neg hover, List.append_nil]
      exact h.wait hloading rfl
  | cons b rest ih =>
    rw [PickList.takeIn, intakeFrom]
    by_cases hover : b.delay.isOver = true
    · rw [if_pos hover, if_pos hover]
      rcases hb : b.outcome with f | items
      · simp only
        by_cases hshow : l.showFailures = true
        · rw [if_pos hshow, if_pos hshow]
          exact h.failed hloading hb hshow
        · rw [if_neg hshow, if_neg hshow]
          exact h.abandoned hloading hb (by simpa using hshow)
      · have hbrought := h.brought hloading hb
        have hrest := ih hbrought rfl
        rw [List.append_assoc] at hrest
        exact hrest
    · rw [if_neg hover, if_neg hover, List.append_nil]
      exact h.wait hloading (by simp)

/-- What a look has found, and what has happened. -/
inductive Finds : Look → Diary → Prop
  /-- The list goes on. -/
  | await {own : Diary} (smooth : own.Smooth) : Finds .await own
  /-- The asking is over. -/
  | failed {own : Diary} (smooth : own.Smooth) (f : Failure) :
      Finds (.failed f) (own ++ [.failed f false, .called (.setBusy false)])

theorem finds_takeIn (w : Wording) (ending : Delay) (batches : List Batch) (l : PickList) :
    Finds (takeIn w ending batches l).2.2 (intakeFrom w ending batches l) := by
  induction batches generalizing l with
  | nil =>
    rw [PickList.takeIn, intakeFrom]
    split
    · exact .await ((Diary.smooth_calls _).cons rfl)
    · exact .await Diary.smooth_nil
  | cons b rest ih =>
    rw [PickList.takeIn, intakeFrom]
    split
    · rcases b.outcome with f | items
      · simp only
        split
        · exact .await (((Diary.smooth_calls _).cons rfl).cons rfl)
        · exact .failed Diary.smooth_nil f
      · -- what was found in the other batches comes after this one
        have hbrought : ∀ acts, Diary.Smooth (.brought items :: Diary.calls acts) :=
          fun acts => (Diary.smooth_calls acts).cons rfl
        have hrest := ih
          (render { l with items := l.items ++ items, loading := some (rest, ending) } w false).2
        simp only
        rw [← List.cons_append]
        generalize (PickList.takeIn w ending rest _).2.2 = found at hrest ⊢
        generalize intakeFrom w ending rest _ = own at hrest ⊢
        cases hrest with
        | await smooth => exact .await ((hbrought _).append smooth)
        | failed smooth f =>
          rw [← List.append_assoc]
          exact .failed ((hbrought _).append smooth) f
    · exact .await Diary.smooth_nil

/-- **A look keeps up.** -/
theorem Follows.look (h : l.Follows made w hint ms) :
    (l.look w).2.1.Follows made w hint (ms ++ l.intake w) := by
  unfold PickList.look intake
  rcases hloading : l.loading with _ | ⟨batches, ending⟩
  · rw [List.append_nil]
    exact h
  · exact h.takeIn hloading

/-- A look says what it has found. -/
theorem finds_look (l : PickList) (w : Wording) : Finds (l.look w).2.2 (l.intake w) := by
  unfold PickList.look intake
  rcases l.loading with _ | ⟨batches, ending⟩
  · exact .await Diary.smooth_nil
  · exact finds_takeIn w ending batches l

/-! ## Being shown, used and restored -/

/-- **A list that was just made.** -/
theorem follows_fresh (hmade : made.Unshown) (hselection : made.selection = []) :
    made.Follows made w hint [.recalled made.recent] where
  truthful := .next .nil (.recalled made.recent) trivial
  agrees := {
    same := ⟨rfl, rfl, rfl⟩
    items := hmade.items
    recent := rfl
    selection := hselection
    vacant := hmade.vacant
    idle := fun _ => by simp [Diary.tally, Tally.after, Tally.blank]
    loading := fun _ _ hsome => absurd (hmade.loading.symm.trans hsome) (by simp)
    placeholder := fun hshown => absurd rfl hshown }

/-- What a list is like that was not shown yet. -/
theorem Follows.of_unshown (h : l.Follows made w hint ms) (hphase : ms.tally.phase = .unshown) :
    ms.tally.batches = [] ∧ l.items = [] ∧ l.selection = [] ∧ l.vacant = false := by
  have hbatches := (h.truthful.inStep.unshown hphase).1
  have hitems : l.items = [] := by
    rw [h.agrees.items, Tally.items, hbatches]
    rfl
  refine ⟨hbatches, hitems, h.selection_eq_nil hitems, ?_⟩
  rw [h.agrees.vacant, Tally.vacant, hphase]
  rfl

/-- **The items are there from the start.** -/
theorem Follows.stocked (h : l.Follows made w hint ms) (hphase : ms.tally.phase = .unshown)
    (hsource : l.source = .fixed items) :
    (render { l with placeholder := hint, items } w true).2.Follows made w hint
      (ms ++ .stocked items ::
        Diary.calls (render { l with placeholder := hint, items } w true).1) := by
  obtain ⟨-, -, hselection, -⟩ := h.of_unshown hphase
  have hoccurs : (Incident.stocked items).Occurs made ms.tally :=
    ⟨hphase, h.agrees.same.1.symm.trans hsource⟩
  have hitems : items = (ms.tally.after (.stocked items)).items := by
    simp [Tally.after, Tally.items]
  have hagrees : Agrees { l with placeholder := hint, items, vacant := items.isEmpty } made hint
      (ms.tally.after (.stocked items)) := {
    same := h.agrees.same
    items := hitems
    recent := h.agrees.recent
    selection := h.agrees.selection
    vacant := by
      rw [Tally.vacant, ← hitems]
      rfl
    idle := fun _ => by simp [Tally.after]
    loading := fun _ _ hsome => absurd (h.agrees.loading _ _ hsome).1 (by simp [hphase])
    placeholder := fun _ => rfl }
  rw [render_finished (l := { l with placeholder := hint, items }) w (fun _ => hselection)]
  apply h.next hoccurs
  · show [Incident.called (.setRows (Item.finalRows w l.recent items))] = _
    rw [h.agrees.recent]
    simp [Tally.due, Tally.after, Tally.items]
  · have hrows := hagrees.withRows (Item.finalRows w l.recent items)
    rw [h.agrees.recent] at hrows ⊢
    rw [Tally.advance, Tally.due, ← hitems]
    exact hrows

/-- **The items are loaded.** -/
theorem Follows.opened (h : l.Follows made w hint ms) (hphase : ms.tally.phase = .unshown)
    {load : Load} (hsource : l.source = .lazy load) (notes : List Entry) :
    Follows { l with placeholder := hint, loading := some (load.batches, load.ending) } made w hint
      (ms ++ .opened :: Diary.calls (notes.map Act.entry ++
        [.call (.setBusy true), .call (.setPlaceholder w.loading)])) := by
  obtain ⟨hbatches, -, -, hvacant⟩ := h.of_unshown hphase
  have hmade : made.source = .lazy load := h.agrees.same.1.symm.trans hsource
  have hoccurs : Incident.opened.Occurs made ms.tally := by
    refine ⟨hphase, ?_⟩
    rw [hmade]
    rfl
  apply h.next hoccurs
  · simp [Tally.due]
  · exact {
      same := h.agrees.same
      items := h.agrees.items
      recent := h.agrees.recent
      selection := h.agrees.selection
      vacant := hvacant
      idle := fun hnone => absurd hnone (by simp)
      loading := fun _ _ heq => by
        obtain ⟨rfl, rfl⟩ := Prod.mk.inj (Option.some.inj heq)
        refine ⟨rfl, ?_⟩
        show made.source.outcomes = ms.tally.batches.map Except.ok ++ _
        rw [hbatches, hmade]
        rfl
      placeholder := fun _ => rfl }

/-- **The list is shown for the first time.** -/
theorem Follows.opening (h : l.Follows made w hint ms) (hphase : ms.tally.phase = .unshown) :
    (start { l with placeholder := hint } w).2.Follows made w hint
      (ms ++ opening { l with placeholder := hint } w) := by
  unfold PickList.start PickList.opening PickList.start
  cases l with | mk source =>
  cases source with
  | fixed items => exact h.stocked hphase rfl
  | lazy load => exact h.opened hphase rfl load.notes

/-- **An event that is handled by the list.** -/
theorem Follows.handle (h : l.Follows made w hint ms) (e : Event) :
    (l.handle e).1.Follows made w hint (ms ++ [.event e]) := by
  apply h.concat (m := .event e) trivial rfl
  cases e with
  | selected places =>
    exact {
      same := h.agrees.same
      items := h.agrees.items
      recent := h.agrees.recent
      selection := by
        show places.filter (· < l.items.length) = places.filter (· < ms.tally.items.length)
        rw [h.agrees.items]
      vacant := h.agrees.vacant
      idle := h.agrees.idle
      loading := h.agrees.loading
      placeholder := h.agrees.placeholder }
  | changed | accept | hide | button => exact h.agrees

/-- An event that is not handled by the list, unless it is a selection. -/
theorem Follows.event (h : l.Follows made w hint ms) {e : Event}
    (he : ∀ places, e ≠ .selected places) : l.Follows made w hint (ms ++ [.event e]) := by
  have hhandle := h.handle e
  cases e with
  | selected places => exact absurd rfl (he places)
  | changed | accept | hide | button => exact hhandle

/-- What an acceptance comes to. -/
theorem Agrees.accept (h : l.Agrees made hint k) : l.accept = k.reply made.many := by
  unfold PickList.accept Tally.reply
  rw [h.vacant, h.same.2.1, itemsAt, h.items, h.selection, Tally.dataAt, List.map_filterMap]

/-- **The list is restored from an earlier attempt.** -/
theorem Follows.restore (h : l.Follows made w hint ms) (a : Attempt Json) :
    (l.restore a).Follows made w hint (ms ++ recollection made.many a.value) := by
  have hrecalled : ∀ answers, Follows { l with recent := answers } made w hint
      (ms ++ [.recalled answers]) := by
    intro answers
    apply h.concat (m := .recalled answers) trivial rfl
    exact ⟨h.agrees.same, h.agrees.items, rfl, h.agrees.selection, h.agrees.vacant, h.agrees.idle,
      h.agrees.loading, h.agrees.placeholder⟩
  have hmany := h.agrees.same.2.1
  rw [← hmany]
  cases l with | mk source many =>
  cases a with | mk value =>
  cases many with
  | false => exact hrecalled [value]
  | true =>
    cases value with
    | list vs => exact hrecalled vs
    | null | bool | int | float | text | object =>
      -- answers of this kind are none that a list of many gave
      rw [← List.append_nil ms] at h
      exact h

end PickList

end Interview
