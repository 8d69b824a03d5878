import Interview.Proofs.Picking.Diaries
/-
The calls that a list makes on its control are due to what happens to it.

Whenever a batch comes in, or the batches are over, or loading fails, certain calls are due, and
they are made there and then, one after the other, before anything else happens. A list makes no
other calls. Diaries of this kind are called true (`Diary.Truthful`), and what the control shows at
any moment of a true diary is a matter of how far loading has come (`Tally.InStep`).

That the diaries of screens are true is shown elsewhere. Here it is only looked at what follows, by
one induction with a case for each incident.
-/

set_option autoImplicit false

namespace Interview

open Control (Event Call)

/-! ## What a source has to offer -/

/-- The outcomes of the batches of a source. Items that are there from the start are one batch. -/
def ItemSource.outcomes : ItemSource → List (Except Failure (List Item))
  | fixed items => [.ok items]
  | lazy load => load.batches.map Batch.outcome

/-- Whether the items are loaded. -/
def ItemSource.isLazy : ItemSource → Bool
  | fixed _ => false
  | lazy _ => true

/-- What is left of the batches when no more come in: nothing, or the one that could not be loaded
and those after it. -/
def ItemSource.Leaves (rest : List (Except Failure (List Item))) : Option Failure → Prop
  | none => rest = []
  | some f => ∃ more, rest = .error f :: more

/-- The rows at the end of loading: those of the items, or the one that says that there are none. -/
def Item.finalRows (w : Wording) (recent : List Json) (items : List Item) : List Row :=
  if items.isEmpty then [Row.plain w.noItems] else Item.rows recent items

/-! ## Calls that are due -/

namespace Tally

variable {made : PickList} {w : Wording} {hint : Option String} {k : Tally} {m : Incident}

/-- The calls at the end of loading. -/
def closing (w : Wording) (hint : Option String) (k : Tally) : List Call :=
  [.setBusy false, .setPlaceholder (hint.getD ""), .setRows (Item.finalRows w k.recent k.items)]

/-- The calls that are due after an incident, on a control whose own placeholder is the hint. -/
def due (w : Wording) (hint : Option String) (k : Tally) : Incident → List Call
  | .stocked _ => [.setRows (Item.finalRows w k.recent k.items)]
  | .opened => [.setBusy true, .setPlaceholder w.loading]
  | .brought _ => [.setRows (Item.rows k.recent k.items)]
  | .ended => k.closing w hint
  | .failed f true => .setMessage (some f.chain) :: k.closing w hint
  | .failed _ false => [.setBusy false]
  | _ => []

/-- What there is to know after an incident and the calls that are due then. -/
def advance (w : Wording) (hint : Option String) (k : Tally) (m : Incident) : Tally :=
  ((k.after m).due w hint m).foldl (fun k c => k.after (.called c)) (k.after m)

end Tally

/-- What has to be the case for an incident to occur. Batches come in one after the other, up to the
first that cannot be loaded, and only while the list is loading. -/
def Incident.Occurs (made : PickList) (k : Tally) : Incident → Prop
  | .stocked items => k.phase = .unshown ∧ made.source = .fixed items
  | .opened => k.phase = .unshown ∧ made.source.isLazy = true
  | .brought items => k.phase = .loading ∧
      ∃ rest, made.source.outcomes = k.batches.map .ok ++ .ok items :: rest
  | .ended => k.phase = .loading ∧ made.source.outcomes = k.batches.map .ok
  | .failed f shown => k.phase = .loading ∧ shown = made.showFailures ∧
      ∃ rest, made.source.outcomes = k.batches.map .ok ++ .error f :: rest
  | .called c => c = .makeVisible
  | _ => True

/-- Whether an incident is a call that is due to another one. -/
def Incident.isDue : Incident → Bool
  | .called .makeVisible => false
  | .called _ => true
  | _ => false

namespace Diary

variable {made : PickList} {w : Wording} {hint : Option String} {ms : Diary} {m : Incident}

/-- Every incident could occur, and is followed by the calls that are due then. -/
inductive Truthful (made : PickList) (w : Wording) (hint : Option String) : Diary → Prop
  | nil : Truthful made w hint []
  | next {ms : Diary} (h : Truthful made w hint ms) (m : Incident) (occurs : m.Occurs made ms.tally) :
      Truthful made w hint (ms ++ m :: ((ms.tally.after m).due w hint m).map .called)

theorem tally_next (ms : Diary) (m : Incident) :
    tally (ms ++ m :: ((ms.tally.after m).due w hint m).map .called) =
      ms.tally.advance w hint m := by
  rw [tally_append, List.foldl_cons, List.foldl_map]
  rfl

end Diary

/-! ## What the control shows -/

namespace Tally

variable {made : PickList} {w : Wording} {hint : Option String} {k : Tally} {m : Incident}

/-- **The control shows how far loading has come.** -/
structure InStep (made : PickList) (w : Wording) (hint : Option String) (k : Tally) : Prop where
  /-- Nothing has come in, and nothing is shown yet. -/
  unshown : k.phase = .unshown → k.batches = [] ∧ k.rows = none ∧ k.busy = [] ∧
    k.placeholder = none
  /-- The batches up to now are shown, and that there may be more. -/
  loading : k.phase = .loading → made.source.isLazy = true ∧ k.busy = [true] ∧
    k.placeholder = some w.loading ∧
    k.rows = if k.batches = [] then none else some (Item.rows k.marks k.items)
  /-- All the batches are shown, and that there are no more. -/
  complete : ∀ e, k.phase = .complete e → k.rows = some (Item.finalRows w k.marks k.items) ∧
    k.busy = (if made.source.isLazy then [true, false] else []) ∧
    k.placeholder = (if made.source.isLazy then some (hint.getD "") else none)
  /-- The batches up to the failure are shown. -/
  abandoned : ∀ f, k.phase = .abandoned f → made.source.isLazy = true ∧ k.busy = [true, false] ∧
    k.rows = if k.batches = [] then none else some (Item.rows k.marks k.items)
  /-- The batches are those of the source, up to the first that could not be loaded. -/
  supply : k.phase ≠ .unshown → ∃ rest, made.source.outcomes = k.batches.map .ok ++ rest ∧
    (∀ e, k.phase = .complete e → ItemSource.Leaves rest e) ∧
    ∀ f, k.phase = .abandoned f → ItemSource.Leaves rest (some f)
  /-- Only items that have come in are selected. -/
  selected : ∀ p ∈ k.selection, p < k.items.length
  /-- As long as the recent answers stay, the rows are marked by them. -/
  marks : k.steady = true → k.rows ≠ none → k.marks = k.recent

theorem InStep.blank : InStep made w hint blank where
  unshown _ := ⟨rfl, rfl, rfl, rfl⟩
  loading h := absurd h (by simp [Tally.blank])
  complete _ h := absurd h (by simp [Tally.blank])
  abandoned _ h := absurd h (by simp [Tally.blank])
  supply h := absurd rfl h
  selected _ h := absurd h List.not_mem_nil
  marks _ h := absurd rfl h

/-! Whatever the phase is, only what is promised of it has to be shown. -/

theorem InStep.of_loading (rest : List (Except Failure (List Item)))
    (hphase : k.phase = .loading) (hlazy : made.source.isLazy = true)
    (hbusy : k.busy = [true]) (hplaceholder : k.placeholder = some w.loading)
    (hrows : k.rows = if k.batches = [] then none else some (Item.rows k.marks k.items))
    (hsupply : made.source.outcomes = k.batches.map .ok ++ rest)
    (hselected : ∀ p ∈ k.selection, p < k.items.length)
    (hmarks : k.steady = true → k.rows ≠ none → k.marks = k.recent) : InStep made w hint k where
  unshown h := absurd (hphase.symm.trans h) (by simp)
  loading _ := ⟨hlazy, hbusy, hplaceholder, hrows⟩
  complete _ h := absurd (hphase.symm.trans h) (by simp)
  abandoned _ h := absurd (hphase.symm.trans h) (by simp)
  supply _ := ⟨rest, hsupply, fun _ h => absurd (hphase.symm.trans h) (by simp),
    fun _ h => absurd (hphase.symm.trans h) (by simp)⟩
  selected := hselected
  marks := hmarks

theorem InStep.of_complete {e : Option Failure} (rest : List (Except Failure (List Item)))
    (hphase : k.phase = .complete e)
    (hrows : k.rows = some (Item.finalRows w k.marks k.items))
    (hbusy : k.busy = if made.source.isLazy then [true, false] else [])
    (hplaceholder : k.placeholder = if made.source.isLazy then some (hint.getD "") else none)
    (hsupply : made.source.outcomes = k.batches.map .ok ++ rest)
    (hrest : ItemSource.Leaves rest e)
    (hselected : ∀ p ∈ k.selection, p < k.items.length)
    (hmarks : k.steady = true → k.marks = k.recent) : InStep made w hint k where
  unshown h := absurd (hphase.symm.trans h) (by simp)
  loading h := absurd (hphase.symm.trans h) (by simp)
  complete _ _ := ⟨hrows, hbusy, hplaceholder⟩
  abandoned _ h := absurd (hphase.symm.trans h) (by simp)
  supply _ := by
    refine ⟨rest, hsupply, fun e' h => ?_, fun _ h => absurd (hphase.symm.trans h) (by simp)⟩
    obtain rfl := Phase.complete.inj (hphase.symm.trans h)
    exact hrest
  selected := hselected
  marks h _ := hmarks h

theorem InStep.of_abandoned {f : Failure} (rest : List (Except Failure (List Item)))
    (hphase : k.phase = .abandoned f)
    (hlazy : made.source.isLazy = true) (hbusy : k.busy = [true, false])
    (hrows : k.rows = if k.batches = [] then none else some (Item.rows k.marks k.items))
    (hsupply : made.source.outcomes = k.batches.map .ok ++ .error f :: rest)
    (hselected : ∀ p ∈ k.selection, p < k.items.length)
    (hmarks : k.steady = true → k.rows ≠ none → k.marks = k.recent) : InStep made w hint k where
  unshown h := absurd (hphase.symm.trans h) (by simp)
  loading h := absurd (hphase.symm.trans h) (by simp)
  complete _ h := absurd (hphase.symm.trans h) (by simp)
  abandoned _ _ := ⟨hlazy, hbusy, hrows⟩
  supply _ := by
    refine ⟨_, hsupply, fun _ h => absurd (hphase.symm.trans h) (by simp), fun f' h => ?_⟩
    obtain rfl := Phase.abandoned.inj (hphase.symm.trans h)
    exact ⟨rest, rfl⟩
  selected := hselected
  marks := hmarks

/-! ## Incidents, one by one -/

/-- Setting rows selects no place beyond them that was not selected before. -/
theorem selected_setRows {rows : List Row} {n : Nat} (hrows : ∀ p ∈ Row.pickedAt rows, p < n)
    (hk : ∀ p ∈ k.selection, p < n) :
    ∀ p ∈ (k.after (.called (.setRows rows))).selection, p < n := by
  intro p hp
  simp only [after] at hp
  split at hp
  · exact hrows p hp
  · exact hk p hp

theorem lt_of_mem_rows {recent : List Json} {items : List Item} :
    ∀ p ∈ Row.pickedAt (Item.rows recent items), p < items.length := by
  intro p hp
  have hlt := Row.lt_of_mem_pickedAt hp
  rwa [Item.length_rows] at hlt

theorem lt_of_mem_finalRows {recent : List Json} {items : List Item} :
    ∀ p ∈ Row.pickedAt (Item.finalRows w recent items), p < items.length := by
  unfold Item.finalRows
  split
  · -- the row that says that there are no items is not picked
    intro p hp
    exact absurd hp List.not_mem_nil
  · exact lt_of_mem_rows

/-- More items leave the selected places where they are. -/
theorem InStep.selected_brought (h : k.InStep made w hint) (items : List Item) :
    ∀ p ∈ k.selection, p < (k.after (.brought items)).items.length := by
  intro p hp
  have hlt := h.selected p hp
  simp only [after, Tally.items, List.flatten_append, List.length_append]
  unfold Tally.items at hlt
  omega

theorem InStep.stocked (h : k.InStep made w hint) {items : List Item}
    (hm : (Incident.stocked items).Occurs made k) :
    (k.advance w hint (.stocked items)).InStep made w hint := by
  obtain ⟨hphase, hsource⟩ := hm
  obtain ⟨hbatches, -, hbusy, hplaceholder⟩ := h.unshown hphase
  have hnone : ∀ p ∈ k.selection, p < (k.after (.stocked items)).items.length := by
    intro p hp
    have hlt := h.selected p hp
    simp [Tally.items, hbatches] at hlt
  have hlazy : made.source.isLazy = false := by rw [hsource]; rfl
  apply of_complete (e := none) []
  · rfl
  · rfl
  · rw [hlazy]
    exact hbusy
  · rw [hlazy]
    exact hplaceholder
  · rw [hsource]
    rfl
  · rfl
  · exact selected_setRows lt_of_mem_finalRows hnone
  · intro _
    rfl

theorem InStep.opened (h : k.InStep made w hint) (hm : Incident.opened.Occurs made k) :
    (k.advance w hint .opened).InStep made w hint := by
  obtain ⟨hphase, hlazy⟩ := hm
  obtain ⟨hbatches, hrows, hbusy, -⟩ := h.unshown hphase
  apply of_loading made.source.outcomes
  · rfl
  · exact hlazy
  · show k.busy ++ [true] = [true]
    rw [hbusy]
    rfl
  · rfl
  · show k.rows = if k.batches = [] then none else _
    rw [if_pos hbatches, hrows]
  · show _ = k.batches.map Except.ok ++ _
    rw [hbatches]
    rfl
  · exact h.selected
  · exact h.marks

theorem InStep.brought (h : k.InStep made w hint) {items : List Item}
    (hm : (Incident.brought items).Occurs made k) :
    (k.advance w hint (.brought items)).InStep made w hint := by
  obtain ⟨hphase, rest, hsupply⟩ := hm
  obtain ⟨hlazy, hbusy, hplaceholder, -⟩ := h.loading hphase
  apply of_loading rest
  · exact hphase
  · exact hlazy
  · exact hbusy
  · exact hplaceholder
  · show some _ = if k.batches ++ [items] = [] then none else _
    rw [if_neg (by simp)]
    rfl
  · show _ = (k.batches ++ [items]).map Except.ok ++ _
    rw [hsupply]
    simp
  · exact selected_setRows lt_of_mem_rows (h.selected_brought items)
  · intro _ _
    rfl

/-- What the calls at the end of loading come to. -/
theorem InStep.closed (h : k.InStep made w hint) (hphase : k.phase = .loading) {e : Option Failure}
    {rest : List (Except Failure (List Item))}
    (hsupply : made.source.outcomes = k.batches.map .ok ++ rest)
    (hrest : ItemSource.Leaves rest e) :
    InStep made w hint (({ k with phase := .complete e }.closing w hint).foldl
      (fun k c => k.after (.called c)) { k with phase := .complete e }) := by
  obtain ⟨hlazy, hbusy, -, -⟩ := h.loading hphase
  apply of_complete (e := e) rest
  · rfl
  · rfl
  · show k.busy ++ [false] = _
    rw [hbusy, hlazy]
    rfl
  · rw [hlazy]
    rfl
  · exact hsupply
  · exact hrest
  · exact selected_setRows (k := { k with phase := .complete e }) lt_of_mem_finalRows h.selected
  · intro _
    rfl

theorem InStep.ended (h : k.InStep made w hint) (hm : Incident.ended.Occurs made k) :
    (k.advance w hint .ended).InStep made w hint :=
  h.closed hm.1 (hm.2.trans (List.append_nil _).symm) rfl

theorem InStep.failed (h : k.InStep made w hint) {f : Failure} {shown : Bool}
    (hm : (Incident.failed f shown).Occurs made k) :
    (k.advance w hint (.failed f shown)).InStep made w hint := by
  obtain ⟨hphase, -, rest, hsupply⟩ := hm
  cases shown with
  | true => exact h.closed (e := some f) hphase hsupply ⟨rest, rfl⟩
  | false =>
    obtain ⟨hlazy, hbusy, -, hrows⟩ := h.loading hphase
    apply of_abandoned (f := f) rest
    · rfl
    · exact hlazy
    · show k.busy ++ [false] = _
      rw [hbusy]
      rfl
    · exact hrows
    · exact hsupply
    · exact h.selected
    · exact h.marks

/-- Other answers count as recent, while the rows stay as they are. -/
theorem InStep.recalled (h : k.InStep made w hint) (answers : List Json) :
    (k.advance w hint (.recalled answers)).InStep made w hint where
  unshown := h.unshown
  loading := h.loading
  complete := h.complete
  abandoned := h.abandoned
  supply := h.supply
  selected := h.selected
  marks hsteady hrows := by
    -- the list was not shown yet, so there are no rows
    obtain ⟨-, hunshown⟩ := Bool.and_eq_true_iff.mp hsteady
    exact absurd (h.unshown (Phase.eq_unshown hunshown)).2.1 hrows

/-- Another selection has no effect on what is shown. -/
theorem InStep.withSelection (h : k.InStep made w hint) {selection : List Nat}
    (hselection : ∀ p ∈ selection, p < k.items.length) :
    InStep made w hint { k with selection } where
  unshown := h.unshown
  loading := h.loading
  complete := h.complete
  abandoned := h.abandoned
  supply := h.supply
  selected := hselection
  marks := h.marks

theorem InStep.event (h : k.InStep made w hint) (e : Event) :
    (k.advance w hint (.event e)).InStep made w hint := by
  cases e with
  | selected places =>
    apply h.withSelection
    intro p hp
    simpa using (List.mem_filter.mp hp).2
  | changed | accept | hide | button => exact h

/-- **Whatever happens, and the calls that are due then.** -/
theorem InStep.advance (h : k.InStep made w hint) (hm : m.Occurs made k) :
    (k.advance w hint m).InStep made w hint := by
  cases m with
  | recalled answers => exact h.recalled answers
  | stocked items => exact h.stocked hm
  | opened => exact h.opened hm
  | brought items => exact h.brought hm
  | ended => exact h.ended hm
  | failed f shown => exact h.failed hm
  | called c =>
    obtain rfl : c = .makeVisible := hm
    exact h
  | event e => exact h.event e

end Tally

/-! ## Moments at which no call is due -/

namespace Diary

variable {made : PickList} {w : Wording} {hint : Option String} {ms before after : Diary}

/-- **In a true diary the control shows how far loading has come.** -/
theorem Truthful.inStep (h : ms.Truthful made w hint) : ms.tally.InStep made w hint := by
  induction h with
  | nil => exact .blank
  | next h m hm ih =>
    rw [tally_next]
    exact ih.advance hm

/-- No call is due at a place in a diary, given what comes next. -/
def AtRest (after : Diary) : Prop :=
  ∀ m rest, after = m :: rest → m.isDue = false

/-- Calls that are due stand at no such place. -/
theorem AtRest.eq_nil {cs : List Call} (hcs : ∀ c ∈ cs, c ≠ .makeVisible)
    (h : AtRest after) (hafter : after <:+ cs.map .called) : after = [] := by
  cases after with
  | nil => rfl
  | cons m rest =>
    have hmem : m ∈ cs.map Incident.called := hafter.subset List.mem_cons_self
    obtain ⟨c, hc, rfl⟩ := List.mem_map.mp hmem
    have hdue := h _ _ rfl
    cases c with
    | makeVisible => exact absurd rfl (hcs _ hc)
    | setRows | setValue | setMessage | setBusy | setPlaceholder | setTitle | dispose =>
      exact absurd hdue (by simp [Incident.isDue])

/-- Showing the control is due to nothing that happens to its list. -/
theorem ne_makeVisible_of_mem_due {k : Tally} {m : Incident} {c : Call}
    (h : c ∈ k.due w hint m) : c ≠ .makeVisible := by
  rintro rfl
  cases m with
  | failed f shown =>
    cases shown with
    | true => simp [Tally.due, Tally.closing] at h
    | false => simp [Tally.due] at h
  | recalled | stocked | opened | brought | ended | called | event =>
    simp [Tally.due, Tally.closing] at h

/-- **What comes before such a place is a true diary itself.** -/
theorem Truthful.of_append (h : (before ++ after).Truthful made w hint) (hrest : AtRest after) :
    before.Truthful made w hint := by
  generalize hms : before ++ after = ms at h
  induction h generalizing before after with
  | nil =>
    obtain ⟨rfl, rfl⟩ := List.append_eq_nil_iff.mp hms
    exact .nil
  | @next ms htrue m hm ih =>
    rcases List.append_eq_append_iff.mp hms with ⟨between, rfl, hafter⟩ | ⟨own, rfl, hown⟩
    · -- the place is among the earlier incidents
      refine ih ?_ rfl
      intro x rest hx
      apply hrest x (rest ++ m :: _)
      rw [hafter, hx]
      rfl
    · rcases own with _ | ⟨x, own⟩
      · rw [List.append_nil]
        exact htrue
      · -- the place is among the calls that are due, so it is behind them
        rw [List.cons_append, List.cons.injEq] at hown
        obtain ⟨rfl, hcalls⟩ := hown
        have hnil : after = [] :=
          hrest.eq_nil (fun c hc => ne_makeVisible_of_mem_due hc) ⟨own, hcalls.symm⟩
        rw [hnil, List.append_nil] at hcalls
        rw [← hcalls]
        exact .next htrue m hm

end Diary

end Interview
