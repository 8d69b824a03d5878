import Interview.Proofs.Picking.Conversations
/-
What a list of many answers with.

The selection is one list of places with two hands on it. The user sets it, and as long as it is
empty, rows that are shown as picked fill it. So an empty selection stands both for "not chosen
yet" and for "nothing is chosen", and what is selected at some moment can be read off the diary:
it is the last selection of the user, or the picks of the first rows with picks since then
(`Diary.selection_append`).

Two promises follow, each with the condition that the double meaning costs it. A list that its user
leaves alone answers with what it shows as picked, if the picks come in one batch. And the last
selection of the user counts, if something was selected or no rows with picks come in later.
-/

set_option autoImplicit false

namespace Interview

open Control (Event Call)

/-! ## Picks -/

theorem Item.rows_append (recent : List Json) (items more : List Item) :
    rows recent (items ++ more) = rows recent items ++ rows recent more :=
  List.map_append

/-- The picks of more rows come after those of the first. -/
theorem Row.pickedAt_append (rows more : List Row) :
    pickedAt (rows ++ more) = pickedAt rows ++ (pickedAt more).map (rows.length + ·) := by
  unfold pickedAt
  rw [List.zipIdx_append, List.filter_append, List.map_append, Nat.zero_add,
    List.zipIdx_eq_map_add (l := more) (i := rows.length), List.filter_map, List.map_map,
    List.map_map]
  rfl

theorem Row.length_pickedAt (rows : List Row) : (pickedAt rows).length = rows.countP Row.picked := by
  have hfst : rows.zipIdx.countP (fun p => p.1.picked) =
      (rows.zipIdx.map Prod.fst).countP Row.picked := by
    rw [List.countP_map]
    rfl
  rw [pickedAt, List.length_map, ← List.countP_eq_length_filter, hfst, List.zipIdx_map_fst]

/-- There are as many picks as picked items. -/
theorem Item.length_pickedAt (recent : List Json) (items : List Item) :
    (Row.pickedAt (rows recent items)).length = items.countP (isPicked recent) := by
  rw [Row.length_pickedAt, rows, List.countP_map]
  rfl

theorem Item.pickedAt_eq_nil {recent : List Json} {items : List Item} :
    Row.pickedAt (rows recent items) = [] ↔ items.countP (isPicked recent) = 0 := by
  rw [← List.length_eq_zero_iff, length_pickedAt]

namespace Tally

variable {k : Tally} {places : List Nat}

/-- **The data at the picks** are those of the picked items, in their order. -/
theorem dataAt_pickedAt (k : Tally) (recent : List Json) :
    k.dataAt (Row.pickedAt (Item.rows recent k.items)) =
      (k.items.filter (Item.isPicked recent)).map Item.data := by
  have hplace : ∀ p ∈ k.items.zipIdx.filter (fun p => p.1.isPicked recent),
      ((k.items[p.2]?).map Item.data) = some p.1.data := by
    intro p hp
    have hmem := List.mk_mem_zipIdx_iff_getElem?.mp (List.mem_filter.mp hp).1
    rw [hmem]
    rfl
  have hfst : (k.items.zipIdx.filter fun p => p.1.isPicked recent).map Prod.fst =
      k.items.filter (Item.isPicked recent) := by
    rw [show (fun p : Item × Nat => p.1.isPicked recent) = Item.isPicked recent ∘ Prod.fst from rfl,
      ← List.filter_map, List.zipIdx_map_fst]
  rw [Item.pickedAt_rows, dataAt, List.filterMap_map, ← hfst, List.map_map,
    ← List.filterMap_eq_map]
  exact List.filterMap_congr hplace

/-- Every place has its item. -/
theorem exists_itemsAt (h : ∀ p ∈ places, p < k.items.length) :
    ∃ items : List Item, places.map (k.items[·]?) = items.map some ∧
      k.dataAt places = items.map Item.data := by
  induction places with
  | nil => exact ⟨[], rfl, rfl⟩
  | cons p places ih =>
    obtain ⟨hp, hplaces⟩ := List.forall_mem_cons.mp h
    obtain ⟨items, hitems, hdata⟩ := ih hplaces
    have hitem : k.items[p]? = some k.items[p] := List.getElem?_eq_getElem hp
    refine ⟨k.items[p] :: items, ?_, ?_⟩
    · rw [List.map_cons, hitems, hitem]
      rfl
    · rw [dataAt, List.filterMap_cons, hitem, ← dataAt, hdata]
      rfl

theorem length_dataAt (h : ∀ p ∈ places, p < k.items.length) :
    (k.dataAt places).length = places.length := by
  obtain ⟨items, hitems, hdata⟩ := exists_itemsAt h
  have hlength := congrArg List.length hitems
  rw [List.length_map, List.length_map] at hlength
  rw [hdata, List.length_map, hlength]

end Tally

/-! ## What is selected -/

namespace Diary

variable {ms ns : Diary}

theorem untouched_append : Untouched (ms ++ ns) ↔ Untouched ms ∧ Untouched ns :=
  List.forall_mem_append

theorem firstPicks_append :
    firstPicks (ms ++ ns) = if firstPicks ms = [] then firstPicks ns else firstPicks ms := by
  induction ms with
  | nil => rfl
  | cons m ms ih =>
    rw [List.cons_append, firstPicks, firstPicks, ih]
    by_cases hpicks : m.picks = []
    · rw [if_pos hpicks, if_pos hpicks]
    · rw [if_neg hpicks, if_neg hpicks, if_neg hpicks]

/-- One incident more, which is not a selection of the user. -/
theorem selection_after (k : Tally) {m : Incident} (hm : m.isSelection = false) :
    (k.after m).selection = if k.selection = [] then m.picks else k.selection := by
  have hsame : m.picks = [] → (k.after m).selection = k.selection →
      (k.after m).selection = if k.selection = [] then m.picks else k.selection := by
    intro hpicks hselection
    rw [hpicks, hselection]
    split
    · assumption
    · rfl
  cases m with
  | called c =>
    cases c with
    | setRows rows =>
      rw [Tally.after, Incident.picks]
      simp only [List.isEmpty_iff]
    | makeVisible | setValue | setMessage | setBusy | setPlaceholder | setTitle | dispose =>
      exact hsame rfl rfl
  | event e =>
    cases e with
    | selected places => exact absurd hm (by simp [Incident.isSelection])
    | changed | accept | hide | button => exact hsame rfl rfl
  | failed f shown =>
    cases shown with
    | true => exact hsame rfl rfl
    | false => exact hsame rfl rfl
  | recalled | stocked | opened | brought | ended => exact hsame rfl rfl

/-- **What is selected** as long as the user selects nothing more: what was selected before, or else
the first picks since then. -/
theorem selection_append (hns : ns.Untouched) :
    (tally (ms ++ ns)).selection =
      if ms.tally.selection = [] then ns.firstPicks else ms.tally.selection := by
  rw [tally_append]
  generalize ms.tally = k
  induction ns generalizing k with
  | nil =>
    rw [firstPicks]
    split
    · assumption
    · rfl
  | cons m ns ih =>
    obtain ⟨hm, hrest⟩ := List.forall_mem_cons.mp hns
    rw [List.foldl_cons, ih hrest, selection_after k hm, firstPicks]
    by_cases hk : k.selection = []
    · rw [if_pos hk, if_pos hk]
    · rw [if_neg hk, if_neg hk, if_neg hk]

theorem Untouched.selection (h : ms.Untouched) : ms.tally.selection = ms.firstPicks := by
  have happend : (tally ([] ++ ms)).selection = _ := selection_append h
  exact happend

end Diary

/-! ## Picks in one batch and in many -/

namespace Item

variable {recent : List Json} {items : List Item} {batches : List (List Item)} {places : List Nat}

/-- How many batches have a picked item. -/
def picking (recent : List Json) (batches : List (List Item)) : Nat :=
  batches.countP fun items => items.any (isPicked recent)

/-- The first picks, among all the picks of some batches. If one batch at most has picks, these are
all of them, and otherwise they are fewer. -/
structure FirstOf (recent : List Json) (batches : List (List Item)) (places : List Nat) :
    Prop where
  all : picking recent batches ≤ 1 → places = Row.pickedAt (rows recent batches.flatten)
  fewer : 1 < picking recent batches →
    places ≠ [] ∧ places.length < batches.flatten.countP (isPicked recent)

/-- Items are picked if a batch has picks. -/
theorem picking_eq_zero :
    picking recent batches = 0 ↔ batches.flatten.countP (isPicked recent) = 0 := by
  simp only [picking, List.countP_eq_zero, List.any_eq_true, List.mem_flatten, not_exists, not_and]
  constructor
  · rintro h i ⟨items, hitems, hi⟩
    exact h items hitems i hi
  · intro h items hitems i hi
    exact h i ⟨items, hitems, hi⟩

theorem FirstOf.length_le (h : FirstOf recent batches places) :
    places.length ≤ batches.flatten.countP (isPicked recent) := by
  by_cases hone : picking recent batches ≤ 1
  · exact Nat.le_of_eq (by rw [h.all hone, length_pickedAt])
  · exact Nat.le_of_lt (h.fewer (by omega)).2

/-- There are no first picks only if there are none at all. -/
theorem FirstOf.eq_nil (h : FirstOf recent batches places) :
    places = [] ↔ picking recent batches = 0 := by
  constructor
  · intro hnil
    have hone : picking recent batches ≤ 1 := by
      by_contra hmany
      exact (h.fewer (by omega)).1 hnil
    rw [picking_eq_zero, ← pickedAt_eq_nil, ← h.all hone]
    exact hnil
  · intro hzero
    rw [h.all (by omega), pickedAt_eq_nil]
    exact picking_eq_zero.mp hzero

theorem firstOf_nil (recent : List Json) : FirstOf recent [] [] where
  all _ := rfl
  fewer h := absurd h (by simp [picking])

/-- The rows are set once more. -/
theorem FirstOf.again (h : FirstOf recent batches places) :
    FirstOf recent batches
      (if places = [] then Row.pickedAt (rows recent batches.flatten) else places) := by
  by_cases hplaces : places = []
  · have hzero := h.eq_nil.mp hplaces
    rw [if_pos hplaces, ← h.all (by omega)]
    exact h
  · rw [if_neg hplaces]
    exact h

/-- **One more batch**, with rows set after it. -/
theorem FirstOf.append (h : FirstOf recent batches places) (items : List Item) :
    FirstOf recent (batches ++ [items])
      (if places = [] then Row.pickedAt (rows recent (batches ++ [items]).flatten) else places) := by
  have hpicking : picking recent (batches ++ [items]) =
      picking recent batches + if items.any (isPicked recent) then 1 else 0 := by
    simp [picking, List.countP_append, List.countP_cons]
  have hcount : (batches ++ [items]).flatten.countP (isPicked recent) =
      batches.flatten.countP (isPicked recent) + items.countP (isPicked recent) := by
    simp [List.countP_append]
  by_cases hplaces : places = []
  · -- these are the first picks, if there are any
    have hzero := h.eq_nil.mp hplaces
    rw [if_pos hplaces]
    refine ⟨fun _ => rfl, fun hmany => ?_⟩
    rw [hpicking] at hmany
    split at hmany
    · omega
    · omega
  · rw [if_neg hplaces]
    have hsome : picking recent batches ≠ 0 := fun hzero => hplaces (h.eq_nil.mpr hzero)
    by_cases hitems : items.any (isPicked recent) = true
    · -- there are picks before and in this batch
      have hpos : 0 < items.countP (isPicked recent) := by
        rw [List.countP_pos_iff]
        exact List.any_eq_true.mp hitems
      have hle := h.length_le
      rw [if_pos hitems] at hpicking
      refine ⟨fun hone => by omega, fun _ => ⟨hplaces, ?_⟩⟩
      omega
    · have hnone : items.countP (isPicked recent) = 0 := by
        rw [List.countP_eq_zero]
        intro i hi hpicked
        exact hitems (List.any_eq_true.mpr ⟨i, hi, hpicked⟩)
      rw [if_neg hitems, Nat.add_zero] at hpicking
      refine ⟨fun hone => ?_, fun hmany => ⟨hplaces, ?_⟩⟩
      · rw [hpicking] at hone
        rw [h.all hone, List.flatten_append, rows_append, Row.pickedAt_append]
        simp [pickedAt_eq_nil.mpr hnone]
      · rw [hpicking] at hmany
        have hfewer := (h.fewer hmany).2
        omega

/-- The row that says that there are no items is not picked. -/
theorem pickedAt_finalRows (w : Wording) (recent : List Json) (items : List Item) :
    Row.pickedAt (finalRows w recent items) = Row.pickedAt (rows recent items) := by
  unfold finalRows
  cases items with
  | nil => rfl
  | cons i items => rfl

end Item

namespace Diary

variable {made : PickList} {w : Wording} {hint : Option String} {ms : Diary} {k : Tally}

theorem firstPicks_singleton (m : Incident) : firstPicks [m] = m.picks := by
  rw [firstPicks, firstPicks]
  split
  · exact Eq.symm ‹_›
  · rfl

/-- The picks of the rows at the end of loading. -/
theorem firstPicks_closing (w : Wording) (hint : Option String) (k : Tally) :
    firstPicks ((k.closing w hint).map .called) = Row.pickedAt (Item.rows k.recent k.items) := by
  have hrows := firstPicks_singleton (.called (.setRows (Item.finalRows w k.recent k.items)))
  rw [Incident.picks, Item.pickedAt_finalRows] at hrows
  exact hrows

theorem firstPicks_append_of_nil {ns : Diary} (h : ns.firstPicks = []) :
    firstPicks (ms ++ ns) = ms.firstPicks := by
  rw [firstPicks_append, h]
  split
  · exact Eq.symm ‹_›
  · rfl

/-- The end of loading, after what sets no rows, leaves the first picks what they are. -/
theorem firstOf_closing (w : Wording) (hint : Option String) {ns : Diary}
    (h : Item.FirstOf k.recent k.batches ms.firstPicks)
    (hns : ns.firstPicks = firstPicks ((k.closing w hint).map .called)) :
    Item.FirstOf k.recent k.batches (firstPicks (ms ++ ns)) := by
  have hagain := h.again
  rw [firstPicks_append, hns, firstPicks_closing]
  exact hagain

/-- **In a true diary the first picks are those of the first batch that has any**, as long as the
recent answers stay. -/
theorem Truthful.firstOf (h : ms.Truthful made w hint) (hsteady : ms.tally.steady = true) :
    Item.FirstOf ms.tally.recent ms.tally.batches ms.firstPicks := by
  induction h with
  | nil => exact Item.firstOf_nil []
  | @next ms htrue m hm ih =>
    have hunshown : ms.tally.phase = .unshown → ms.tally.batches = [] :=
      fun hphase => (htrue.inStep.unshown hphase).1
    rw [tally_next] at hsteady ⊢
    cases m with
    | recalled answers =>
      -- the list was not shown yet, so there are no batches
      obtain ⟨hsteady, hphase⟩ := Bool.and_eq_true_iff.mp hsteady
      have hbatches := hunshown (Phase.eq_unshown hphase)
      have hnone : ms.firstPicks = [] := by
        rw [(ih hsteady).eq_nil, hbatches]
        rfl
      rw [firstPicks_append_of_nil rfl, hnone]
      show Item.FirstOf answers ms.tally.batches []
      rw [hbatches]
      exact Item.firstOf_nil answers
    | opened =>
      rw [firstPicks_append_of_nil rfl]
      exact ih hsteady
    | stocked items =>
      have hfirst := ih hsteady
      rw [hunshown hm.1] at hfirst
      have hrows := firstPicks_singleton
        (.called (.setRows (Item.finalRows w ms.tally.recent ([] ++ [items]).flatten)))
      rw [Incident.picks, Item.pickedAt_finalRows] at hrows
      have happend := hfirst.append items
      rw [← hrows] at happend
      rw [firstPicks_append]
      exact happend
    | brought items =>
      rw [firstPicks_append]
      have hrows := firstPicks_singleton (.called (.setRows
        (Item.rows ms.tally.recent (ms.tally.batches ++ [items]).flatten)))
      have happend := (ih hsteady).append items
      rw [Incident.picks] at hrows
      rw [← hrows] at happend
      exact happend
    | ended => exact firstOf_closing w hint (k := ms.tally.after .ended) (ih hsteady) rfl
    | failed f shown =>
      cases shown with
      | true =>
        exact firstOf_closing w hint (k := ms.tally.after (.failed f true)) (ih hsteady) rfl
      | false =>
        rw [firstPicks_append_of_nil rfl]
        exact ih hsteady
    | called c =>
      obtain rfl : c = .makeVisible := hm
      rw [firstPicks_append_of_nil rfl]
      exact ih hsteady
    | event e =>
      rw [firstPicks_append_of_nil rfl]
      cases e with
      | selected | changed | accept | hide | button => exact ih hsteady

end Diary

end Interview
