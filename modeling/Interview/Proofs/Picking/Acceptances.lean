import Interview.Proofs.Picking.Selections
import Interview.Proofs.Picking.Transcripts
/-
What a list of many answers when it is accepted.

A list that its user leaves alone answers with the picks of the first batch that has any, although
it shows those of all the batches as picked. So it answers with what it shows exactly if the picks
come in one batch (`Screen.answersWithPicks_of_ask`). And the last selection of the user counts,
whatever batches come in later, except that an empty selection gives way to later picks
(`Screen.lastSelectionCounts_of_ask`). Both are said of the diary of a screen, and the calls and events
of the diary are those that the transcript has of the control.
-/

set_option autoImplicit false

namespace Interview

open Control (Event Call)

/-- What there is to know of an acceptance: unless the list says that there are no items, many items
are answered with, those that are selected. -/
theorem Tally.reply_many {k : Tally} (h : k.vacant = false) :
    k.reply true = some (.value (.list (k.dataAt k.selection))) := by
  rw [reply, h]
  rfl

theorem Tally.vacant_eq_false {k : Tally} (h : k.items ≠ []) : k.vacant = false := by
  rw [vacant, List.isEmpty_eq_false_iff.mpr h, Bool.and_false]

namespace Screen

open Diary (Untouched)

variable {made : PickList} {s : Screen} {past before after between : Diary} {ws : Session} {n : Nat}
  {places : List Nat}

/-! ## Lists that are left alone -/

/-- What is promised of a list of many that was left alone until it is accepted: what has happened
up to then, what happens afterwards, and the outcome. -/
structure AnswersWithPicks (made : PickList) (failure : Option Failure) (ms after : Diary)
    (o : Outcome (Reply Json)) : Prop where
  /-- The acceptance settles the question. -/
  settled : after = []
  /-- The batches are those of the source, up to the one that could not be loaded. -/
  supply : ∃ rest, made.source.outcomes = ms.tally.batches.map .ok ++ rest ∧
    ItemSource.Leaves rest failure
  /-- The answer consists of the data at the first picks. -/
  answer : o = .done (.value (.list (ms.tally.dataAt ms.firstPicks)))
  /-- These are the data of what is shown as picked, if no further picks came after the first. -/
  shown : ∃ rows, ms.tally.rows = some rows ∧ (ms.firstPicks = Row.pickedAt rows →
    o = .done (.value (.list (ms.tally.dataAt (Row.pickedAt rows)))))
  /-- While the recent answers stay, the rows of the picked items are shown as picked, and their data
  are the answer exactly if they came in one batch. -/
  steady : ms.tally.steady = true →
    ms.tally.rows = some (Item.rows ms.tally.recent ms.tally.items) ∧
      (o = .done (.value (.list
          ((ms.tally.items.filter (Item.isPicked ms.tally.recent)).map Item.data))) ↔
        Item.picking ms.tally.recent ms.tally.batches ≤ 1)

/-- **A list of many that is left alone answers with its first picks.** This holds for every screen
with such a list, whatever it has gone through before, for every source with all its batches and
delays, and for every user. What the diary has of calls and events is what the transcript has of the
control, if loading notes nothing about controls. -/
theorem answersWithPicks_of_ask (h : Underwent made s past) (hmany : made.many = true)
    (hown : s.askDiary n ws = before ++ .event .accept :: after)
    (huntouched : Untouched (past ++ before)) {failure : Option Failure}
    (hcomplete : (past ++ before).tally.phase = .complete failure)
    (hitems : (past ++ before).tally.items ≠ []) :
    AnswersWithPicks made failure (past ++ before) after (s.ask n ws).1 ∧
    (s.content.Quiet → (s.ask n ws).2.2.heard (s.appear ws).1 =
      ws.heard (s.appear ws).1 ++ (s.askDiary n ws).filter Incident.isHeard) := by
  refine ⟨?_, fun hquiet => heard_ask (h.lists hquiet) n ws⟩
  have htruthful := h.truthful_upto hown
  generalize hms : past ++ before = ms at *
  have hstep := htruthful.inStep
  obtain ⟨hrows, -, -⟩ := hstep.complete failure hcomplete
  obtain ⟨rest, hsupply, hleft, -⟩ := hstep.supply (by simp [hcomplete])
  have hselection := huntouched.selection
  have hfirst : ∀ p ∈ ms.firstPicks, p < ms.tally.items.length := by
    rw [← hselection]
    exact hstep.selected
  have hreply := Tally.reply_many (Tally.vacant_eq_false hitems)
  rw [hselection, ← hmany, ← hms] at hreply
  obtain ⟨hafter, ho⟩ := h.accepted hown hreply
  rw [hms] at ho
  have hfinal : Item.finalRows s.wording ms.tally.marks ms.tally.items =
      Item.rows ms.tally.marks ms.tally.items := by
    rw [Item.finalRows, if_neg (by simpa using hitems)]
  rw [hfinal] at hrows
  refine ⟨hafter, ⟨rest, hsupply, hleft failure hcomplete⟩, ho, ⟨_, hrows, fun heq => ?_⟩, ?_⟩
  · rw [ho, heq]
  · intro hsteady
    have hmarks := hstep.marks hsteady (by simp [hrows])
    have hpicks := htruthful.firstOf hsteady
    rw [hmarks] at hrows
    refine ⟨hrows, ?_⟩
    rw [ho, ← Tally.dataAt_pickedAt]
    constructor
    · -- with picks in two batches, there are more of them than are answered with
      intro heq
      by_contra hmore
      have hfewer := (hpicks.fewer (by omega)).2
      have hlength : (ms.tally.dataAt ms.firstPicks).length = (ms.tally.dataAt
          (Row.pickedAt (Item.rows ms.tally.recent ms.tally.items))).length := by
        simp only [Outcome.done.injEq, Reply.value.injEq, Json.list.injEq] at heq
        rw [heq]
      rw [Tally.length_dataAt hfirst, Tally.length_dataAt Tally.lt_of_mem_rows,
        Item.length_pickedAt] at hlength
      exact absurd hlength (Nat.ne_of_lt hfewer)
    · intro hone
      rw [hpicks.all hone]
      rfl

/-- A list of many whose items are loaded in two batches. The second one has a picked item. -/
def pickedLate : PickList :=
  .new (.lazy ⟨[], [⟨[], .none, .ok [.labelled "a"]⟩,
    ⟨[], .none, .ok [.labelled "b", { Item.labelled "c" with picked := true }]⟩], .none⟩) true

/-- The picked item is the answer, although the first batch had none. -/
theorem answersWithPicks_of_pickedLate :
    let s := Screen.new .english (.list pickedLate)
    let w := Session.new (.rehearsal [[.accept]])
    let before := (s.askDiary 1 w).dropLast
    AnswersWithPicks pickedLate none (.recalled [] :: before) [] (s.ask 1 w).1 ∧
      (s.ask 1 w).2.2.heard 0 = (s.askDiary 1 w).filter Incident.isHeard ∧
      (s.ask 1 w).1 = .done (.value (.list [.text "c"])) := by
  intro s w before
  have hfresh : Underwent pickedLate s [.recalled []] :=
    .fresh rfl (PickList.unshown_new _ _) rfl rfl
  have hown : s.askDiary 1 w = before ++ .event .accept :: [] := rfl
  have huntouched : Untouched ([.recalled []] ++ before) := by decide
  have hquiet : pickedLate.Quiet :=
    PickList.quiet_of_idle ⟨by simp, by simp [Batch.Quiet]⟩ rfl
  obtain ⟨hanswers, hheard⟩ := answersWithPicks_of_ask hfresh rfl hown huntouched rfl (by decide)
  exact ⟨hanswers, hheard hquiet, rfl⟩

/-! ## The last selection of the user -/

/-- What is promised after a selection of the user: what has happened before it, and between it and
the acceptance, what happens afterwards, and the outcome. -/
structure LastSelectionCounts (before : Diary) (places : List Nat) (between after : Diary)
    (o : Outcome (Reply Json)) : Prop where
  /-- The acceptance settles the question. -/
  settled : after = []
  /-- What is selected at any moment in between. -/
  selected : ∀ ns more, between = ns ++ more →
    (Diary.tally (before ++ .event (.selected places) :: ns)).selection =
      if places.filter (· < before.tally.items.length) = [] then ns.firstPicks
      else places.filter (· < before.tally.items.length)
  /-- The data of the selected items are the answer, exactly if one of the places had an item or no
  rows with picks were set later. -/
  answer : ∃ items : List Item,
    (places.filter (· < before.tally.items.length)).map
        ((Diary.tally (before ++ .event (.selected places) :: between)).items[·]?) =
      items.map some ∧
    (o = .done (.value (.list (items.map Item.data))) ↔
      places.filter (· < before.tally.items.length) ≠ [] ∨ between.firstPicks = [])

/-- What is selected after a selection of the user. -/
theorem selection_of_selected (hbetween : Untouched between) :
    (Diary.tally (before ++ .event (.selected places) :: between)).selection =
      if places.filter (· < before.tally.items.length) = [] then between.firstPicks
      else places.filter (· < before.tally.items.length) := by
  rw [List.append_cons, Diary.selection_append hbetween, Diary.tally_concat]
  rfl

/-- **The last selection of the user counts**, unless it is empty. This holds for every screen with a
list of many, whatever it has gone through before, for every source with all its batches and delays,
and whatever comes in between the selection and the acceptance. What the diary has of calls and events
is what the transcript has of the control, if loading notes nothing about controls. -/
theorem lastSelectionCounts_of_ask (h : Underwent made s past) (hmany : made.many = true)
    {upto : Diary} (hown : s.askDiary n ws = upto ++ .event .accept :: after)
    (hselected : past ++ upto = before ++ .event (.selected places) :: between)
    (hbetween : Untouched between) (hvacant : (past ++ upto).tally.vacant = false) :
    LastSelectionCounts before places between after (s.ask n ws).1 ∧
    (s.content.Quiet → (s.ask n ws).2.2.heard (s.appear ws).1 =
      ws.heard (s.appear ws).1 ++ (s.askDiary n ws).filter Incident.isHeard) := by
  refine ⟨?_, fun hquiet => heard_ask (h.lists hquiet) n ws⟩
  have htruthful := h.truthful_upto hown
  have hbound := htruthful.inStep.selected
  have hreply := Tally.reply_many hvacant
  rw [← hmany] at hreply
  obtain ⟨hafter, ho⟩ := h.accepted hown hreply
  rw [hselected] at hbound ho
  have hselection : (Diary.tally (before ++ .event (.selected places) :: between)).selection = _ :=
    selection_of_selected hbetween
  refine ⟨hafter, ?_, ?_⟩
  · rintro ns more rfl
    exact selection_of_selected (Diary.untouched_append.mp hbetween).1
  · generalize hk : (Diary.tally (before ++ .event (.selected places) :: between)) = k at *
    generalize places.filter (· < before.tally.items.length) = kept at *
    rw [hselection] at hbound ho
    by_cases hkept : kept = []
    · -- nothing was selected, and the picks that came later are
      rw [if_pos hkept] at hbound ho
      refine ⟨[], by rw [hkept]; rfl, ?_⟩
      rw [ho, or_iff_right (not_not_intro hkept)]
      have hlength := Tally.length_dataAt hbound
      constructor
      · intro heq
        simp only [Outcome.done.injEq, Reply.value.injEq, Json.list.injEq, List.map_nil] at heq
        rw [heq] at hlength
        exact List.length_eq_zero_iff.mp hlength.symm
      · intro hnone
        rw [hnone]
        rfl
    · rw [if_neg hkept] at hbound ho
      obtain ⟨items, hitems, hdata⟩ := Tally.exists_itemsAt hbound
      refine ⟨items, hitems, fun _ => Or.inl hkept, fun _ => ?_⟩
      rw [ho, hdata]

/-- A list of many with a second batch that takes its time, and has a picked item. -/
def pickedLater : PickList :=
  .new (.lazy ⟨[], [⟨[], .none, .ok [.labelled "a", .labelled "b"]⟩,
    ⟨[], .after 1, .ok [{ Item.labelled "c" with picked := true }]⟩], .none⟩) true

/-- The user selects an item before the second batch comes in, and accepts afterwards. -/
theorem lastSelectionCounts_of_pickedLater :
    let s := Screen.new .english (.list pickedLater)
    let w := Session.new (.rehearsal [[.selected [1, 7], .accept]])
    let before := .recalled [] :: (s.askDiary 1 w).dropLast
    let between := ((s.askDiary 2 w).drop (s.askDiary 1 w).length).dropLast
    LastSelectionCounts before [1, 7] between [] (s.ask 2 w).1 ∧
      (s.ask 2 w).2.2.heard 0 = (s.askDiary 2 w).filter Incident.isHeard ∧
      (s.ask 2 w).1 = .done (.value (.list [.text "b"])) := by
  intro s w before between
  have hfresh : Underwent pickedLater s [.recalled []] :=
    .fresh rfl (PickList.unshown_new _ _) rfl rfl
  have hown : s.askDiary 2 w = (s.askDiary 2 w).dropLast ++ .event .accept :: [] := rfl
  have hselected : [.recalled []] ++ (s.askDiary 2 w).dropLast =
      before ++ .event (.selected [1, 7]) :: between := rfl
  have hbetween : Untouched between := by decide
  have hquiet : pickedLater.Quiet :=
    PickList.quiet_of_idle ⟨by simp, by simp [Batch.Quiet]⟩ rfl
  obtain ⟨hcounts, hheard⟩ := lastSelectionCounts_of_ask hfresh rfl hown hselected hbetween rfl
  exact ⟨hcounts, hheard hquiet, rfl⟩

end Screen

end Interview
