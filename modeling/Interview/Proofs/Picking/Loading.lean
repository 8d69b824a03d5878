import Interview.Proofs.Picking.Acceptances
/-
How a list loads.

Batches come in, events come, and loading may fail, in any order. At every moment at which no call
is due, the control shows how far loading has come (`Tally.InStep`), the list has the items of the
batches that came in and selects none but these, and the calls that are due to an incident are made
before anything else happens. What is answered by acceptance was loaded before, and an acceptance
wishes to go back only where the list says that there are no items.

All this is put together here for the screens with a list (`Screen.loadsInStep_of_ask`). It is said of
the diary of a screen, and the calls and events of the diary are those that the transcript has of the
control.
-/

set_option autoImplicit false

namespace Interview

open Control (Event Call)

/-! ## Calls that are due -/

namespace Diary

variable {made : PickList} {w : Wording} {hint : Option String} {ms before after : Diary}
  {m : Incident}

/-- Calls that are due are called due. -/
theorem isDue_of_mem_due {k : Tally} {x : Incident}
    (h : m ∈ (k.due w hint x).map Incident.called) : m.isDue = true := by
  obtain ⟨c, hc, rfl⟩ := List.mem_map.mp h
  have hne := ne_makeVisible_of_mem_due hc
  cases c with
  | makeVisible => exact absurd rfl hne
  | setRows | setValue | setMessage | setBusy | setPlaceholder | setTitle | dispose => rfl

/-- **In a true diary every incident could occur, and the calls that are due to it follow.** -/
theorem Truthful.due (h : (before ++ m :: after).Truthful made w hint) (hm : m.isDue = false) :
    m.Occurs made before.tally ∧
      ∃ more, after = ((before.tally.after m).due w hint m).map .called ++ more := by
  generalize hms : before ++ m :: after = ms at h
  induction h generalizing after with
  | nil => exact absurd hms (by simp)
  | @next ms htrue x hx ih =>
    rcases List.append_eq_append_iff.mp hms with ⟨between, rfl, hafter⟩ | ⟨own, rfl, hown⟩
    · rcases between with _ | ⟨y, between⟩
      · -- it is the last incident to which calls are due
        rw [List.nil_append, List.cons.injEq] at hafter
        obtain ⟨rfl, rfl⟩ := hafter
        rw [List.append_nil] at hx ⊢
        exact ⟨hx, [], (List.append_nil _).symm⟩
      · rw [List.cons_append, List.cons.injEq] at hafter
        obtain ⟨rfl, rfl⟩ := hafter
        obtain ⟨hoccurs, more, rfl⟩ := ih rfl
        exact ⟨hoccurs, _, List.append_assoc _ _ _⟩
    · rcases own with _ | ⟨y, own⟩
      · rw [List.nil_append, List.cons.injEq] at hown
        obtain ⟨rfl, rfl⟩ := hown
        rw [List.append_nil]
        exact ⟨hx, [], (List.append_nil _).symm⟩
      · -- then it would be one of the calls that are due
        rw [List.cons_append, List.cons.injEq] at hown
        have hmem : m ∈ ((ms.tally.after x).due w hint x).map Incident.called := by
          rw [hown.2]
          exact List.mem_append_right _ List.mem_cons_self
        rw [isDue_of_mem_due hmem] at hm
        exact absurd hm (by simp)

/-- A wish to go back comes from a list without items, unless a click brought it. -/
theorem Concludes.of_back {many : Bool} {past own : Diary} {o : Outcome (Reply Json)}
    (h : Concludes many past.tally own o) (ho : o = .done .back)
    (hown : own = before ++ [.event .accept]) : (past ++ before).tally.vacant = true := by
  cases h with
  | broken _ outcome =>
    rcases outcome with rfl | rfl
    · exact absurd ho (by simp)
    · exact absurd ho (by simp)
  | accepted _ reply =>
    obtain ⟨rfl, -⟩ := List.append_inj' hown rfl
    rw [← tally_append, Outcome.done.inj ho] at reply
    by_contra hvacant
    rw [Tally.reply, if_neg hvacant] at reply
    split at reply
    · exact absurd reply (by simp)
    · obtain ⟨i, -, hi⟩ := Option.map_eq_some_iff.mp reply
      exact absurd hi (by simp)
  | hidden | clicked =>
    obtain ⟨-, hlast⟩ := List.append_inj' hown rfl
    exact absurd hlast (by simp)
  | failed => exact absurd ho (by simp)

end Diary

/-- What an acceptance answers consists of data of items that have come in. -/
theorem Tally.data_of_reply {k : Tally} {many : Bool} {v : Json}
    (h : k.reply many = some (.value v)) :
    ∃ items : List Item, (∀ i ∈ items, i ∈ k.items) ∧
      if many then v = .list (items.map Item.data) else items.map Item.data = [v] := by
  unfold reply at h
  split at h
  · exact absurd h (by simp)
  · cases many with
    | true =>
      rw [if_pos rfl, Option.some.injEq, Reply.value.injEq] at h
      refine ⟨k.selection.filterMap fun p => k.items[p]?, ?_, ?_⟩
      · intro i hi
        obtain ⟨p, -, hp⟩ := List.mem_filterMap.mp hi
        exact List.mem_of_getElem? hp
      · rw [if_pos rfl, List.map_filterMap]
        exact h.symm
    | false =>
      rw [if_neg (by simp)] at h
      obtain ⟨i, hi, hv⟩ := Option.map_eq_some_iff.mp h
      refine ⟨[i], ?_, ?_⟩
      · intro j hj
        rw [List.mem_singleton.mp hj]
        exact List.mem_of_getElem? hi
      · rw [if_neg (by simp)]
        rw [← Reply.value.inj hv]
        rfl

namespace Screen

variable {made : PickList} {s : Screen} {past : Diary}

/-- What is promised of a screen with a list while it is asked, given what happened before, and what
happens meanwhile. -/
structure LoadsInStep (made : PickList) (w : Wording) (hint : Option String) (past own : Diary)
    (s : Screen) (o : Outcome (Reply Json)) : Prop where
  /-- While no call is due the control shows how far loading has come. -/
  inStep : ∀ before after : Diary, past ++ own = before ++ after → Diary.AtRest after →
    before.tally.InStep made w hint
  /-- The calls that are due to what happens are made before anything else does. -/
  due : ∀ (before : Diary) (m : Incident) (after : Diary), past ++ own = before ++ m :: after →
    m.isDue = false → m.Occurs made before.tally ∧
      ∃ more, after = ((before.tally.after m).due w hint m).map .called ++ more
  /-- The list has the items that came in, and selects only these. -/
  list : ∃ l, s.content = .list l ∧ l.items = (past ++ own).tally.items ∧
    l.selection = (past ++ own).tally.selection ∧ ∀ p ∈ l.selection, p < l.items.length
  /-- A failure that is not shown ends the asking. -/
  failed : ∀ before f after, own = before ++ .failed f false :: after →
    after = [.called (.setBusy false)] ∧ o = .failed (.collaborator f)
  /-- What is answered came in before, unless a click gave the answer. -/
  answer : ∀ v, o = .done (.value v) → (∃ before i, own = before ++ [.event (.button i)]) ∨
    ∃ before, own = before ++ [.event .accept] ∧
      ∃ items : List Item, (∀ i ∈ items, i ∈ (past ++ before).tally.items) ∧
        if made.many then v = .list (items.map Item.data) else items.map Item.data = [v]
  /-- An acceptance wishes to go back exactly if the list says that there are no items. -/
  back : ∀ before after, own = before ++ .event .accept :: after →
    ((after = [] ∧ o = .done .back) ↔ (past ++ before).tally.vacant = true)

/-- **A list loads in step with its control.** This holds for every screen with a list of one choice
or of many, whatever it has gone through before, for every source with all its batches, delays and
failures, and for every user. What the diary has of calls and events is what the transcript has of the
control, if loading notes nothing about controls. -/
theorem loadsInStep_of_ask (h : Underwent made s past) (n : Nat) (ws : Session) :
    LoadsInStep made s.wording s.placeholder past (s.askDiary n ws) (s.ask n ws).2.1
      (s.ask n ws).1 ∧
    (s.content.Quiet → (s.ask n ws).2.2.heard (s.appear ws).1 =
      ws.heard (s.appear ws).1 ++ (s.askDiary n ws).filter Incident.isHeard) := by
  obtain ⟨hrecorded, hconcludes⟩ := h.recorded.ask n ws
  obtain ⟨l, hs, hl⟩ := hrecorded.content
  refine ⟨⟨?_, ?_, ?_, ?_, ?_, ?_⟩, fun hquiet => heard_ask (h.lists hquiet) n ws⟩
  · intro before after hown hrest
    exact (h.truthful hown hrest).inStep
  · intro before m after hown hm
    have htruthful := hl.truthful
    rw [hown] at htruthful
    exact htruthful.due hm
  · exact ⟨l, hs, hl.agrees.items, hl.agrees.selection, hl.selected⟩
  · intro before f after hown
    exact (hconcludes (open_of_askDiary hown)).of_failed hown
  · intro v hv
    have hopen : s.disposed = false := by
      by_contra hdisposed
      rw [Screen.ask, if_pos (by simpa using hdisposed)] at hv
      exact absurd hv (by simp)
    rcases (hconcludes hopen).of_value hv with hclick | ⟨before, hown, hreply⟩
    · exact Or.inl hclick
    · exact Or.inr ⟨before, hown, Tally.data_of_reply hreply⟩
  · intro before after hown
    constructor
    · rintro ⟨rfl, hback⟩
      exact (hconcludes (open_of_askDiary hown)).of_back hback hown
    · intro hvacant
      exact h.accepted hown (by rw [Tally.reply, if_pos hvacant])

/-- A list of one choice whose second batch takes its time, and cannot be loaded then. -/
def cutShort : PickList :=
  { PickList.new (.lazy ⟨[], [⟨[], .none, .ok [.labelled "a"]⟩,
      ⟨[], .after 1, .error (.because "offline")⟩, ⟨[], .none, .ok [.labelled "b"]⟩], .none⟩) false with
    showFailures := true }

/-- The failure is shown, and what came in before is on offer. -/
theorem loadsInStep_of_cutShort :
    let s := Screen.new .english (.list cutShort)
    let w := Session.new (.rehearsal [[.selected [0, 1], .accept]])
    LoadsInStep cutShort .english none [.recalled []] (s.askDiary 2 w) (s.ask 2 w).2.1
        (s.ask 2 w).1 ∧
      (s.ask 2 w).2.2.heard 0 = (s.askDiary 2 w).filter Incident.isHeard ∧
      (s.ask 2 w).1 = .done (.value (.text "a")) ∧
      (Diary.tally (.recalled [] :: s.askDiary 2 w)).busy = [true, false] := by
  intro s w
  have hfresh : Underwent cutShort s [.recalled []] := .fresh rfl ⟨rfl, rfl, rfl⟩ rfl rfl
  have hquiet : cutShort.Quiet :=
    PickList.quiet_of_idle ⟨by simp, by simp [Batch.Quiet]⟩ rfl
  obtain ⟨hloads, hheard⟩ := loadsInStep_of_ask hfresh 2 w
  exact ⟨hloads, hheard hquiet, rfl, rfl⟩

end Screen

end Interview
