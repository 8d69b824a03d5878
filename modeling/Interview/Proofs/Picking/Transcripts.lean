import Interview.Proofs.Controls.Readings
import Interview.Proofs.Picking.Conversations
/-
Diaries and transcripts tell the same.

A diary has incidents that the transcript does not have: the batches, the failures to load them, and
what was recalled. All its other incidents, the calls and the events, are in the transcript of the
control on which the screen is shown, in the same order, and the transcript has no others
(`Screen.heard_ask`). So what is said of the calls and of the events of a diary is said of those of
a control. It is assumed that what is noted of the batches is not about controls.
-/

set_option autoImplicit false

namespace Interview

open Control (Event)

/-- Whether an incident shows in the transcript. -/
def Incident.isHeard : Incident → Bool
  | called _ => true
  | event _ => true
  | _ => false

/-- The incident that an entry about a control tells of. -/
def Entry.incident? (id : Nat) : Entry → Option Incident
  | called i c => if i = id then some (.called c) else none
  | handed i e => if i = id then some (.event e) else none
  | _ => none

/-- The incidents that the transcript tells of, for one control. -/
def Session.heard (id : Nat) (w : Session) : Diary :=
  w.read (Entry.incident? id)

theorem Entry.reading_incident (id : Nat) : Entry.Reading (Entry.incident? id) where
  neutral e he := by
    cases e with
    | made | called | handed => exact absurd he (by simp [Entry.isNeutral])
    | noted | logged | used | reported => rfl
  made _ _ _ := rfl

namespace Diary

theorem filter_calls (acts : List Act) : (calls acts).filter Incident.isHeard = calls acts := by
  apply List.filter_eq_self.mpr
  intro m hm
  obtain ⟨c, -, rfl⟩ := List.mem_map.mp hm
  rfl

theorem filterMap_calls (id : Nat) (acts : List Act) :
    ((Act.calls acts).map (Entry.called id)).filterMap (Entry.incident? id) = calls acts := by
  have hcall : ∀ c, Entry.incident? id (.called id c) = some (.called c) := by
    intro c
    simp [Entry.incident?]
  rw [List.filterMap_map, calls, ← List.filterMap_eq_map]
  exact List.filterMap_congr fun c _ => hcall c

end Diary

/-- The next event is heard, and nothing else. -/
theorem Session.heard_next {id : Nat} {w : Session} :
    (w.next id).2.heard id = w.heard id ++ (w.next id).1.diary := by
  have hread : (w.next id).2.heard id =
      w.heard id ++ ((w.next id).1.entries id).filterMap (Entry.incident? id) :=
    read_next (Entry.reading_incident id)
  rw [hread]
  cases (w.next id).1 with
  | event e => simp [Arrival.entries, Arrival.diary, Entry.incident?]
  | notYet | rowsFirst => rfl

/-! ## Lists -/

namespace PickList

variable {l : PickList} {w : Wording}

/-- Of what is found when the batches are looked at, the calls are heard. -/
theorem filter_intakeFrom (w : Wording) (ending : Delay) (batches : List Batch) (l : PickList) :
    (intakeFrom w ending batches l).filter Incident.isHeard =
      Diary.calls (takeIn w ending batches l).1 := by
  induction batches generalizing l with
  | nil =>
    rw [intakeFrom, PickList.takeIn]
    split
    · exact Diary.filter_calls _
    · rfl
  | cons b rest ih =>
    rw [intakeFrom, PickList.takeIn]
    split
    · rcases b.outcome with f | items
      · simp only
        split
        · rw [Diary.calls_append, Diary.calls_entries]
          exact congrArg (List.cons _) (Diary.filter_calls _)
        · rw [Diary.calls_append, Diary.calls_entries]
          rfl
      · simp only [Diary.calls_append, Diary.calls_entries, List.nil_append]
        rw [← ih, ← Diary.filter_calls (render _ w false).1, ← List.filter_append,
          Diary.filter_calls]
        rfl
    · rfl

theorem filter_intake (l : PickList) (w : Wording) :
    (l.intake w).filter Incident.isHeard = Diary.calls (l.look w).1 := by
  unfold intake PickList.look
  rcases l.loading with _ | ⟨batches, ending⟩
  · rfl
  · exact filter_intakeFrom w ending batches l

theorem filter_opening (l : PickList) (w : Wording) :
    (l.opening w).filter Incident.isHeard = Diary.calls (l.start w).1 := by
  unfold opening
  split
  · exact Diary.filter_calls _
  · exact Diary.filter_calls _

end PickList

/-! ## Screens -/

namespace Screen

variable {s : Screen} {ws : Session} {id : Nat}

theorem heard_perform {acts : List Act} (h : Mild acts) :
    (perform id acts ws).heard id = ws.heard id ++ Diary.calls acts := by
  have hread : (perform id acts ws).heard id =
      ws.heard id ++ ((Act.calls acts).map (Entry.called id)).filterMap (Entry.incident? id) :=
    read_perform (Entry.reading_incident id) h
  rw [hread, Diary.filterMap_calls]

/-- The screen has a list, and what is noted of its batches is not about controls. -/
def Lists (s : Screen) : Prop :=
  ∃ l, s.content = .list l ∧ l.Quiet

/-- What a turn comes to: the screen still has such a list, and what is heard is in the diary. -/
def Turn.Heard (id : Nat) (ws : Session) (own : Diary) : Turn → Prop
  | .stays s ws' => s.Lists ∧ ws'.heard id = ws.heard id ++ own.filter Incident.isHeard
  | .ends _ _ ws' => ws'.heard id = ws.heard id ++ own.filter Incident.isHeard

/-- The event that is handled was heard when it came, and the list makes no calls. -/
theorem Lists.react (h : s.Lists) (id : Nat) (e : Event) (ws : Session) :
    (s.react id e ws).Heard id ws [] := by
  obtain ⟨l, hs, hl⟩ := h
  obtain ⟨notes, l', hacts, hscreen, hl'⟩ := exists_handle_list hs e
  have hmild : Mild (s.handle e).1 := by
    rw [hacts]
    exact mild_ofNotes notes
  have hheard : (s.react id e ws).session.heard id = ws.heard id ++
      ((Act.calls (s.handle e).1).map (Entry.called id)).filterMap (Entry.incident? id) :=
    read_react (Entry.reading_incident id) hmild
  rw [Diary.filterMap_calls, hacts, Diary.calls_ofNotes] at hheard
  have hlists : (s.handle e).2.1.Lists := by
    rw [hscreen]
    refine ⟨l', rfl, ?_⟩
    rcases hl' with rfl | rfl
    · exact hl
    · exact hl.handle e
  unfold Screen.react at hheard ⊢
  simp only at hheard ⊢
  generalize (s.handle e).2.2 = flow at hheard ⊢
  cases flow with
  | stay => exact ⟨hlists, hheard⟩
  | settle | fail => exact hheard

theorem Turn.Heard.append {turn : Turn} {ws₁ : Session} {own rest : Diary}
    (hws : ws₁.heard id = ws.heard id ++ own.filter Incident.isHeard)
    (h : turn.Heard id ws₁ rest) : turn.Heard id ws (own ++ rest) := by
  cases turn with
  | stays s w =>
    refine ⟨h.1, ?_⟩
    rw [h.2, hws, List.filter_append, List.append_assoc]
  | ends o s w =>
    show w.heard id = _
    rw [show w.heard id = _ from h, hws, List.filter_append, List.append_assoc]

/-- **One turn** is heard as it stands in the diary. -/
theorem Lists.turn (h : s.Lists) (id : Nat) (ws : Session) :
    (s.turn id ws).Heard id ws (s.turnDiary id ws) := by
  obtain ⟨l, hs, hl⟩ := h
  obtain ⟨hmild, hquiet⟩ := hl.look s.wording
  have hlooked : s.looked.Lists := ⟨_, by rw [looked, hs]; rfl, hquiet⟩
  have hacts : s.lookActs = (l.look s.wording).1 := by rw [lookActs, hs]; rfl
  have hintake : s.content.intake s.wording = l.intake s.wording := by rw [hs]; rfl
  have hperform : (perform id s.lookActs ws).heard id =
      ws.heard id ++ (l.intake s.wording).filter Incident.isHeard := by
    rw [hacts, heard_perform hmild, PickList.filter_intake]
  rw [turn_eq, turnDiary, hintake]
  apply Turn.Heard.append hperform
  have hfound : s.found = (l.look s.wording).2.2 := by rw [found, hs]; rfl
  generalize perform id s.lookActs ws = ws'
  rcases hlook : s.found with _ | _ | f
  · -- the next event is awaited
    have hnext : (ws'.next id).2.heard id = ws'.heard id ++ (ws'.next id).1.diary :=
      Session.heard_next
    simp only [await]
    generalize ws'.next id = next at hnext ⊢
    obtain ⟨arrival, ws''⟩ := next
    cases arrival with
    | event e =>
      show (s.looked.react id e ws'').Heard id ws' ([.event e] ++ [])
      exact Turn.Heard.append hnext (hlooked.react id e ws'')
    | notYet => exact ⟨hlooked, hnext⟩
    | rowsFirst =>
      simp only
      split
      · exact hnext
      · exact ⟨hlooked, hnext⟩
  · exact absurd (hfound.symm.trans hlook) (l.look_ne_replay s.wording)
  · exact (List.append_nil _).symm

theorem Lists.converse (h : s.Lists) (id n : Nat) (ws : Session) :
    (s.converse id n ws).2.2.heard id =
      ws.heard id ++ (s.diary id n ws).filter Incident.isHeard := by
  induction n generalizing s ws with
  | zero => exact (List.append_nil _).symm
  | succ n ih =>
    have hturn := h.turn id ws
    rw [Screen.converse, diary, List.filter_append, ← List.append_assoc]
    rcases heq : s.turn id ws with ⟨s', ws'⟩ | ⟨o, s', ws'⟩
    · rw [heq] at hturn
      rw [← hturn.2]
      exact ih hturn.1 ws'
    · rw [heq] at hturn
      exact hturn.trans (List.append_nil _).symm

theorem Lists.appear (h : s.Lists) (ws : Session) :
    (s.appear ws).2.1.Lists ∧ (s.appear ws).2.2.heard (s.appear ws).1 =
      ws.heard (s.appear ws).1 ++ s.appearance.filter Incident.isHeard := by
  obtain ⟨l, hs, hl⟩ := h
  unfold Screen.appear appearance
  rcases s.control with _ | id
  · -- making and showing the control comes before what the list does
    have hshown : PickList.Quiet { l with placeholder := s.chrome.placeholder } :=
      ⟨hl.source, hl.loading⟩
    obtain ⟨hmild, hquiet⟩ := hshown.start s.wording
    have hmade : ∀ kind id, (ws.make kind s.chrome).2.heard id = ws.heard id := by
      intro kind id
      exact Session.read_make (Entry.reading_incident id) kind s.chrome
    simp only [hs, Content.start, Content.opening]
    refine ⟨⟨_, rfl, hquiet⟩, ?_⟩
    rw [heard_perform (mild_cons.mpr ⟨rfl, hmild⟩), hmade, List.filter_cons_of_pos rfl,
      PickList.filter_opening]
    rfl
  · have hvisible : Mild [.call .makeVisible] := mild_cons.mpr ⟨rfl, mild_nil⟩
    exact ⟨⟨l, hs, hl⟩, heard_perform hvisible⟩

/-- **The transcript tells what is in the diary.** What is called on a control and what it hands out,
while the screen that it shows is asked, are the incidents of the diary that show. -/
theorem heard_ask (h : s.Lists) (n : Nat) (ws : Session) :
    (s.ask n ws).2.2.heard (s.appear ws).1 =
      ws.heard (s.appear ws).1 ++ (s.askDiary n ws).filter Incident.isHeard := by
  rw [Screen.ask, askDiary]
  split
  · exact (List.append_nil _).symm
  · obtain ⟨hlists, happear⟩ := h.appear ws
    simp only
    rw [hlists.converse, happear, List.filter_append, List.append_assoc]

/-- A screen that has gone through something since its list was made has a list. -/
theorem Underwent.lists {made : PickList} {past : Diary} (h : Underwent made s past)
    (hquiet : s.content.Quiet) : s.Lists := by
  obtain ⟨l, hs, -⟩ := h.recorded.content
  rw [hs] at hquiet
  exact ⟨l, hs, hquiet⟩

end Screen

end Interview
