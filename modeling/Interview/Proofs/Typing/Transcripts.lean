import Interview.Proofs.Controls.Readings
import Interview.Proofs.Typing.Conversations
/-
Stories and transcripts tell the same.

A story of a screen has moments that the transcript does not have: the answers of checks, and the
beginnings and copies of the line of text. All its other moments, the events and the messages, are
in the transcript of the control on which the screen is shown, in the same order, and the
transcript has no others (`Screen.seen_ask`). So what is said of the messages and of the events
of a story is said of the calls and the events of a control.
-/

set_option autoImplicit false

namespace Interview

open Control (Event)
open Story (told)

/-- Whether a moment shows in the transcript. -/
def Moment.isSeen : Moment → Bool
  | told _ => true
  | event _ => true
  | _ => false

/-- The moment that an entry about a control tells of. -/
def Entry.moment? (id : Nat) : Entry → Option Moment
  | called i (.setMessage message) => if i = id then some (.told message) else none
  | handed i e => if i = id then some (.event e) else none
  | _ => none

/-- The moments that the transcript tells of, for one control. -/
def Session.seen (id : Nat) (w : Session) : Story :=
  w.transcript.filterMap (Entry.moment? id)

theorem Entry.reading_moment (id : Nat) : Entry.Reading (Entry.moment? id) where
  neutral e he := by
    cases e with
    | made | called | handed => exact absurd he (by simp [Entry.isNeutral])
    | noted | logged | used | reported => rfl
  made _ _ _ := rfl

/-- A control that was just made has no moments. -/
theorem Session.seen_make {w : Session} (kind : Control.Kind) (chrome : Chrome) (id : Nat) :
    (w.make kind chrome).2.seen id = w.seen id :=
  read_make (Entry.reading_moment id) kind chrome

/-- The moment that is seen when a control is waited for. -/
def Session.Arrival.story : Session.Arrival → Story
  | .event e => [.event e]
  | _ => []

/-- **The next event** is seen, and nothing else. -/
theorem Session.seen_next {id : Nat} {w : Session} :
    (w.next id).2.seen id = w.seen id ++ (w.next id).1.story := by
  have hread : (w.next id).2.seen id =
      w.seen id ++ ((w.next id).1.entries id).filterMap (Entry.moment? id) :=
    read_next (Entry.reading_moment id)
  rw [hread]
  cases (w.next id).1 with
  | event e => simp [Arrival.entries, Arrival.story, Entry.moment?]
  | notYet | rowsFirst => rfl

/-! ## Screens -/

namespace Screen

variable {valid : Option Validator} {ms : Story} {s : Screen} {w : Session} {id : Nat}

theorem seen_perform {acts : List Act} (h : Mild acts) :
    (perform id acts w).seen id = w.seen id ++ told acts := by
  have hread : (perform id acts w).seen id =
      w.seen id ++ ((Act.calls acts).map (Entry.called id)).filterMap (Entry.moment? id) :=
    read_perform (Entry.reading_moment id) h
  rw [hread, List.filterMap_map, told, List.map_filterMap]
  congr 1
  apply List.filterMap_congr
  intro c _
  cases c with
  | setMessage message => simp [Entry.moment?]
  | makeVisible | setRows | setValue | setBusy | setPlaceholder | setTitle | dispose => rfl

theorem seen_react {t : TextEntry} (hs : s.content = .text t) (e : Event) :
    (s.react id e w).session.seen id = w.seen id ++ told (s.handle e).1 := by
  have hmild : Mild (s.handle e).1 := by
    have hhandles := handles_handle hs e
    generalize s.handle e = handled at hhandles ⊢
    cases hhandles with
    | hides => exact mild_nil
    | clicks => exact mild_ofNotes _
    | types => exact t.mild_handle e
  rw [← seen_perform hmild]
  unfold Screen.react
  simp only
  split
  · rfl
  · rfl
  · rfl

theorem filter_told (acts : List Act) : (told acts).filter Moment.isSeen = told acts := by
  refine List.filter_eq_self.mpr fun m hm => ?_
  obtain ⟨message, rfl⟩ := Story.exists_of_mem_told hm
  rfl

theorem filter_answer (t : TextEntry) : t.answer.filter Moment.isSeen = [] := by
  unfold TextEntry.answer
  split
  · rfl
  · split
    · rfl
    · rfl

theorem seen_turn {t : TextEntry} (hs : s.content = .text t) :
    (s.turn id w).session.seen id =
      w.seen id ++ (s.turnStory id w).filter Moment.isSeen := by
  have hperform : (perform id t.look.1 w).seen id = w.seen id ++ told t.look.1 :=
    seen_perform t.mild_look
  unfold Screen.turn turnStory
  simp only [hs, Content.look, Content.answer, List.filter_append, filter_answer, filter_told,
    List.nil_append]
  rw [← List.append_assoc, ← hperform]
  generalize perform id t.look.1 w = w'
  rcases t.look.2.2 with _ | _ | f
  · -- the next event is awaited
    have hnext : (w'.next id).2.seen id = w'.seen id ++ (w'.next id).1.story := Session.seen_next
    simp only [rest]
    rcases hw : w'.next id with ⟨arrival, w''⟩
    rw [hw] at hnext
    rcases arrival with e | _ | _
    · show (Screen.react id e _ w'').session.seen id =
        w'.seen id ++ (.event e :: told _).filter Moment.isSeen
      rw [seen_react rfl, hnext, List.filter_cons_of_pos rfl, filter_told, List.append_assoc]
      rfl
    · exact hnext
    · exact hnext
  · -- the acceptance that waited is handled, and it was seen when it came
    simp only [rest, filter_told]
    exact seen_react rfl .accept
  · exact (List.append_nil _).symm

theorem seen_converse (h : s.Holds (TextEntry.Tracks valid) ms) (n : Nat) :
    (s.converse id n w).2.2.seen id = w.seen id ++ (s.story id n w).filter Moment.isSeen := by
  induction n generalizing s w ms with
  | zero => exact (List.append_nil _).symm
  | succ n ih =>
      have hturn := h.turn (TextEntry.tracks_invariant valid) id w
      obtain ⟨t, hs, -⟩ := h
      have hseen : (s.turn id w).session.seen id =
          w.seen id ++ (s.turnStory id w).filter Moment.isSeen := seen_turn hs
      rw [Screen.converse, story, List.filter_append, ← List.append_assoc, ← hseen]
      rcases heq : s.turn id w with ⟨s', w'⟩ | ⟨o, s', w'⟩
      · rw [heq] at hturn
        exact ih hturn
      · exact (List.append_nil _).symm

/-- **The transcript tells the story.** What a control hands out and which messages are put on
display, while the screen that it shows is asked, are the moments of the story that show. -/
theorem seen_ask (h : Lived valid s ms) (n : Nat) (w : Session) :
    (s.ask n w).2.2.seen (s.appear w).1 =
      w.seen (s.appear w).1 ++ (s.askStory n w).filter Moment.isSeen := by
  have hholds := h.holds (TextEntry.tracks_invariant valid)
  have happear := hholds.appear (TextEntry.tracks_invariant valid) w
  have hgreeting : (s.appear w).2.2.seen (s.appear w).1 =
      w.seen (s.appear w).1 ++ s.greeting.filter Moment.isSeen := by
    obtain ⟨t, hs, -⟩ := hholds
    unfold Screen.appear greeting
    rcases s.control with _ | id
    · -- making and showing the control comes before the greeting
      simp only [hs, Content.start, filter_told]
      rw [seen_perform (mild_cons.mpr ⟨rfl, t.mild_start⟩), Session.seen_make]
      rfl
    · have hvisible : Mild [.call .makeVisible] := mild_cons.mpr ⟨rfl, mild_nil⟩
      exact seen_perform hvisible
  rw [Screen.ask, askStory]
  split
  · exact (List.append_nil _).symm
  · simp only
    rw [seen_converse happear, hgreeting, List.filter_append, List.append_assoc]

end Screen

end Interview
