import Interview.Proofs.Controls.Screens
/-
Readings of the transcript.

A promise about a control is stated about some of the entries of the transcript, and about these in
a form of its own. A reading says of each entry what it tells, if it tells anything. It is enough
that entries which are not about controls tell nothing: then what is read is the calls on the
control and the events that it handed out, in order, for each way in which a screen touches the
world.
-/

set_option autoImplicit false

namespace Interview

open Control (Call Event)

variable {α : Type} {f : Entry → Option α}

/-- A reading is about controls: other entries tell it nothing. -/
structure Entry.Reading (f : Entry → Option α) : Prop where
  neutral : ∀ e : Entry, e.isNeutral = true → f e = none
  /-- The making of a control tells nothing either. -/
  made : ∀ id kind chrome, f (.made id kind chrome) = none

namespace Session

variable {w : Session} {id : Nat}

/-- What the transcript tells a reading, in order. -/
def read (f : Entry → Option α) (w : Session) : List α :=
  w.transcript.filterMap f

@[simp] theorem read_emit (f : Entry → Option α) (w : Session) (es : List Entry) :
    (w.emit es).read f = w.read f ++ es.filterMap f := by
  simp [read, emit, transcript]

theorem read_call (f : Entry → Option α) (w : Session) (id : Nat) (c : Call) :
    (w.call id c).read f = w.read f ++ [Entry.called id c].filterMap f := by
  have hcall : (w.call id c).read f = (w.emit [.called id c]).read f := rfl
  rw [hcall, read_emit]

theorem read_make (hf : Entry.Reading f) (kind : Control.Kind) (chrome : Chrome) :
    (w.make kind chrome).2.read f = w.read f := by
  have hmake : (w.make kind chrome).2.read f =
      (w.emit [.made w.devices.length kind chrome]).read f := by
    unfold make
    simp only
    split
    · rfl
    · rfl
    · rfl
  rw [hmake, read_emit, List.filterMap_cons, hf.made]
  exact List.append_nil _

/-- The entry that is left when a control is waited for. -/
def Arrival.entries (id : Nat) : Arrival → List Entry
  | .event e => [.handed id e]
  | _ => []

theorem read_hand (hf : Entry.Reading f) (e : Event) (log : List LogLine) (t : Terminal) :
    (w.hand id e log t).2.read f =
      w.read f ++ ((w.hand id e log t).1.entries id).filterMap f := by
  have hlog : (log.map Entry.logged).filterMap f = [] := by
    rw [List.filterMap_map, List.filterMap_eq_nil_iff]
    intro line _
    exact hf.neutral _ rfl
  have hhand : (w.hand id e log t).2.read f =
      (w.emit (log.map Entry.logged ++ [.handed id e])).read f := rfl
  rw [hhand, read_emit, List.filterMap_append, hlog]
  rfl

theorem read_close (hf : Entry.Reading f) (t : Terminal) (asked : Terminal.Content)
    (o : Terminal.Outcome) :
    (w.close id t asked o).2.read f =
      w.read f ++ ((w.close id t asked o).1.entries id).filterMap f :=
  read_hand hf _ _ _

theorem read_listen (hf : Entry.Reading f) (t : Terminal) (asked : Terminal.Content) :
    (w.listen id t asked).2.read f =
      w.read f ++ ((w.listen id t asked).1.entries id).filterMap f := by
  unfold listen
  split
  · simp only
    split
    · exact (List.append_nil _).symm
    · exact read_close hf _ _ _
  · exact read_close hf _ _ _

theorem read_prompt (hf : Entry.Reading f) (t : Terminal) :
    (w.prompt id t).2.read f = w.read f ++ ((w.prompt id t).1.entries id).filterMap f := by
  unfold prompt
  simp only
  split
  · exact read_hand hf _ _ _
  · exact read_listen hf _ _

/-- **The next event** is read, and nothing else. -/
theorem read_next (hf : Entry.Reading f) :
    (w.next id).2.read f = w.read f ++ ((w.next id).1.entries id).filterMap f := by
  unfold next
  split
  · exact read_emit f w _
  · split
    · exact read_hand hf _ _ _
    · exact (List.append_nil _).symm
    · exact read_prompt hf _
    · exact read_listen hf _ _
  · exact read_emit f w _

end Session

/-! ## Screens -/

namespace Screen

/-- The session after a turn. -/
def Turn.session : Turn → Session
  | .stays _ w => w
  | .ends _ _ w => w

/-- **Mild acts** are read as the calls that they make. -/
theorem read_perform (hf : Entry.Reading f) {w : Session} {id : Nat} {acts : List Act}
    (h : Mild acts) :
    (perform id acts w).read f =
      w.read f ++ ((Act.calls acts).map (Entry.called id)).filterMap f := by
  induction acts generalizing w with
  | nil => exact (List.append_nil _).symm
  | cons act acts ih =>
    obtain ⟨hact, hacts⟩ := mild_cons.mp h
    cases act with
    | call c =>
      have hrest := ih (w := w.call id c) hacts
      rw [Session.read_call, List.append_assoc, ← List.filterMap_append] at hrest
      exact hrest
    | entry e =>
      -- the entry is not about a control
      have hrest := ih (w := w.emit [e]) hacts
      rw [Session.read_emit, List.filterMap_cons, hf.neutral e hact] at hrest
      rw [List.filterMap_nil, List.append_nil] at hrest
      exact hrest

/-- The turn in which an event is handled is read as the calls that this makes. -/
theorem read_react (hf : Entry.Reading f) {s : Screen} {w : Session} {id : Nat} {e : Event}
    (h : Mild (s.handle e).1) :
    (s.react id e w).session.read f =
      w.read f ++ ((Act.calls (s.handle e).1).map (Entry.called id)).filterMap f := by
  rw [← read_perform hf h]
  unfold Screen.react
  simp only
  split
  · rfl
  · rfl
  · rfl

end Screen

end Interview
