import Interview.Proofs.Controls.Readings
import Interview.Proofs.Terminal.Stands
/-
The calls on a control, and the scenes at which they are looked at.

What a control shows is what it was called with, whatever it is made of: its transcript has the calls
in order, and no event that is handed out adds to them. So a promise about what a control shows is
one about its calls.

Such a promise is kept all the time, and not only between two turns. The scenes of a conversation are
the states in which a screen leaves its control to itself: after it has appeared, after each look at
its own work, and after each event that it handled. What a look, an arrival and the handling of an
event keep holds at all of them (`Screen.keeps_askScenes`).
-/

set_option autoImplicit false

namespace Interview

open Control (Event Call)

/-! ## Calls -/

/-- The call on a control that an entry tells of. -/
def Entry.call? (id : Nat) : Entry → Option Call
  | called i c => if i = id then some c else none
  | _ => none

/-- The calls on a control so far. -/
def Session.calls (id : Nat) (w : Session) : List Call :=
  w.read (Entry.call? id)

theorem Entry.reading_call (id : Nat) : Entry.Reading (Entry.call? id) where
  neutral e he := by
    cases e with
    | made | called | handed => exact absurd he (by simp [Entry.isNeutral])
    | noted | logged | used | reported => rfl
  made _ _ _ := rfl

theorem Entry.filterMap_called (id : Nat) (cs : List Call) :
    (cs.map (Entry.called id)).filterMap (Entry.call? id) = cs := by
  have hcall : (Entry.call? id ∘ Entry.called id) = some := by
    funext c
    simp [Entry.call?]
  rw [List.filterMap_map, hcall, List.filterMap_some]

namespace Session

variable {w : Session} {id : Nat}

theorem calls_make (kind : Control.Kind) (chrome : Chrome) (id : Nat) :
    (w.make kind chrome).2.calls id = w.calls id :=
  read_make (Entry.reading_call id) kind chrome

/-- An event that is handed out is no call. -/
@[simp] theorem calls_next : (w.next id).2.calls id = w.calls id := by
  have hread : (w.next id).2.calls id =
      w.calls id ++ ((w.next id).1.entries id).filterMap (Entry.call? id) :=
    read_next (Entry.reading_call id)
  rw [hread]
  cases (w.next id).1 with
  | event e => simp [Arrival.entries, Entry.call?]
  | notYet | rowsFirst => exact List.append_nil _

end Session

@[simp] theorem Act.calls_append (acts more : List Act) :
    calls (acts ++ more) = calls acts ++ calls more := by
  simp [calls]

@[simp] theorem Act.calls_ofNotes (notes : List Note) : calls (ofNotes notes) = [] := by
  simp [calls, ofNotes, List.filterMap_map]

namespace Screen

variable {s : Screen} {w : Session} {id : Nat}

/-- **Mild acts** call their control as they say. -/
theorem calls_perform {acts : List Act} (h : Mild acts) :
    (perform id acts w).calls id = w.calls id ++ Act.calls acts := by
  have hread : (perform id acts w).calls id =
      w.calls id ++ ((Act.calls acts).map (Entry.called id)).filterMap (Entry.call? id) :=
    read_perform (Entry.reading_call id) h
  rw [hread, Entry.filterMap_called]

/-! ## Appearing -/

/-- What a screen does to its control to appear on it. -/
def appearActs (s : Screen) : List Act :=
  match s.control with
  | some _ => [.call .makeVisible]
  | none => .call .makeVisible :: (s.content.start s.wording s.chrome).1

/-- The content of a screen that has appeared. -/
def appearContent (s : Screen) : Content :=
  match s.control with
  | some _ => s.content
  | none => (s.content.start s.wording s.chrome).2

theorem appear_snd (s : Screen) (w : Session) :
    (s.appear w).2.1 = { s with control := some (s.appear w).1, content := s.appearContent } := by
  unfold appear appearContent
  cases hcontrol : s.control with
  | none => rfl
  | some id =>
    simp only
    rw [← hcontrol]

theorem quiet_appear (h : s.content.Quiet) : Mild s.appearActs ∧ s.appearContent.Quiet := by
  have hvisible : Act.isMild (.call .makeVisible) = true := rfl
  obtain ⟨hmild, hquiet⟩ := h.start s.wording s.chrome
  unfold appearActs appearContent
  split
  · exact ⟨mild_cons.mpr ⟨hvisible, mild_nil⟩, h⟩
  · exact ⟨mild_cons.mpr ⟨hvisible, hmild⟩, hquiet⟩

/-- **Appearing** is read as the calls that it makes. -/
theorem read_appear {α : Type} {f : Entry → Option α} (hf : Entry.Reading f)
    (h : s.content.Quiet) (w : Session) :
    (s.appear w).2.2.read f = w.read f ++
      ((Act.calls s.appearActs).map (Entry.called (s.appear w).1)).filterMap f := by
  have hmild := (quiet_appear h).1
  unfold appearActs at hmild ⊢
  unfold appear
  cases hcontrol : s.control with
  | none =>
    rw [hcontrol] at hmild
    simp only
    rw [read_perform hf hmild, Session.read_make hf]
  | some id =>
    rw [hcontrol] at hmild
    exact read_perform hf hmild

theorem calls_appear (h : s.content.Quiet) (w : Session) :
    (s.appear w).2.2.calls (s.appear w).1 = w.calls (s.appear w).1 ++ Act.calls s.appearActs := by
  have hread : (s.appear w).2.2.calls (s.appear w).1 = w.calls (s.appear w).1 ++
      ((Act.calls s.appearActs).map (Entry.called (s.appear w).1)).filterMap
        (Entry.call? (s.appear w).1) := read_appear (Entry.reading_call _) h w
  rw [hread, Entry.filterMap_called]

/-! ## Scenes -/

/-- A screen in its session. -/
structure Scene where
  screen : Screen
  session : Session

/-- What a turn leaves. -/
def Turn.scene : Turn → Scene
  | .stays s w => ⟨s, w⟩
  | .ends _ s w => ⟨s, w⟩

/-- The scenes of a conversation: after each look at the screen's own work, and after the turn. -/
def scenes (id : Nat) : Nat → Screen → Session → List Scene
  | 0, _, _ => []
  | n + 1, s, w =>
    ⟨s.looked, perform id s.lookActs w⟩ :: (s.turn id w).scene ::
      match s.turn id w with
      | .stays s w => scenes id n s w
      | .ends _ _ _ => []

/-- The scenes of a screen that is asked, from its appearing on. -/
def askScenes (n : Nat) (s : Screen) (w : Session) : List Scene :=
  if s.disposed then []
  else
    let (id, s, w) := s.appear w
    ⟨s, w⟩ :: scenes id n s w

/-- **What looks, arrivals and the handling of events keep holds at every scene.** -/
theorem keeps_scenes {P : Screen → Session → Prop}
    (hlook : ∀ s w, P s w → P s.looked (perform id s.lookActs w))
    (hnext : ∀ s w, P s w → P s (w.next id).2)
    (hhandle : ∀ s w e, P s w → P (s.handle e).2.1 (perform id (s.handle e).1 w)) (h : P s w)
    (n : Nat) : ∀ p ∈ scenes id n s w, P p.screen p.session := by
  induction n generalizing s w with
  | zero => exact fun p hp => absurd hp List.not_mem_nil
  | succ n ih =>
    have hturn := after_turn hlook hnext hhandle h
    rw [scenes, List.forall_mem_cons]
    refine ⟨hlook s w h, ?_⟩
    cases heq : s.turn id w with
    | stays s' w' =>
      rw [heq] at hturn
      exact List.forall_mem_cons.mpr ⟨hturn, ih hturn⟩
    | ends o s' w' =>
      rw [heq] at hturn
      exact List.forall_mem_singleton.mpr hturn

/-- The same of a screen that is asked, from its appearing on. -/
theorem keeps_askScenes {P : Screen → Session → Prop}
    (hlook : ∀ s' w', P s' w' → P s'.looked (perform (s.appear w).1 s'.lookActs w'))
    (hnext : ∀ s' w', P s' w' → P s' (w'.next (s.appear w).1).2)
    (hhandle : ∀ s' w' e, P s' w' →
      P (s'.handle e).2.1 (perform (s.appear w).1 (s'.handle e).1 w'))
    (happear : P (s.appear w).2.1 (s.appear w).2.2) (n : Nat) :
    ∀ p ∈ s.askScenes n w, P p.screen p.session := by
  unfold askScenes
  split
  · exact fun p hp => absurd hp List.not_mem_nil
  · exact List.forall_mem_cons.mpr ⟨happear, keeps_scenes hlook hnext hhandle happear n⟩

/-- Events do not part a screen from its control. -/
theorem control_handle (s : Screen) (e : Event) : (s.handle e).2.1.control = s.control := by
  have hhandled := s.handled_handle e
  generalize s.handle e = handled at hhandled ⊢
  cases hhandled with
  | hides | misses | clicks | passes => rfl

/-- A screen that is asked keeps the control on which it has appeared. -/
theorem control_ask (hopen : s.disposed = false) (n : Nat) (w : Session) :
    (s.ask n w).2.1.control = some (s.appear w).1 := by
  let P : Screen → Session → Prop := fun s' _ => s'.control = some (s.appear w).1
  have happear : P (s.appear w).2.1 (s.appear w).2.2 := by
    unfold P appear
    split
    · rename_i hcontrol
      exact hcontrol
    · rfl
  have hturn : ∀ s' w', P s' w' → (s'.turn (s.appear w).1 w').After P :=
    fun _ _ => after_turn (fun _ _ h => h) (fun _ _ h => h) fun s' _ e h => (s'.control_handle e).trans h
  exact (keeps_ask (fun _ _ h => h) hturn hopen happear).1

end Screen

end Interview
