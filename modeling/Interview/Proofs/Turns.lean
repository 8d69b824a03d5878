import Interview.Screen
/-
Turns of a screen.

A conversation is made of turns, and a turn of at most two steps: a look at the screen's own work, and
the handling of an event. What each of them can come to is said here once. A property of a screen in
its session that looks, arrivals and the handling of events keep is kept by a turn (`after_turn`).
-/

set_option autoImplicit false

namespace Interview.Screen

open Control (Event)

variable {id n : Nat} {s : Screen} {w : Session}

/-! ## Handling an event -/

/-- **The ways in which a screen handles an event.** Leaving it and clicking its buttons are its own
matter, and everything else is a matter of its content. -/
inductive Handled (s : Screen) : Event → List Act × Screen × Flow → Prop
  | hides : Handled s .hide ([], s, .settle .cancel)
  /-- There is no such button. -/
  | misses {i : Nat} (none : s.buttons[i]? = none) : Handled s (.button i) ([], s, .stay)
  | clicks {i : Nat} {b : Button} (button : s.buttons[i]? = some b) :
      Handled s (.button i) (Act.ofNotes b.notes, s,
        match b.click with
        | .error f => .fail f
        | .ok none => .stay
        | .ok (some r) => .settle r)
  | passes {e : Event} (hide : e ≠ .hide) (button : ∀ i, e ≠ .button i) :
      Handled s e ((s.content.handle e).1, { s with content := (s.content.handle e).2.1 },
        match (s.content.handle e).2.2 with
        | none => .stay
        | some r => .settle r)

theorem handled_handle (s : Screen) (e : Event) : s.Handled e (s.handle e) := by
  unfold handle
  split
  · exact .hides
  · split
    · rename_i hnone
      exact .misses hnone
    · rename_i hb
      exact .clicks hb
  · rename_i hhide hbutton
    exact .passes hhide hbutton

/-! ## Turns -/

/-- The second half of a turn: the next event is waited for, and handled. -/
def await (id : Nat) (s : Screen) (w : Session) : Turn :=
  match w.next id with
  | (.event e, w) => s.react id e w
  | (.notYet, w) => .stays s w
  | (.rowsFirst, w) => if s.content.isStuck then .ends .suspended s w else .stays s w

/-- What a conversation comes to after a turn, with so many turns left. -/
def Turn.goOn (id left : Nat) : Turn → Outcome (Reply Json) × Screen × Session
  | .stays s w => converse id left s w
  | .ends o s w => (o, s, w)

/-- A property of a screen in its session holds after a turn. -/
def Turn.After (P : Screen → Session → Prop) : Turn → Prop
  | .stays s w => P s w
  | .ends _ s w => P s w

theorem Turn.After.imp {P Q : Screen → Session → Prop} {turn : Turn} (h : turn.After P)
    (himp : ∀ s w, P s w → Q s w) : turn.After Q := by
  cases turn with
  | stays s w => exact himp s w h
  | ends o s w => exact himp s w h

/-- The screen after a look at its own work. -/
def looked (s : Screen) : Screen :=
  { s with content := (s.content.look s.wording).2.1 }

/-- The acts of a look at the screen's own work. -/
def lookActs (s : Screen) : List Act :=
  (s.content.look s.wording).1

/-- What a look at the screen's own work has found. -/
def found (s : Screen) : Look :=
  (s.content.look s.wording).2.2

/-- A turn is a look and what it leads to. -/
theorem turn_eq (id : Nat) (s : Screen) (w : Session) :
    s.turn id w =
      match s.found with
      | .failed f => .ends (.failed (.collaborator f)) s.looked (perform id s.lookActs w)
      | .replay => s.looked.react id .accept (perform id s.lookActs w)
      | .await => s.looked.await id (perform id s.lookActs w) := rfl

theorem converse_succ (id n : Nat) (s : Screen) (w : Session) :
    converse id (n + 1) s w = (s.turn id w).goOn id n := by
  rw [converse]
  cases s.turn id w with
  | stays => rfl
  | ends => rfl

/-- What holds after an event was handled holds after the turn, whether the event ends it or not. -/
theorem after_react {P : Screen → Session → Prop} {e : Event}
    (h : P (s.handle e).2.1 (perform id (s.handle e).1 w)) : (s.react id e w).After P := by
  unfold Screen.react
  simp only
  split
  · exact h
  · exact h
  · exact h

/-- What looks, arrivals and the handling of events keep is kept by a turn. -/
theorem after_turn {P : Screen → Session → Prop}
    (hlook : ∀ s w, P s w → P s.looked (perform id s.lookActs w))
    (hnext : ∀ s w, P s w → P s (w.next id).2)
    (hhandle : ∀ s w e, P s w → P (s.handle e).2.1 (perform id (s.handle e).1 w)) (h : P s w) :
    (s.turn id w).After P := by
  have hlooked := hlook s w h
  rw [turn_eq]
  rcases s.found with _ | _ | f
  · have harrived := hnext _ _ hlooked
    simp only [await]
    generalize (perform id s.lookActs w).next id = next at harrived ⊢
    obtain ⟨arrival, w'⟩ := next
    cases arrival with
    | event e => exact after_react (hhandle _ _ e harrived)
    | notYet => exact harrived
    | rowsFirst =>
      simp only
      split
      · exact harrived
      · exact harrived
  · exact after_react (hhandle _ _ .accept hlooked)
  · exact hlooked

/-! ## Screens at rest -/

/-- A look at the screen's own work finds nothing, and changes nothing. -/
def Rests (s : Screen) : Prop :=
  s.content.look s.wording = ([], s.content, .await)

theorem Rests.turn_eq (h : s.Rests) (id : Nat) (w : Session) : s.turn id w = s.await id w := by
  have hlook : s.content.look s.wording = ([], s.content, .await) := h
  rw [Screen.turn_eq, found, looked, lookActs, hlook]
  rfl

/-- Whoever has looked can look again. -/
theorem converse_looked (hfound : s.found = .await) (hrests : s.looked.Rests) (id n : Nat)
    (w : Session) :
    s.converse id (n + 1) w = s.looked.converse id (n + 1) (perform id s.lookActs w) := by
  rw [converse_succ, converse_succ, Screen.turn_eq, hfound, hrests.turn_eq]

end Interview.Screen
