import Interview.Screen
import Mathlib.Data.List.Basic
import Mathlib.Data.List.Induction
/-
The story of a line of text: what its user did, what its checks answered, and which messages
were put on display, in the order of these things.

The transcript tells of the events and of the messages. It does not tell when a check answered,
because nobody but the line of text is there to see it, so the promises about checks cannot be
stated about the transcript alone. A story has the answers as well. It is read off the turns of
a screen and kept nowhere else, and without the answers it is what the transcript says
(`Screen.seen_ask`).

Three readings of a story say what a line of text has to know: the text as it is now, the text
that was judged last, and whether an acceptance came after the last change.
-/

set_option autoImplicit false

namespace Interview

open Control (Event)

/-! ## Moments -/

/-- Something that happens to a line of text. -/
inductive Moment
  /-- It starts over with a text, and with the reason for which an earlier answer was refused. -/
  | begun (text : String) (reproach : Option String)
  /-- It goes on as a copy, on a control of its own. -/
  | copied
  /-- The check of a text answered. -/
  | judged (text : String) (verdict : Except Failure (Option String))
  /-- A message was put on display, or taken away. -/
  | told (message : Option String)
  /-- The control handed out an event. -/
  | event (e : Event)

/-- The moments of a line of text, first one first. -/
abbrev Story := List Moment

namespace Moment

/-- The text after a moment. -/
def text (s : String) : Moment → String
  | begun s _ => s
  | event (.changed s) => s
  | _ => s

/-- The text that was judged last, after a moment. -/
def judgedLast (s : Option String) : Moment → Option String
  | begun _ _ => none
  | judged s (.ok _) => some s
  | _ => s

/-- Whether a moment puts an end to what was accepted before. -/
def changes : Moment → Bool
  | begun _ _ => true
  | copied => true
  | event (.changed _) => true
  | _ => false

/-- Whether a moment is an acceptance. -/
def accepts : Moment → Bool
  | event .accept => true
  | _ => false

/-- Whether an acceptance came after the last change, after a moment. -/
def accepted (b : Bool) (m : Moment) : Bool :=
  m.accepts || b && !m.changes

theorem eq_of_accepts {m : Moment} (h : m.accepts = true) : m = event .accept := by
  unfold accepts at h
  split at h
  · rfl
  · exact absurd h (by simp)

theorem text_of_changes {m : Moment} (h : m.changes = false) (s : String) : m.text s = s := by
  rcases m with _ | _ | _ | _ | e
  · exact absurd h (by simp [changes])
  · rfl
  · rfl
  · rfl
  · rcases e with _ | _ | _ | _ | _
    · exact absurd h (by simp [changes])
    · rfl
    · rfl
    · rfl
    · rfl

end Moment

namespace Story

/-! ## Readings -/

/-- The text at the end of a story: that of the last change, or the one that the line started
from. -/
def typed (ms : Story) : String :=
  ms.foldl Moment.text ""

/-- The text that was judged last, if one was since the line started. -/
def judgedLast (ms : Story) : Option String :=
  ms.foldl Moment.judgedLast none

/-- Whether an acceptance came after the last change. -/
def accepted (ms : Story) : Bool :=
  ms.foldl Moment.accepted false

variable {ms ns : Story}

@[simp] theorem typed_concat (ms : Story) (m : Moment) : typed (ms ++ [m]) = m.text ms.typed := by
  simp [typed]

@[simp] theorem judgedLast_concat (ms : Story) (m : Moment) :
    judgedLast (ms ++ [m]) = m.judgedLast ms.judgedLast := by
  simp [judgedLast]

@[simp] theorem accepted_concat (ms : Story) (m : Moment) :
    accepted (ms ++ [m]) = m.accepted ms.accepted := by
  simp [accepted]

/-- Without changes, the text stays what it was. -/
theorem typed_append (ms : Story) (h : ∀ m ∈ ns, m.changes = false) :
    typed (ms ++ ns) = ms.typed := by
  induction ns using List.reverseRecOn with
  | nil => rw [List.append_nil]
  | append_singleton ns m ih =>
      rw [← List.append_assoc, typed_concat, Moment.text_of_changes (h m (by simp))]
      exact ih fun k hk => h k (by simp [hk])

/-- Without changes, an acceptance stands. -/
theorem accepted_append (ha : ms.accepted = true) (h : ∀ m ∈ ns, m.changes = false) :
    accepted (ms ++ ns) = true := by
  induction ns using List.reverseRecOn with
  | nil => rwa [List.append_nil]
  | append_singleton ns m ih =>
      rw [← List.append_assoc, accepted_concat, ih fun k hk => h k (by simp [hk]), Moment.accepted,
        h m (by simp)]
      exact Bool.or_true _

/-- Without an acceptance, none stands. -/
theorem not_accepted_append (ha : ms.accepted = false) (h : .event .accept ∉ ns) :
    accepted (ms ++ ns) = false := by
  induction ns using List.reverseRecOn with
  | nil => rwa [List.append_nil]
  | append_singleton ns m ih =>
      have hm : m.accepts = false := by
        rw [Bool.eq_false_iff]
        intro haccepts
        exact h (Moment.eq_of_accepts haccepts ▸ by simp)
      rw [← List.append_assoc, accepted_concat, ih fun hmem => h (by simp [hmem]),
        Moment.accepted, hm]
      rfl

/-- An acceptance that stands came at some moment, and no change came later. -/
theorem exists_accept (ha : ms.accepted = true) :
    ∃ before after, ms = before ++ .event .accept :: after ∧ ∀ m ∈ after, m.changes = false := by
  induction ms using List.reverseRecOn with
  | nil => exact absurd ha (by simp [accepted])
  | append_singleton ms m ih =>
      rw [accepted_concat, Moment.accepted, Bool.or_eq_true, Bool.and_eq_true,
        Bool.not_eq_true'] at ha
      rcases ha with haccepts | ha
      · -- the last moment is the acceptance
        rw [Moment.eq_of_accepts haccepts]
        exact ⟨ms, [], rfl, fun _ hm => absurd hm List.not_mem_nil⟩
      · -- the last moment changes nothing, so the acceptance came before it
        obtain ⟨before, after, rfl, hafter⟩ := ih ha.1
        refine ⟨before, after ++ [m], by simp, fun k hk => ?_⟩
        rcases List.mem_append.mp hk with hk | hk
        · exact hafter k hk
        · exact List.mem_singleton.mp hk ▸ ha.2

/-! ## Messages -/

/-- The messages among some acts. -/
def told (acts : List Act) : Story :=
  ((Act.calls acts).filterMap fun
    | .setMessage m => some m
    | _ => none).map .told

@[simp] theorem told_nil : told [] = [] := rfl

@[simp] theorem told_append (acts more : List Act) :
    told (acts ++ more) = told acts ++ told more := by
  simp [told, Act.calls]

@[simp] theorem told_setBusy (b : Bool) (acts : List Act) :
    told (.call (.setBusy b) :: acts) = told acts := rfl

@[simp] theorem told_ofNotes (notes : List Note) : told (Act.ofNotes notes) = [] := by
  simp [told, Act.calls, Act.ofNotes, List.filterMap_map]

theorem exists_of_mem_told {acts : List Act} {m : Moment} (h : m ∈ told acts) :
    ∃ message, m = .told message := by
  obtain ⟨message, -, rfl⟩ := List.mem_map.mp h
  exact ⟨message, rfl⟩

/-! A message bears on none of the three readings. -/

@[simp] theorem typed_told (ms : Story) (acts : List Act) : typed (ms ++ told acts) = ms.typed := by
  rw [typed, List.foldl_append, told, List.foldl_map]
  exact List.foldl_fixed' (fun _ => rfl) _

@[simp] theorem judgedLast_told (ms : Story) (acts : List Act) :
    judgedLast (ms ++ told acts) = ms.judgedLast := by
  rw [judgedLast, List.foldl_append, told, List.foldl_map]
  exact List.foldl_fixed' (fun _ => rfl) _

@[simp] theorem accepted_told (ms : Story) (acts : List Act) :
    accepted (ms ++ told acts) = ms.accepted := by
  rw [accepted, List.foldl_append, told, List.foldl_map]
  exact List.foldl_fixed' (fun _ => by simp [Moment.accepted, Moment.accepts, Moment.changes]) _

end Story

/-! ## The stories of screens -/

open Story (told)

/-- The answer of the check in flight, if it is there. -/
def TextEntry.answer (t : TextEntry) : Story :=
  match t.pending with
  | none => []
  | some p => if p.delay.isOver then [.judged p.text p.verdict] else []

/-- The answer that a content finds when it looks. -/
def Content.answer : Content → Story
  | text t => t.answer
  | list _ => []

namespace Screen

/-- The moments of a turn after the look at the content: the acceptance that is due is handled, or
the next event. -/
def rest (id : Nat) (found : Look) (s : Screen) (w : Session) : Story :=
  match found with
  | .failed _ => []
  | .replay => told (s.handle .accept).1
  | .await =>
    match (w.next id).1 with
    | .event e => .event e :: told (s.handle e).1
    | _ => []

/-- The moments of one turn. -/
def turnStory (id : Nat) (s : Screen) (w : Session) : Story :=
  let (acts, content, found) := s.content.look s.wording
  s.content.answer ++ told acts ++ rest id found { s with content } (perform id acts w)

/-- The moments of a conversation. -/
def story (id : Nat) : Nat → Screen → Session → Story
  | 0, _, _ => []
  | n + 1, s, w =>
    s.turnStory id w ++
      match s.turn id w with
      | .stays s w => story id n s w
      | .ends _ _ _ => []

/-- The message that greets the user when the control is first shown. -/
def greeting (s : Screen) : Story :=
  match s.control with
  | some _ => []
  | none => told (s.content.start s.wording s.chrome).1

/-- The moments of being asked. -/
def askStory (n : Nat) (s : Screen) (w : Session) : Story :=
  if s.disposed then []
  else
    let (id, s', w) := s.appear w
    s.greeting ++ story id n s' w

/-- What a screen has gone through since its line of text was made. -/
inductive Lived (valid : Option Validator) : Screen → Story → Prop
  /-- Nothing happened to it yet. -/
  | fresh {s : Screen} {t : TextEntry} (content : s.content = .text t)
      (validator : t.validator = valid) (checked : t.checked = none) (pending : t.pending = none) :
      Lived valid s [.begun t.value t.reproach]
  /-- It was asked. -/
  | asked {s : Screen} {ms : Story} (h : Lived valid s ms) (n : Nat) (w : Session) :
      Lived valid (s.ask n w).2.1 (ms ++ s.askStory n w)
  /-- It was restored from an earlier attempt. -/
  | restored {s : Screen} {ms : Story} (h : Lived valid s ms) (a : Attempt Json) :
      Lived valid (s.restore a) (ms ++ [.begun (a.value.text?.getD ms.typed) a.error])
  /-- It was copied. -/
  | copied {s : Screen} {ms : Story} (h : Lived valid s ms) : Lived valid s.copy (ms ++ [.copied])
  /-- It was told of its place. -/
  | placed {s : Screen} {ms : Story} (h : Lived valid s ms) (current total : Nat) (w : Session) :
      Lived valid (s.place current total w).1 ms
  /-- It was disposed. -/
  | disposed {s : Screen} {ms : Story} (h : Lived valid s ms) (w : Session) :
      Lived valid (s.dispose w).1 ms

end Screen

end Interview
