import Interview.Proofs.Json.RoundTrip
import Interview.Proofs.Launch.Questions
import Interview.Proofs.Typing.Renditions
/-
Event payloads that are visited again.

The payload that a user types goes a long way: it is read, stored as a value with null for none,
taken out of the draft as an answer of its type, shown in its compact form, read once more when that
is accepted, and stored again. Null, none, and a payload that is null come together at different
places on the way, so the conversions do not cancel one by one. The whole way is the identity on
what is stored (`LaunchConfig.answerOfText_payloadText`).

The conversations on the way are those of a line of text at rest, and are read off its rendition.
-/

set_option autoImplicit false

namespace Interview

open Control (Event)

/-- What a question for texts comes to, it also comes to when its texts are transformed. -/
theorem Question.comes_mapped {f : Json → Json} {inverse : Option (Json → Json)} {s s' : Screen}
    {o : Outcome (Reply Json)} {w w' : Session}
    (h : Comes (fun n => s.ask n w) (o, s', w')) :
    Comes (fun n => (Question.mapped f inverse (.screen s)).ask n w)
      (o.map (Reply.map f), .mapped f inverse (.screen s'), w') := by
  have hscreen : Comes (fun n => (Question.screen s).ask n w) (o, .screen s', w') := by
    refine h.next fun n hn => ?_
    rw [Question.ask, hn]
  refine hscreen.next fun n hn => ?_
  rw [Question.ask, hn]

namespace LaunchConfig

variable {w : Wording} {s : String} {p : Option Json} {session : Session} {screen : Screen}
  {t : TextEntry} {es : List Event}

/-! ## Texts and answers -/

/-- A text is accepted if it is a payload, or none. -/
theorem verdict_eq_iff (before : Nat) (s : String) :
    (payloadValidator before s).verdict = .ok none ↔ ∃ p, readPayload s = .ok p := by
  rw [payloadValidator, Judgement.now]
  cases readPayload s with
  | ok p => simp
  | error message => simp

theorem read?_of_readPayload {v : Json} (h : readPayload s = .ok (some v)) :
    Json.read? payloadDepth s = some v := by
  unfold readPayload at h
  split at h
  · exact absurd h (by simp)
  · split at h
    · rename_i v' hv'
      rw [hv', Option.some.inj (Except.ok.inj h)]
    · exact absurd h (by simp)

/-- An answer that is null is shown as none is, and any other one as itself. -/
theorem payloadOfAnswer_cases (v : Json) :
    payloadOfAnswer v = none ∨ payloadOfAnswer v = some v := by
  cases v with
  | null => exact Or.inl rfl
  | bool | int | float | text | list | object => exact Or.inr rfl

/-- The payload of an answer that is shown is read again, and is the payload of the answer. -/
theorem readPayload_payloadText (h : readPayload s = .ok p) (hwhole : ∀ v, p = some v → v.Whole) :
    readPayload (payloadText (payloadOfAnswer (payloadAnswer p))) =
      .ok (payloadOfAnswer (payloadAnswer p)) := by
  have hempty : readPayload (payloadText none) = .ok none := rfl
  cases p with
  | none => exact hempty
  | some v =>
    have hread := Json.read?_compact (read?_of_readPayload h) (hwhole v rfl)
    have hblank := Json.isBlankText_compact (hwhole v rfl)
    rw [payloadAnswer, Option.getD_some]
    rcases payloadOfAnswer_cases v with hnone | hsome
    · rw [hnone, hempty]
    · rw [hsome, payloadText, readPayload, if_neg (by simp [hblank]), hread]

theorem payloadAnswer_payloadOfAnswer (v : Json) : payloadAnswer (payloadOfAnswer v) = v := by
  cases v with
  | null | bool | int | float | text | list | object => rfl

/-- **The way of a payload**: the answer that is stored for a text is stored again for the text that
it is shown as, and that text is accepted. -/
theorem answerOfText_payloadText (h : readPayload s = .ok p) (hwhole : ∀ v, p = some v → v.Whole) :
    let shown := payloadText (payloadOfAnswer (answerOfText s))
    (payloadValidator 0 shown).verdict = .ok none ∧ answerOfText shown = answerOfText s := by
  have hstored : answerOfText s = payloadAnswer p := by
    rw [answerOfText, h]
  have hread := readPayload_payloadText h hwhole
  rw [hstored]
  refine ⟨(verdict_eq_iff 0 _).mpr ⟨_, hread⟩, ?_⟩
  rw [answerOfText, hread]
  exact payloadAnswer_payloadOfAnswer _

/-! ## The question -/

/-- The field of the event payload. -/
def eventField (w : Wording) : Field :=
  .asking (.ofText "event") (.shaped (.optional .anything)) (eventQuestion w)

/-- This is the field at which the form asks for the payload. -/
theorem eventField_mem (w : Wording) (taken : List String) :
    eventField w ∈ (form w taken).fields := by
  rw [fields_form]
  exact List.mem_of_getElem? (i := 8) rfl

/-- Every stored answer is one of the field's type. -/
theorem attempt?_eventField (w : Wording) (a : Attempt Json) :
    (eventField w).type.attempt? a = some a := by
  obtain ⟨v, error⟩ := a
  cases v with
  | null | bool | int | float | text | list | object => rfl

/-- The question for the payload that a screen asks for as a text. -/
def askingPayload (screen : Screen) : Question :=
  .mapped (fun v => answerOfText (v.text?.getD ""))
    (some fun v => .text (payloadText (payloadOfAnswer v))) (.screen screen)

/-- The question of the field, as a step asks it: a fresh copy, restored from the attempt, if there
is one, and placed. -/
def preparedEvent (w : Wording) (attempt : Option (Attempt Json)) (current total : Nat)
    (session : Session) : Question × Session :=
  let made := (eventQuestion w).copy session
  prepareQuestion (eventField w) attempt current total made.1 made.2

/-- The text on display when the question is asked: empty, or that of the attempt. -/
def initialText (attempt : Option (Attempt Json)) : String :=
  (attempt.map fun a => payloadText (payloadOfAnswer a.value)).getD ""

/-- The screen asks for a payload, and has not been asked yet. -/
structure AsksAnew (text : String) (screen : Screen) : Prop where
  content : ∃ t, screen.content = .text t ∧ t.AtRest (some payloadValidator) ∧ t.eager = true ∧
    t.value = text
  kind : screen.content.kind = .text text false
  control : screen.control = none
  disposed : screen.disposed = false

theorem preparedEvent_eq (w : Wording) (attempt : Option (Attempt Json)) (current total : Nat)
    (session : Session) :
    ∃ screen, preparedEvent w attempt current total session = (askingPayload screen, session) ∧
      AsksAnew (initialText attempt) screen := by
  have hnew : ∀ text reproach, TextEntry.AtRest (some payloadValidator) { TextEntry.new with
      value := text, validator := some payloadValidator, reproach } := fun text reproach =>
    ⟨rfl, rfl, fun _ _ hchecked => absurd hchecked (by simp [TextEntry.new])⟩
  cases attempt with
  | none => exact ⟨_, rfl, ⟨_, rfl, hnew "" none, rfl, rfl⟩, rfl, rfl, rfl⟩
  | some a =>
    rw [preparedEvent, prepareQuestion, Option.bind_some, attempt?_eventField]
    exact ⟨_, rfl, ⟨_, rfl, hnew _ a.error, rfl, rfl⟩, rfl, rfl, rfl⟩

theorem steady_payloadValidator : Steady (some payloadValidator) := by
  rintro f hf before text
  obtain rfl := Option.some.inj hf
  exact ⟨rfl, rfl⟩

/-! ## Storing -/

/-- With enough turns the question comes to an answer, and this is what is stored for it. -/
def Stores (w : Wording) (q : Question) (session : Session) (v : Json) : Prop :=
  ∃ answer q' session', Comes (fun n => q.ask n session) (.done (.value answer), q', session') ∧
    (eventField w).type.encode answer = .ok v

/-- A new control hands out the next script of a rehearsal. -/
theorem AsksAnew.hands {text : String} {rest : List (List Event)} (h : AsksAnew text screen)
    (hhost : session.host = .rehearsal (es :: rest)) : screen.Hands session es := by
  obtain ⟨t, hs, -⟩ := h.content
  have hmade : (session.make screen.content.kind screen.chrome).2.Plays
      (session.make screen.content.kind screen.chrome).1 es (.rehearsal rest) := by
    unfold Session.make Session.emit
    simp only [hhost]
    exact ⟨List.getElem?_concat_length, rfl⟩
  rw [Screen.Hands, Screen.appear_of_text hs h.control]
  exact (hmade.perform _).device

/-- **What a script comes to** when a payload is asked for as a text. -/
theorem AsksAnew.stores {text : String} {rest : List (List Event)} (h : AsksAnew text screen)
    (hhost : session.host = .rehearsal (es :: rest))
    (hrendition : (Screen.rendition screen.buttons true (verdictOf (some payloadValidator)) text
      es).2 = .done (.value (.text s))) :
    Stores w (askingPayload screen) session (answerOfText s) := by
  have hhands := h.hands hhost
  obtain ⟨t, hs, hrest, heager, rfl⟩ := h.content
  obtain ⟨screen', session', hcomes, -⟩ :=
    Screen.tells_of_hands hs h.control h.disposed hrest steady_payloadValidator hhands
  rw [Screen.account, hrest.validator, heager, hrendition] at hcomes
  exact ⟨answerOfText s, _, session', Question.comes_mapped hcomes, rfl⟩

/-- **A payload survives** that it is visited again. -/
structure Survives (w : Wording) (s : String) : Prop where
  /-- Typing the text and accepting it stores its answer, whether the question was restored or
  not. -/
  typed : ∀ attempt current total session es rest,
    session.host = .rehearsal ((.changed s :: .accept :: es) :: rest) →
    let prepared := preparedEvent w attempt current total session
    Stores w prepared.1 prepared.2 (answerOfText s)
  /-- The question that is restored from the answer shows a text that its validator accepts. -/
  shown : ∀ error current total session, ∃ screen text,
    preparedEvent w (some ⟨answerOfText s, error⟩) current total session =
      (askingPayload screen, session) ∧
    screen.content.kind = .text text false ∧ (payloadValidator 0 text).verdict = .ok none
  /-- Accepting that text unchanged stores the same answer. -/
  stored : ∀ error current total session es rest,
    session.host = .rehearsal ((.accept :: es) :: rest) →
    let prepared := preparedEvent w (some ⟨answerOfText s, error⟩) current total session
    Stores w prepared.1 prepared.2 (answerOfText s)

/-- **Every payload without binary64 numbers survives**, whatever text it was typed as. -/
theorem survives_of_accepted (w : Wording) (haccepted : (payloadValidator 0 s).verdict = .ok none)
    (hwhole : ∀ v, readPayload s = .ok (some v) → v.Whole) : Survives w s := by
  obtain ⟨p, hp⟩ := (verdict_eq_iff 0 s).mp haccepted
  obtain ⟨hshown, hanswer⟩ := answerOfText_payloadText hp fun v hv => hwhole v (hv ▸ hp)
  refine ⟨?_, ?_, ?_⟩
  · intro attempt current total session es rest hhost
    obtain ⟨screen, hprepared, hasks⟩ := preparedEvent_eq w attempt current total session
    simp only [hprepared]
    refine hasks.stores hhost ?_
    rw [Screen.rendition, Screen.rendition, verdictOf, haccepted]
    rfl
  · intro error current total session
    obtain ⟨screen, hprepared, hasks⟩ :=
      preparedEvent_eq w (some ⟨answerOfText s, error⟩) current total session
    exact ⟨screen, _, hprepared, hasks.kind, hshown⟩
  · intro error current total session es rest hhost
    obtain ⟨screen, hprepared, hasks⟩ :=
      preparedEvent_eq w (some ⟨answerOfText s, error⟩) current total session
    have haccepting : verdictOf (some payloadValidator)
        (initialText (some ⟨answerOfText s, error⟩)) = .ok none := hshown
    simp only [hprepared]
    rw [← hanswer]
    refine hasks.stores hhost ?_
    rw [Screen.rendition, haccepting]
    rfl

/-- A nested payload with escapes. It is shown without blanks, and with its names in order. -/
theorem survives_of_nested :
    let s := " \x7b\"b\" : [1, -2, \x7b\"c\": null\x7d], \"a\": \"x\\u0041\\n\"\x7d "
    let session := Session.new (.rehearsal [[.accept]])
    let revisited := preparedEvent .english (some ⟨answerOfText s, none⟩) 9 9 session
    (payloadValidator 0 s).verdict = .ok none ∧
      (∀ v, readPayload s = .ok (some v) → v.Whole) ∧ Survives .english s ∧
      initialText (some ⟨answerOfText s, none⟩) =
        "\x7b\"a\":\"xA\\n\",\"b\":[1,-2,\x7b\"c\":null\x7d]\x7d" ∧
      Stores .english revisited.1 revisited.2 (answerOfText s) := by
  intro s session revisited
  have haccepted : (payloadValidator 0 s).verdict = .ok none := by decide +kernel
  have hwhole : ∀ v, readPayload s = .ok (some v) → v.Whole := by
    have hread : ((readPayload s).toOption.bind id).all (fun v => decide v.Whole) = true := by
      decide +kernel
    intro v hv
    rw [hv] at hread
    exact of_decide_eq_true hread
  have hsurvives : Survives .english s := survives_of_accepted .english haccepted hwhole
  exact ⟨haccepted, hwhole, hsurvives, by decide +kernel,
    hsurvives.stored none 9 9 session [] [] rfl⟩

/-- A blank text and the text null are both stored as null, and shown as the empty text. -/
example : [" ", " null "].map (fun s => initialText (some ⟨answerOfText s, none⟩)) = ["", ""] := by
  decide +kernel

end LaunchConfig

end Interview
