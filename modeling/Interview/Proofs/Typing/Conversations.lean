import Interview.Proofs.Turns
import Interview.Proofs.Typing.Tracking
/-
Screens that show a line of text, turn by turn.

A screen adds little to its line of text: it looks, it hands on events, and it has buttons. So
what every operation of a line of text keeps is kept while a screen is asked, and while it is
copied, restored, placed and disposed (`Lived.holds`). That is shown here once for all such
invariants.

The outcomes are looked at on the way. An answer that no click gave is the current text, which
was accepted and found good, and a failure that no click caused is that of a check.
-/

set_option autoImplicit false

namespace Interview

open Control (Event)
open Story (told)

/-! ## Invariants of lines of text -/

/-- A fact about lines of text and their stories that every operation keeps. -/
structure TextEntry.Invariant (valid : Option Validator) (P : Story → TextEntry → Prop) : Prop where
  tracks : ∀ {ms t}, P ms t → t.Tracks valid ms
  fresh : ∀ {t}, t.validator = valid → t.checked = none → t.pending = none →
    P [.begun t.value t.reproach] t
  start : ∀ {ms t}, P ms t → P (ms ++ told t.start.1) t.start.2
  look : ∀ {ms t}, P ms t → P (ms ++ t.answer ++ told t.look.1) t.look.2.1
  handle : ∀ {ms t} e, P ms t → P (ms ++ .event e :: told (t.handle e).1) (t.handle e).2.1
  /-- An acceptance that has waited for the answer is handled without a further event. -/
  redeem : ∀ {ms t verdict}, P ms t → t.checked = some (t.value, verdict) →
    t.validator.isSome → P (ms ++ told (t.display verdict).1) { t with shown := verdict }
  copy : ∀ {ms t}, P ms t → P (ms ++ [.copied]) t.copy
  restore : ∀ {ms t} a, P ms t →
    P (ms ++ [.begun (a.value.text?.getD ms.typed) a.error]) (t.restore a)

/-- A line of text is up to date all the time. -/
theorem TextEntry.tracks_invariant (valid : Option Validator) :
    Invariant valid (Tracks valid) where
  tracks h := h
  fresh hv hc hp := hv ▸ tracks_fresh hc hp
  start h := h.start
  look h := h.look
  handle e h := h.handle e
  redeem h _ _ := (h.shown _).told _
  copy h := h.copy
  restore a h := h.restore a

/-! ## Outcomes -/

/-- The last thing that happened was a click. -/
def Story.EndsInClick (ms : Story) : Prop :=
  ∃ before i, ms = before ++ [.event (.button i)]

namespace Screen

variable {valid : Option Validator} {P : Story → TextEntry → Prop} {ms past own : Story}
  {s : Screen} {w : Session} {id : Nat}

/-- What an outcome is, after what happened before and while the screen was asked. -/
structure Explained (valid : Option Validator) (past own : Story) (o : Outcome (Reply Json)) :
    Prop where
  /-- An answer was given by a click, or it is the current text, accepted since its last change and
  judged to be good. -/
  value : ∀ v, o = .done (.value v) → own.EndsInClick ∨
    (v = .text (past ++ own).typed ∧ (past ++ own).accepted = true ∧
      ∀ f, valid = some f → .judged (past ++ own).typed (.ok none) ∈ past ++ own)
  /-- A failure was caused by a click, or it is that of a check. -/
  failed : ∀ e, o = .failed e → own.EndsInClick ∨
    ∃ before text f, own = before ++ [.judged text (.error f)] ∧ e = .collaborator f

theorem Explained.append {o : Outcome (Reply Json)} (h : Explained valid (past ++ ms) own o) :
    Explained valid past (ms ++ own) o where
  value v hv := by
    rw [← List.append_assoc]
    rcases h.value v hv with ⟨before, i, rfl⟩ | h
    · exact Or.inl ⟨ms ++ before, i, by rw [List.append_assoc]⟩
    · exact Or.inr h
  failed e he := by
    rcases h.failed e he with ⟨before, i, rfl⟩ | ⟨before, text, f, rfl, rfl⟩
    · exact Or.inl ⟨ms ++ before, i, by rw [List.append_assoc]⟩
    · exact Or.inr ⟨ms ++ before, text, f, by rw [List.append_assoc], rfl⟩

/-- An outcome that is neither an answer nor a failure needs no explanation. -/
theorem Explained.of_other {o : Outcome (Reply Json)} (hvalue : ∀ v, o ≠ .done (.value v))
    (hfailed : ∀ e, o ≠ .failed e) : Explained valid past own o :=
  ⟨fun v hv => absurd hv (hvalue v), fun e he => absurd he (hfailed e)⟩

/-- After a click, everything is explained. -/
theorem Explained.of_click {o : Outcome (Reply Json)} (h : own.EndsInClick) :
    Explained valid past own o :=
  ⟨fun _ _ => Or.inl h, fun _ _ => Or.inl h⟩

/-- The line of text of the screen has a property, and so has its story. -/
def Holds (P : Story → TextEntry → Prop) (ms : Story) (s : Screen) : Prop :=
  ∃ t, s.content = .text t ∧ P ms t

/-- What a turn comes to: the invariant holds, and an outcome is explained. -/
def Turn.Holds (valid : Option Validator) (P : Story → TextEntry → Prop) (past own : Story) :
    Turn → Prop
  | .stays s _ => s.Holds P (past ++ own)
  | .ends o s _ => s.Holds P (past ++ own) ∧ Explained valid past own o

theorem Turn.Holds.append {turn : Turn} (h : turn.Holds valid P (past ++ ms) own) :
    turn.Holds valid P past (ms ++ own) := by
  rcases turn with ⟨s, w⟩ | ⟨o, s, w⟩
  · rw [Turn.Holds, ← List.append_assoc]
    exact h
  · rw [Turn.Holds, ← List.append_assoc]
    exact ⟨h.1, h.2.append⟩

/-! ## Events -/

/-- The ways in which a screen with a line of text handles an event. -/
inductive Handles (t : TextEntry) (s : Screen) : Event → List Act × Screen × Flow → Prop
  | hides : Handles t s .hide ([], s, .settle .cancel)
  | clicks (i : Nat) (notes : List Note) (flow : Flow) :
      Handles t s (.button i) (Act.ofNotes notes, s, flow)
  | types (e : Event) :
      Handles t s e ((t.handle e).1, { s with content := .text (t.handle e).2.1 },
        match (t.handle e).2.2 with
        | none => .stay
        | some r => .settle r)

theorem handles_handle {t : TextEntry} (hs : s.content = .text t) (e : Event) :
    Handles t s e (s.handle e) := by
  have hhandled := s.handled_handle e
  generalize s.handle e = handled at hhandled ⊢
  cases hhandled with
  | hides => exact .hides
  | @misses i => exact .clicks i [] .stay
  | @clicks i => exact .clicks i _ _
  | passes =>
    simp only [hs, Content.handle]
    exact .types e

/-- **The turn in which an event is handled** keeps an invariant, and its outcome is explained. -/
theorem Holds.react (h : s.Holds P ms) (hP : TextEntry.Invariant valid P) (e : Event) :
    (s.react id e w).Holds valid P ms (.event e :: told (s.handle e).1) := by
  obtain ⟨t, hs, ht⟩ := h
  have hhandles := handles_handle hs e
  unfold Screen.react
  generalize s.handle e = handled at hhandles ⊢
  cases hhandles with
  | hides =>
      exact ⟨⟨t, hs, hP.handle .hide ht⟩, .of_other (by simp) (by simp)⟩
  | clicks i notes flow =>
      -- a click leaves the line of text alone, and may settle the question with anything
      have hholds : s.Holds P (ms ++ .event (.button i) :: told (Act.ofNotes notes)) := by
        rw [Story.told_ofNotes]
        exact ⟨t, hs, hP.handle (.button i) ht⟩
      have hclick : Story.EndsInClick (.event (.button i) :: told (Act.ofNotes notes)) := by
        rw [Story.told_ofNotes]
        exact ⟨[], i, rfl⟩
      rcases flow with _ | r | f
      · exact hholds
      · exact ⟨hholds, .of_click hclick⟩
      · exact ⟨hholds, .of_click hclick⟩
  | types =>
      have hnext := hP.handle e ht
      have hreply := fun r => (hP.tracks ht).reply (e := e) (r := r)
      generalize t.handle e = handled at hnext hreply ⊢
      obtain ⟨acts, t', reply⟩ := handled
      rcases reply with _ | r
      · exact ⟨t', rfl, hnext⟩
      · -- only an acceptance settles the question, and with the current text
        obtain ⟨rfl, rfl, hjudged⟩ := hreply r rfl
        refine ⟨⟨t', rfl, hnext⟩, fun v hv => Or.inr ?_, fun _ he => absurd he (by simp)⟩
        obtain rfl : Json.text ms.typed = v := by simpa using hv
        have htyped : Story.typed (ms ++ .event .accept :: told acts) = ms.typed := by
          rw [List.append_cons, Story.typed_told, Story.typed_concat]
          rfl
        rw [htyped]
        refine ⟨rfl, ?_, fun f hf => List.mem_append_left _ (hjudged f hf)⟩
        rw [List.append_cons, Story.accepted_told, Story.accepted_concat]
        rfl

/-- Accepting a text that has its verdict settles the question, or does not. -/
theorem handle_accept_known {t : TextEntry} (hs : s.content = .text t) {f : Validator}
    (hf : t.validator = some f) {verdict : Option String}
    (hchecked : t.checked = some (t.value, verdict)) :
    s.handle .accept = ((t.display verdict).1,
      { s with content := .text { t with shown := verdict } },
      if verdict.isNone then .settle (.value (.text t.value)) else .stay) := by
  simp only [Screen.handle, hs, Content.handle, t.handle_accept_known hf hchecked]
  rcases verdict with _ | message
  · rfl
  · rfl

/-- An acceptance that falls due finds a verdict, and is settled or refused without a further
event. -/
theorem redeem {t : TextEntry} (hs : s.content = .text t) (ht : P ms t)
    (hP : TextEntry.Invariant valid P) {f : Validator} (hf : valid = some f)
    {verdict : Option String} (hchecked : t.checked = some (t.value, verdict))
    (haccepted : ms.accepted = true) :
    (s.react id .accept w).Holds valid P ms (told (s.handle .accept).1) := by
  have htracks := hP.tracks ht
  have hvalidator : t.validator = some f := htracks.validator.trans hf
  have hholds : Holds P (ms ++ told (t.display verdict).1)
      { s with content := .text { t with shown := verdict } } :=
    ⟨_, rfl, hP.redeem ht hchecked (by simp [hvalidator])⟩
  unfold Screen.react
  rw [handle_accept_known hs hvalidator hchecked]
  rcases verdict with _ | message
  · refine ⟨hholds, fun v hv => Or.inr ?_, fun _ he => absurd he (by simp)⟩
    obtain rfl : Json.text t.value = v := by simpa using hv
    rw [Story.typed_told, Story.accepted_told, ← htracks.value]
    exact ⟨rfl, haccepted, fun _ _ => List.mem_append_left _ (htracks.checked _ _ hchecked)⟩
  · exact hholds

/-! ## Turns -/

/-- **One turn** keeps an invariant, and its outcome is explained. -/
theorem Holds.turn (h : s.Holds P ms) (hP : TextEntry.Invariant valid P) (id : Nat) (w : Session) :
    (s.turn id w).Holds valid P ms (s.turnStory id w) := by
  obtain ⟨t, hs, ht⟩ := h
  have hlook := hP.look ht
  have hreplay := (hP.tracks ht).look_replay
  have hfailed := fun f => t.look_failed (f := f)
  unfold Screen.turn Screen.turnStory
  simp only [hs, Content.look, Content.answer]
  generalize t.answer = answer at hlook hreplay hfailed ⊢
  generalize t.look = looked at hlook hreplay hfailed ⊢
  obtain ⟨acts, t', found⟩ := looked
  simp only at hlook hreplay hfailed ⊢
  rw [List.append_assoc] at hlook
  let s' : Screen := { s with content := .text t' }
  have hs' : s'.Holds P (ms ++ (answer ++ told acts)) := ⟨t', rfl, hlook⟩
  rcases found with _ | _ | f
  · -- nothing was due, and the next event is awaited
    simp only [rest]
    rcases (perform id acts w).next id with ⟨arrival, w'⟩
    rcases arrival with e | _ | _
    · exact (hs'.react hP e).append
    · simpa only [Turn.Holds, List.append_nil] using hs'
    · simp only [Content.isStuck, if_true, Turn.Holds, List.append_nil]
      exact ⟨hs', .of_other (by simp) (by simp)⟩
  · -- the check has answered, and the acceptance that waited for it is handled
    obtain ⟨haccepted, ⟨f, hf⟩, verdict, hchecked, rfl⟩ := hreplay rfl
    have haccepted' : Story.accepted (ms ++ ([.judged ms.typed (.ok verdict)] ++ told acts)) =
        true := by
      rw [← List.append_assoc, Story.accepted_told, Story.accepted_concat]
      simpa [Moment.accepted, Moment.accepts, Moment.changes] using haccepted
    exact (redeem rfl hlook hP hf hchecked haccepted').append
  · -- the check could not be made
    simp only [rest, List.append_nil]
    obtain ⟨text, hstory⟩ := hfailed f rfl
    exact ⟨hs', fun _ hv => absurd hv (by simp),
      fun e he => Or.inr ⟨[], text, f, hstory, (Outcome.failed.inj he).symm⟩⟩

/-! ## Being asked -/

/-- **A conversation** keeps an invariant, and its outcome is explained. -/
theorem Holds.converse (h : s.Holds P ms) (hP : TextEntry.Invariant valid P) (id n : Nat)
    (w : Session) :
    (s.converse id n w).2.1.Holds P (ms ++ s.story id n w) ∧
      Explained valid ms (s.story id n w) (s.converse id n w).1 := by
  induction n generalizing s w ms with
  | zero =>
      refine ⟨?_, .of_other (by simp [Screen.converse]) (by simp [Screen.converse])⟩
      rw [story, List.append_nil]
      exact h
  | succ n ih =>
      have hturn := h.turn hP id w
      rw [Screen.converse, story]
      rcases heq : s.turn id w with ⟨s', w'⟩ | ⟨o, s', w'⟩
      · rw [heq] at hturn
        obtain ⟨hholds, hexplained⟩ := ih hturn w'
        rw [List.append_assoc] at hholds
        exact ⟨hholds, hexplained.append⟩
      · rw [heq] at hturn
        rw [List.append_nil]
        exact hturn

/-- Appearing keeps an invariant, and greets. -/
theorem Holds.appear (h : s.Holds P ms) (hP : TextEntry.Invariant valid P) (w : Session) :
    (s.appear w).2.1.Holds P (ms ++ s.greeting) := by
  obtain ⟨t, hs, ht⟩ := h
  unfold Screen.appear greeting
  rcases hcontrol : s.control with _ | id
  · simp only [hs, Content.start]
    exact ⟨_, rfl, hP.start ht⟩
  · simp only [List.append_nil]
    exact ⟨t, hs, ht⟩

/-- **A screen that is asked** keeps an invariant, and its outcome is explained, unless it was
disposed. -/
theorem Holds.ask (h : s.Holds P ms) (hP : TextEntry.Invariant valid P) (n : Nat) (w : Session) :
    (s.ask n w).2.1.Holds P (ms ++ s.askStory n w) ∧
      (s.disposed = false → Explained valid ms (s.askStory n w) (s.ask n w).1) := by
  unfold Screen.ask askStory
  split
  · rename_i hdisposed
    rw [List.append_nil]
    exact ⟨h, fun hopen => absurd (hopen.symm.trans hdisposed) (by simp)⟩
  · simp only
    obtain ⟨hholds, hexplained⟩ := (h.appear hP w).converse hP (s.appear w).1 n (s.appear w).2.2
    rw [List.append_assoc] at hholds
    exact ⟨hholds, fun _ => hexplained.append⟩

/-- A screen that was disposed gives no answer. -/
theorem ask_ne_value (hdisposed : s.disposed = true) (n : Nat) (w : Session) (v : Json) :
    (s.ask n w).1 ≠ .done (.value v) := by
  rw [Screen.ask, if_pos hdisposed]
  simp

/-- **Whatever a screen has gone through**, the invariants of its line of text hold. -/
theorem Lived.holds (h : Lived valid s ms) (hP : TextEntry.Invariant valid P) : s.Holds P ms := by
  induction h with
  | @fresh s t hcontent hvalidator hchecked hpending =>
      exact ⟨t, hcontent, hP.fresh hvalidator hchecked hpending⟩
  | asked _ n w ih => exact (ih.ask hP n w).1
  | restored _ a ih =>
      obtain ⟨t, hs, ht⟩ := ih
      exact ⟨t.restore a, by rw [Screen.restore, hs]; rfl, hP.restore a ht⟩
  | copied _ ih =>
      obtain ⟨t, hs, ht⟩ := ih
      exact ⟨t.copy, by rw [Screen.copy, hs]; rfl, hP.copy ht⟩
  | placed _ current total w ih =>
      obtain ⟨t, hs, ht⟩ := ih
      refine ⟨t, ?_, ht⟩
      unfold Screen.place
      simp only
      split
      · exact hs
      · exact hs
  | disposed _ w ih =>
      obtain ⟨t, hs, ht⟩ := ih
      refine ⟨t, ?_, ht⟩
      unfold Screen.dispose
      split
      · exact hs
      · split
        · exact hs
        · exact hs

end Screen

end Interview
