import Interview.Proofs.Controls.Attention
import Interview.Proofs.Typing.Display
/-
What the events of a script come to at a line of text.

A validator that judges at once, and every text always in the same way, leaves nothing to chance.
The check in flight, the acceptance that waits for it and the verdict that is remembered cannot be
noticed then. What the user is told and how it ends is read off the events and the verdicts alone
(`Screen.rendition`), and a conversation renders just that (`Screen.renders`).

Turns and events do not go together: the answer of a check comes with the turn after, just before
the next event. So the induction is on the events, from one state without a check in flight to the
next, and a check that has begun is followed to its answer before the next event is looked at.
-/

set_option autoImplicit false

namespace Interview

open Control (Event Call)

/-! ## Messages -/

/-- The messages without those that are on display already, where there is `shown` at first. -/
def unrepeated (shown : Option String) : List (Option String) → List (Option String)
  | [] => []
  | m :: ms => if shown = m then unrepeated m ms else m :: unrepeated m ms

theorem unrepeated_cons (shown m : Option String) (ms : List (Option String)) :
    unrepeated shown (m :: ms) = unrepeated shown [m] ++ unrepeated m ms := by
  rw [unrepeated, unrepeated]
  split
  · rfl
  · rfl

theorem unrepeated_self (m : Option String) : unrepeated m [m] = [] :=
  if_pos rfl

/-- The messages among some acts. -/
def Act.messages (acts : List Act) : List (Option String) :=
  (Act.calls acts).filterMap Call.message?

/-- The messages that a control was called with. -/
def Session.messages (id : Nat) (w : Session) : List (Option String) :=
  (w.calls id).filterMap Call.message?

theorem Session.messages_perform {w : Session} {id : Nat} {acts : List Act} (h : Mild acts) :
    (Screen.perform id acts w).messages id = w.messages id ++ Act.messages acts := by
  rw [messages, Screen.calls_perform h, List.filterMap_append]
  rfl

theorem Session.messages_next (w : Session) (id : Nat) :
    (w.next id).2.messages id = w.messages id := by
  rw [messages, Session.calls_next]
  rfl

/-! ## Validators that can be relied on -/

/-- What a validator says of a text at first. Without a validator every text is good. -/
def verdictOf (valid : Option Validator) (text : String) : Except Failure (Option String) :=
  match valid with
  | none => .ok none
  | some f => (f 0 text).verdict

/-- Every text is judged at once, and always in the same way. -/
def Steady (valid : Option Validator) : Prop :=
  ∀ f, valid = some f → ∀ before text, (f before text).delay.isOver = true ∧
    (f before text).verdict = (f 0 text).verdict

namespace TextEntry

variable {valid : Option Validator} {t : TextEntry}

theorem messages_display (t : TextEntry) (message : Option String) :
    Act.messages (t.display message).1 = unrepeated t.shown [message] := by
  unfold display unrepeated
  split
  · rfl
  · rfl

theorem messages_beginCheck (t : TextEntry) (f : Validator) :
    Act.messages (t.beginCheck f).1 = [] := by
  rw [Act.messages, beginCheck, Act.calls_append, Act.calls_ofNotes, List.append_nil]
  split
  · rfl
  · rfl

/-- No check is in flight, and what is remembered is what the validator would say. -/
structure AtRest (valid : Option Validator) (t : TextEntry) : Prop where
  validator : t.validator = valid
  pending : t.pending = none
  checked : ∀ text verdict, t.checked = some (text, verdict) → verdictOf valid text = .ok verdict

/-- The check of the current text is in flight, and its answer is there. -/
structure AtCheck (valid : Option Validator) (t : TextEntry) : Prop where
  validator : t.validator = valid
  checks : valid.isSome
  pending : ∃ delay, delay.isOver = true ∧
    t.pending = some ⟨t.value, delay, verdictOf valid t.value⟩

/-- A check of the current text has begun, and nothing was told. -/
structure Began (valid : Option Validator) (t : TextEntry) (acts : List Act) (t' : TextEntry) :
    Prop where
  check : t'.AtCheck valid
  messages : Act.messages acts = []
  value : t'.value = t.value
  eager : t'.eager = t.eager
  shown : t'.shown = t.shown
  acceptWaits : t'.acceptWaits = t.acceptWaits

/-- **Judging a text that is at rest** brings its verdict, or begins a check. -/
theorem AtRest.judge (h : t.AtRest valid) (hsteady : Steady valid) :
    (∃ verdict, verdictOf valid t.value = .ok verdict ∧
        t.judge = ((t.display verdict).1, { t with shown := verdict }, some verdict)) ∨
      ∃ acts t', t.judge = (acts, t', none) ∧ t.Began valid acts t' := by
  have hjudges := judges_judge t
  generalize t.judge = judged at hjudges ⊢
  cases hjudges with
  | unchecked hf =>
    refine Or.inl ⟨none, ?_, rfl⟩
    rw [← h.validator, hf]
    rfl
  | known hf hchecked => exact Or.inl ⟨_, h.checked _ _ hchecked, rfl⟩
  | underway hf hpending =>
    -- no check is in flight
    exact absurd (hpending.symm.trans h.pending) (by simp)
  | @begins f hf hchecked =>
    have hvalid : valid = some f := h.validator.symm.trans hf
    obtain ⟨hover, hverdict⟩ := hsteady f hvalid t.checks t.value
    have hcheck : (t.beginCheck f).2.AtCheck valid := by
      refine ⟨h.validator, by rw [hvalid]; rfl, _, hover, ?_⟩
      rw [hvalid]
      simp only [TextEntry.beginCheck, hverdict, verdictOf]
    exact Or.inr ⟨_, _, rfl, hcheck, t.messages_beginCheck f, rfl, rfl, rfl, rfl⟩

/-- The line of text with another text, for which nothing was accepted yet. -/
def typed (t : TextEntry) (text : String) : TextEntry :=
  { t with value := text, acceptWaits := false }

theorem AtRest.typed (h : t.AtRest valid) (text : String) : (t.typed text).AtRest valid :=
  ⟨h.validator, h.pending, h.checked⟩

/-- A text that is checked on every change is judged when it is typed. -/
theorem handle_changed_of_eager (h : t.eager = true) (text : String) :
    t.handle (.changed text) = ((t.typed text).judge.1, (t.typed text).judge.2.1, none) := by
  unfold handle
  exact if_pos h

/-- A text that is checked only when it is accepted clears the message when it is typed. -/
theorem handle_changed_of_idle (h : t.eager = false) (hidle : t.pending = none) (text : String) :
    t.handle (.changed text) =
      (((t.typed text).display none).1, { t.typed text with shown := none }, none) := by
  have hnoCheck : { t.typed text with pending := none } = t.typed text := by
    rw [← hidle]
    rfl
  unfold handle
  refine (if_neg (by simp [h])).trans ?_
  simp only [hidle]
  rw [← display_snd]
  exact congrArg (fun t : TextEntry => ((t.display none).1, (t.display none).2, none)) hnoCheck

/-- The check of the current text has answered, and its verdict is on display. -/
structure Answered (valid : Option Validator) (verdict : Option String) (t : TextEntry)
    (acts : List Act) (t' : TextEntry) : Prop where
  rest : t'.AtRest valid
  messages : Act.messages acts = unrepeated t.shown [verdict]
  checked : t'.checked = some (t'.value, verdict)
  value : t'.value = t.value
  eager : t'.eager = t.eager
  shown : t'.shown = verdict

theorem AtCheck.look_failed {f : Failure} (h : t.AtCheck valid)
    (hverdict : verdictOf valid t.value = .error f) :
    ∃ acts t', t.look = (acts, t', .failed f) ∧ Act.messages acts = [] := by
  obtain ⟨delay, hover, hpending⟩ := h.pending
  unfold TextEntry.look
  rw [hpending]
  simp only [hover, if_true, hverdict]
  exact ⟨_, _, rfl, rfl⟩

/-- **The answer of a check** that is looked at. -/
theorem AtCheck.look_answered {verdict : Option String} (h : t.AtCheck valid)
    (hverdict : verdictOf valid t.value = .ok verdict) :
    ∃ acts t', t.look = (acts, t', if t.acceptWaits then .replay else .await) ∧
      t.Answered valid verdict acts t' := by
  obtain ⟨delay, hover, hpending⟩ := h.pending
  unfold TextEntry.look
  rw [hpending]
  simp only [hover, if_true, hverdict, display_snd]
  refine ⟨_, _, rfl, ⟨h.validator, rfl, ?_⟩, ?_, rfl, rfl, rfl, rfl⟩
  · intro text known hknown
    obtain ⟨rfl, rfl⟩ := Prod.mk.inj (Option.some.inj hknown)
    exact hverdict
  · exact messages_display { t with pending := none, checked := some (t.value, verdict) } verdict

end TextEntry

/-! ## Renditions -/

namespace Screen

/-- What the user is told, and how it ends. -/
abbrev Rendition := List (Option String) × Outcome (Reply Json)

/-- The rendition in which one thing more is told first. -/
def Rendition.telling (message : Option String) (r : Rendition) : Rendition :=
  (message :: r.1, r.2)

/-- What a text comes to when it is typed, with what comes after it. -/
def typing (verdict : Except Failure (Option String)) (r : Rendition) : Rendition :=
  match verdict with
  | .error f => ([], .failed (.collaborator f))
  | .ok message => r.telling message

/-- What a text comes to when it is accepted, with what comes after it. -/
def accepting (verdict : Except Failure (Option String)) (text : String) (r : Rendition) :
    Rendition :=
  match verdict with
  | .error f => ([], .failed (.collaborator f))
  | .ok none => ([none], .done (.value (.text text)))
  | .ok (some message) => r.telling (some message)

/-- What the events of a script come to: a text gets its verdict when it is typed, or when it is
accepted if it is not checked on every change. -/
def rendition (buttons : List Button) (eager : Bool)
    (verdict : String → Except Failure (Option String)) (text : String) :
    List Event → Rendition
  | [] => ([], .done .cancel)
  | .hide :: _ => ([], .done .cancel)
  | .button i :: es =>
    match buttons[i]?.bind Button.decision? with
    | some o => ([], o)
    | none => rendition buttons eager verdict text es
  | .selected _ :: es => rendition buttons eager verdict text es
  | .changed s :: es =>
    if eager then typing (verdict s) (rendition buttons eager verdict s es)
    else (rendition buttons eager verdict s es).telling none
  | .accept :: es => accepting (verdict text) text (rendition buttons eager verdict text es)

variable {s s' : Screen} {w w' : Session} {id : Nat} {shown : Option String} {r : Rendition}
  {o : Outcome (Reply Json)} {valid : Option Validator} {t : TextEntry}

/-- **A conversation renders this**: with enough turns it comes to the outcome, and the control is
called with the messages, as far as they are not on display. -/
def Renders (id : Nat) (s : Screen) (w : Session) (shown : Option String) (r : Rendition) : Prop :=
  ∃ s' w', Comes (fun n => s.converse id n w) (r.2, s', w') ∧
    w'.messages id = w.messages id ++ unrepeated shown r.1

theorem renders_ends (hturn : s.turn id w = .ends r.2 s' w')
    (hmessages : w'.messages id = w.messages id ++ unrepeated shown r.1) :
    Renders id s w shown r := by
  refine ⟨s', w', (Comes.const ()).next fun n _ => ?_, hmessages⟩
  rw [converse_succ, hturn]
  rfl

theorem renders_silent (hturn : s.turn id w = .stays s' w')
    (hmessages : w'.messages id = w.messages id) (h : Renders id s' w' shown r) :
    Renders id s w shown r := by
  obtain ⟨s₁, w₁, hcomes, hrest⟩ := h
  refine ⟨s₁, w₁, hcomes.next fun n hn => ?_, hmessages ▸ hrest⟩
  rw [converse_succ, hturn]
  exact hn

theorem renders_telling {message : Option String} (hturn : s.turn id w = .stays s' w')
    (hmessages : w'.messages id = w.messages id ++ unrepeated shown [message])
    (h : Renders id s' w' message r) : Renders id s w shown (r.telling message) := by
  obtain ⟨s₁, w₁, hcomes, hrest⟩ := h
  refine ⟨s₁, w₁, hcomes.next fun n hn => ?_, ?_⟩
  · rw [converse_succ, hturn]
    exact hn
  · rw [hrest, hmessages, List.append_assoc, Rendition.telling, ← unrepeated_cons]

/-- What a look tells comes before the next event. -/
theorem renders_looked {message : Option String} (hfound : s.found = .await)
    (hrests : s.looked.Rests)
    (hmessages : (perform id s.lookActs w).messages id =
      w.messages id ++ unrepeated shown [message])
    (h : Renders id s.looked (perform id s.lookActs w) message r) :
    Renders id s w shown (r.telling message) := by
  obtain ⟨s₁, w₁, ⟨N, hN⟩, hrest⟩ := h
  refine ⟨s₁, w₁, ⟨N + 1, fun n hn => ?_⟩, ?_⟩
  · obtain ⟨m, rfl⟩ : ∃ m, n = m + 1 := ⟨n - 1, by omega⟩
    exact (converse_looked hfound hrests id m w).trans (hN (m + 1) (by omega))
  · rw [hrest, hmessages, List.append_assoc, Rendition.telling, ← unrepeated_cons]

/-! ### Screens at rest -/

/-- A screen with these buttons that shows a line of text at rest. -/
structure Reposes (valid : Option Validator) (buttons : List Button) (eager : Bool) (text : String)
    (shown : Option String) (s : Screen) : Prop where
  entry : ∃ t, s.content = .text t ∧ t.AtRest valid ∧ t.eager = eager ∧ t.value = text ∧
    t.shown = shown
  buttons : s.buttons = buttons

variable {buttons : List Button} {eager : Bool} {text : String} {es : List Event} {host : Host}

theorem Reposes.rests (h : s.Reposes valid buttons eager text shown) : s.Rests := by
  obtain ⟨t, hs, hrest, -⟩ := h.entry
  unfold Rests
  rw [hs, Content.look, TextEntry.look, hrest.pending]

/-- Its turn is the handling of the next event. -/
theorem Reposes.turn (h : s.Reposes valid buttons eager text shown) (hw : w.Plays id es host) :
    ∃ w₁, s.turn id w = s.react id (es.headD .hide) w₁ ∧ w₁.Plays id es.tail host ∧
      w₁.messages id = w.messages id := by
  obtain ⟨w₁, hnext, hplays⟩ := hw.next
  refine ⟨w₁, ?_, hplays, ?_⟩
  · rw [h.rests.turn_eq, await, hnext]
  · have hmessages := Session.messages_next w id
    rwa [hnext] at hmessages

theorem Reposes.keen (h : s.Reposes valid buttons eager text shown) (hsteady : Steady valid) :
    Keen s s := by
  obtain ⟨t, hs, hrest, -⟩ := h.entry
  refine ⟨⟨rfl, by rw [hs]; trivial⟩, ?_, rfl⟩
  rw [hs]
  refine ⟨fun f hf before text => ?_, fun p hp => absurd (hrest.pending.symm.trans hp) (by simp)⟩
  exact (hsteady f (hrest.validator.symm.trans hf) before text).1

/-- An event that decides. -/
theorem Reposes.renders_decision {e : Event} (h : s.Reposes valid buttons eager text shown)
    (hw : w.Plays id es host) (he : es.headD .hide = e) (ho : s.decision? e = some o) :
    Renders id s w shown ([], o) := by
  obtain ⟨w₁, hturn, -, hmessages⟩ := h.turn hw
  obtain ⟨notes, hreact⟩ : ∃ notes, s.react id e w₁ =
      .ends o s (perform id (Act.ofNotes notes) w₁) := react_of_decision ho
  rw [he, hreact] at hturn
  refine renders_ends hturn ?_
  rw [Session.messages_perform (mild_ofNotes notes), hmessages, Act.messages, Act.calls_ofNotes]
  rfl

/-- An event that does nothing. -/
theorem Reposes.renders_idle {e : Event} (h : s.Reposes valid buttons eager text shown)
    (hsteady : Steady valid) (hw : w.Plays id (e :: es) host) (he : s.Disregards e)
    (hrest : ∀ w' : Session, w'.Plays id es host → Renders id s w' shown r) :
    Renders id s w shown r := by
  obtain ⟨w', hturn, hplays, hcalls⟩ := (h.keen hsteady).turn_idle h.rests he hw
  exact renders_silent hturn (congrArg (List.filterMap Call.message?) hcalls) (hrest w' hplays)

/-! ### Texts that are typed and accepted -/

/-- What is typed or accepted is a matter of the line of text. -/
theorem react_of_text {e : Event} (hs : s.content = .text t) (hhide : e ≠ .hide)
    (hbutton : ∀ i, e ≠ .button i) :
    s.react id e w =
      match (t.handle e).2.2 with
      | none => .stays { s with content := .text (t.handle e).2.1 } (perform id (t.handle e).1 w)
      | some reply => .ends (.done reply) { s with content := .text (t.handle e).2.1 }
          (perform id (t.handle e).1 w) := by
  have hhandled := s.handled_handle e
  unfold Screen.react
  generalize s.handle e = handled at hhandled ⊢
  cases hhandled with
  | hides => exact absurd rfl hhide
  | misses | clicks => exact absurd rfl (hbutton _)
  | passes =>
    simp only [hs, Content.handle]
    cases (t.handle e).2.2 with
    | none => rfl
    | some reply => rfl

/-- The screen with another line of text. -/
def withEntry (s : Screen) (t : TextEntry) : Screen :=
  { s with content := .text t }

theorem look_of_text (hs : s.content = .text t) :
    s.lookActs = t.look.1 ∧ s.looked = s.withEntry t.look.2.1 ∧ s.found = t.look.2.2 := by
  unfold lookActs looked found withEntry
  rw [hs]
  exact ⟨rfl, rfl, rfl⟩

/-- The events that are left, for a screen at rest. -/
def RendersRest (id : Nat) (valid : Option Validator) (buttons : List Button) (eager : Bool)
    (text : String) (es : List Event) (host : Host) (r : Rendition) : Prop :=
  ∀ (s : Screen) (w : Session) (shown : Option String), s.Reposes valid buttons eager text shown →
    w.Plays id es host → Renders id s w shown r

/-- A check that could not be made ends the conversation. -/
theorem renders_failing {f : Failure} (hs : s.content = .text t) (hcheck : t.AtCheck valid)
    (hverdict : verdictOf valid t.value = .error f) :
    Renders id s w shown ([], .failed (.collaborator f)) := by
  obtain ⟨acts, t', hlook, hmessages⟩ := hcheck.look_failed hverdict
  obtain ⟨hacts, -, hfound⟩ := look_of_text hs
  have hmild : Mild t.look.1 := t.mild_look
  rw [hlook] at hacts hfound hmild
  have hturn : s.turn id w = .ends (.failed (.collaborator f)) s.looked (perform id acts w) := by
    rw [turn_eq, hfound, hacts]
  refine renders_ends hturn ?_
  rw [Session.messages_perform hmild, hmessages]
  rfl

/-- What a check that has answered leaves: a screen at rest that has the verdict on display. -/
theorem looked_check {verdict : Option String} (hs : s.content = .text t)
    (hbuttons : s.buttons = buttons) (hcheck : t.AtCheck valid)
    (hverdict : verdictOf valid t.value = .ok verdict) (id : Nat) (w : Session) :
    s.found = (if t.acceptWaits then .replay else .await) ∧
      s.looked.Reposes valid buttons t.eager t.value verdict ∧
      (perform id s.lookActs w).messages id = w.messages id ++ unrepeated t.shown [verdict] ∧
      ∃ acts t', s.looked.content = .text t' ∧ t.Answered valid verdict acts t' := by
  obtain ⟨acts, t', hlook, hanswered⟩ := hcheck.look_answered hverdict
  obtain ⟨hacts, hlooked, hfound⟩ := look_of_text hs
  have hmild : Mild t.look.1 := t.mild_look
  rw [hlook] at hacts hlooked hfound hmild
  have hcontent : s.looked.content = .text t' := by
    rw [hlooked]
    rfl
  refine ⟨hfound, ⟨⟨t', hcontent, hanswered.rest, hanswered.eager, hanswered.value,
    hanswered.shown⟩, hbuttons⟩, ?_, acts, t', hcontent, hanswered⟩
  rw [hacts, Session.messages_perform hmild, hanswered.messages]

/-- **A check that has begun** tells its verdict, and the screen is at rest. -/
theorem renders_check (hs : s.content = .text t) (hbuttons : s.buttons = buttons)
    (hcheck : t.AtCheck valid) (hwaits : t.acceptWaits = false) (hw : w.Plays id es host)
    (hrest : RendersRest id valid buttons t.eager t.value es host r) :
    Renders id s w t.shown (typing (verdictOf valid t.value) r) := by
  cases hverdict : verdictOf valid t.value with
  | error f => exact renders_failing hs hcheck hverdict
  | ok message =>
    obtain ⟨hfound, hreposes, hmessages, -⟩ := looked_check hs hbuttons hcheck hverdict id w
    rw [hwaits] at hfound
    exact renders_looked hfound hreposes.rests hmessages (hrest _ _ _ hreposes (hw.perform _))

/-- **Accepting a text that has its verdict** settles the question, or tells the refusal. -/
theorem renders_judged {s₀ : Screen} {w₀ : Session} {verdict : Option String}
    (hturn : s.turn id w = s₀.react id .accept w₀) (hs₀ : s₀.content = .text t)
    (hbuttons : s₀.buttons = buttons) (h : t.AtRest valid)
    (hjudge : t.judge = ((t.display verdict).1, { t with shown := verdict }, some verdict))
    (hmessages : w₀.messages id ++ unrepeated t.shown [verdict] =
      w.messages id ++ unrepeated shown [verdict])
    (hw : w₀.Plays id es host)
    (hrest : RendersRest id valid buttons t.eager t.value es host r) :
    Renders id s w shown (accepting (.ok verdict) t.value r) := by
  have htold : (perform id (t.display verdict).1 w₀).messages id =
      w.messages id ++ unrepeated shown [verdict] := by
    rw [Session.messages_perform (t.mild_display verdict), t.messages_display, hmessages]
  rw [react_of_text hs₀ (by simp) (by simp), TextEntry.handle, hjudge] at hturn
  cases verdict with
  | none => exact renders_ends hturn htold
  | some message =>
    refine renders_telling hturn htold (hrest _ _ _ ⟨⟨_, rfl, ?_, rfl, rfl, rfl⟩, hbuttons⟩
      (hw.perform _))
    exact ⟨h.validator, h.pending, h.checked⟩

/-- **An acceptance that waits for its check** falls due with the verdict. -/
theorem renders_due (hs : s.content = .text t) (hbuttons : s.buttons = buttons)
    (hcheck : t.AtCheck valid) (hwaits : t.acceptWaits = true) (hw : w.Plays id es host)
    (hrest : RendersRest id valid buttons t.eager t.value es host r) :
    Renders id s w t.shown (accepting (verdictOf valid t.value) t.value r) := by
  cases hverdict : verdictOf valid t.value with
  | error f => exact renders_failing hs hcheck hverdict
  | ok verdict =>
    obtain ⟨hfound, -, hmessages, acts, t', hs', hanswered⟩ :=
      looked_check hs hbuttons hcheck hverdict id w
    rw [hwaits] at hfound
    have hturn : s.turn id w = s.looked.react id .accept (perform id s.lookActs w) := by
      rw [turn_eq, hfound]
      rfl
    obtain ⟨f, hf⟩ := Option.isSome_iff_exists.mp hcheck.checks
    have hjudge : t'.judge =
        ((t'.display verdict).1, { t' with shown := verdict }, some verdict) := by
      unfold TextEntry.judge
      simp only [hanswered.rest.validator, hf, hanswered.checked, if_true, TextEntry.display_snd]
    rw [← hanswered.value]
    refine renders_judged hturn hs' hbuttons hanswered.rest hjudge ?_ (hw.perform _) ?_
    · -- the verdict is on display already
      rw [hanswered.shown, unrepeated_self, List.append_nil, hmessages]
    · rw [hanswered.eager, hanswered.value]
      exact hrest

/-! ### Scripts -/

/-- Typing tells the verdict of the text. -/
theorem Reposes.renders_typed {s' : String} (h : s.Reposes valid buttons true text shown)
    (hsteady : Steady valid) (hw : w.Plays id (.changed s' :: es) host)
    (hrest : RendersRest id valid buttons true s' es host r) :
    Renders id s w shown (typing (verdictOf valid s') r) := by
  obtain ⟨t, hs, ht, heager, rfl, rfl⟩ := h.entry
  obtain ⟨w₁, hturn, hw₁, hmessages⟩ := h.turn hw
  have htyped := ht.typed s'
  have hmild := (t.typed s').mild_judge
  rw [List.headD_cons, react_of_text hs (by simp) (by simp),
    TextEntry.handle_changed_of_eager heager] at hturn
  rcases htyped.judge hsteady with ⟨verdict, hverdict, hjudge⟩ | ⟨acts, t', hjudge, hbegan⟩
  · -- the verdict is remembered
    rw [hjudge] at hturn
    rw [show verdictOf valid s' = .ok verdict from hverdict]
    refine renders_telling hturn ?_ (hrest _ _ _ ⟨⟨_, rfl, ?_, heager, rfl, rfl⟩, h.buttons⟩
      (hw₁.perform _))
    · rw [Session.messages_perform (TextEntry.mild_display _ _), TextEntry.messages_display,
        hmessages]
      rfl
    · exact ⟨htyped.validator, htyped.pending, htyped.checked⟩
  · rw [hjudge] at hturn hmild
    refine renders_silent hturn ?_ ?_
    · rw [Session.messages_perform hmild, hbegan.messages, List.append_nil, hmessages]
    · have hvalue : t'.value = s' := hbegan.value
      have hshown : t'.shown = t.shown := hbegan.shown
      have heager' : t'.eager = true := hbegan.eager.trans heager
      rw [← hvalue, ← heager'] at hrest
      have hcheck := renders_check (s := s.withEntry t') rfl h.buttons hbegan.check
        hbegan.acceptWaits (hw₁.perform acts) hrest
      rw [← hvalue, ← hshown]
      exact hcheck

/-- Typing tells that there is no message any more. -/
theorem Reposes.renders_untold {s' : String} (h : s.Reposes valid buttons false text shown)
    (hw : w.Plays id (.changed s' :: es) host)
    (hrest : RendersRest id valid buttons false s' es host r) :
    Renders id s w shown (r.telling none) := by
  obtain ⟨t, hs, ht, heager, rfl, rfl⟩ := h.entry
  obtain ⟨w₁, hturn, hw₁, hmessages⟩ := h.turn hw
  have htyped := ht.typed s'
  rw [List.headD_cons, react_of_text hs (by simp) (by simp),
    TextEntry.handle_changed_of_idle heager ht.pending] at hturn
  refine renders_telling hturn ?_ (hrest _ _ _ ⟨⟨_, rfl, ?_, heager, rfl, rfl⟩, h.buttons⟩
    (hw₁.perform _))
  · rw [Session.messages_perform (TextEntry.mild_display _ _), TextEntry.messages_display,
      hmessages]
    rfl
  · exact ⟨htyped.validator, htyped.pending, htyped.checked⟩

theorem Reposes.renders_accept (h : s.Reposes valid buttons eager text shown)
    (hsteady : Steady valid) (hw : w.Plays id (.accept :: es) host)
    (hrest : RendersRest id valid buttons eager text es host r) :
    Renders id s w shown (accepting (verdictOf valid text) text r) := by
  obtain ⟨t, hs, ht, rfl, rfl, rfl⟩ := h.entry
  obtain ⟨w₁, hturn, hw₁, hmessages⟩ := h.turn hw
  rw [List.headD_cons] at hturn
  have hmild := t.mild_judge
  rcases ht.judge hsteady with ⟨verdict, hverdict, hjudge⟩ | ⟨acts, t', hjudge, hbegan⟩
  · rw [hverdict]
    exact renders_judged hturn hs h.buttons ht hjudge (by rw [hmessages]) hw₁ hrest
  · -- the acceptance waits for the check
    let waiting : TextEntry := { t' with acceptWaits := true }
    have hwaiting : waiting.AtCheck valid :=
      ⟨hbegan.check.validator, hbegan.check.checks, hbegan.check.pending⟩
    have hvalue : waiting.value = t.value := hbegan.value
    have hshown : waiting.shown = t.shown := hbegan.shown
    have heager : waiting.eager = t.eager := hbegan.eager
    rw [react_of_text hs (by simp) (by simp), TextEntry.handle, hjudge] at hturn
    rw [hjudge] at hmild
    refine renders_silent hturn ?_ ?_
    · rw [Session.messages_perform hmild, hbegan.messages, List.append_nil, hmessages]
    · rw [← hvalue, ← heager] at hrest
      have hdue := renders_due (s := s.withEntry waiting) (t := waiting) rfl h.buttons
        hwaiting rfl (hw₁.perform acts) hrest
      rw [← hvalue, ← hshown]
      exact hdue

/-- **A conversation at rest renders the events of its script.** The induction is on the events. -/
theorem renders (hsteady : Steady valid) (es : List Event) (text : String) :
    RendersRest id valid buttons eager text es host
      (rendition buttons eager (verdictOf valid) text es) := by
  induction es generalizing text with
  | nil => exact fun s w shown h hw => h.renders_decision hw rfl rfl
  | cons e es ih =>
    intro s w shown h hw
    cases e with
    | hide => exact h.renders_decision hw rfl rfl
    | selected places =>
      obtain ⟨t, hs, -⟩ := h.entry
      refine h.renders_idle hsteady hw ?_ fun w' => ih text s w' shown h
      have htext : s.content.isText = true := by
        rw [hs]
        rfl
      exact htext
    | button i =>
      -- a button decides, or else a click on it does nothing
      have hdecision : s.decision? (.button i) = buttons[i]?.bind Button.decision? := by
        rw [decision?, h.buttons]
      rw [rendition]
      cases hbutton : buttons[i]?.bind Button.decision? with
      | some o => exact h.renders_decision hw rfl (hdecision.trans hbutton)
      | none =>
        exact h.renders_idle hsteady hw (hdecision.trans hbutton) fun w' => ih text s w' shown h
    | changed s' =>
      rw [rendition]
      cases eager with
      | true => exact h.renders_typed hsteady hw (ih s')
      | false => exact h.renders_untold hw (ih s')
    | accept => exact h.renders_accept hsteady hw (ih text)

/-! ### Being asked -/

/-- What a line of text tells when it is shown for the first time. -/
def greetings (t : TextEntry) : List (Option String) :=
  t.reproach.toList.map some

theorem greets (t : TextEntry) (ms : List (Option String)) :
    unrepeated t.shown (greetings t ++ ms) =
      Act.messages t.start.1 ++ unrepeated t.start.2.shown ms := by
  unfold TextEntry.start greetings
  cases t.reproach with
  | none => rfl
  | some message =>
    rw [TextEntry.messages_display, TextEntry.display_snd]
    exact unrepeated_cons t.shown (some message) ms

/-- What is told at first leaves a line of text as it is otherwise. -/
theorem reposes_start {s : Screen} (hs : s.content = .text t.start.2)
    (hbuttons : s.buttons = buttons) (h : t.AtRest valid) :
    s.Reposes valid buttons t.eager t.value t.start.2.shown := by
  refine ⟨⟨t.start.2, hs, ?_⟩, hbuttons⟩
  unfold TextEntry.start
  cases t.reproach with
  | none => exact ⟨h, rfl, rfl, rfl⟩
  | some message =>
    rw [TextEntry.display_snd]
    exact ⟨⟨h.validator, h.pending, h.checked⟩, rfl, rfl, rfl⟩

/-- All that a line of text tells from its start on, and how it ends. -/
def account (s : Screen) (t : TextEntry) (es : List Event) : Rendition :=
  let r := rendition s.buttons t.eager (verdictOf t.validator) t.value es
  (greetings t ++ r.1, r.2)

/-- **Asking the screen tells this**: with enough turns it comes to the outcome, and its control is
called with the messages, as far as they are not taken for displayed. -/
def Tells (s : Screen) (w : Session) (shown : Option String) (r : Rendition) : Prop :=
  ∃ s' w', Comes (fun n => s.ask n w) (r.2, s', w') ∧
    w'.messages (s.appear w).1 = w.messages (s.appear w).1 ++ unrepeated shown r.1

/-- **A line of text that is at rest renders the script of its control** when it is shown for the
first time. -/
theorem tells_of_hands (hs : s.content = .text t) (hcontrol : s.control = none)
    (hopen : s.disposed = false) (hrest : t.AtRest valid) (hsteady : Steady valid)
    (hw : s.Hands w es) : s.Tells w t.shown (s.account t es) := by
  have hask : ∀ n, s.ask n w = (s.appear w).2.1.converse (s.appear w).1 n (s.appear w).2.2 := by
    intro n
    rw [ask, if_neg (by simp [hopen])]
  have hcontent : (s.appear w).2.1.content = .text t.start.2 := by
    rw [appear_of_text hs hcontrol]
  have hbuttons : (s.appear w).2.1.buttons = s.buttons := by
    rw [appear_snd]
  have hquiet : s.content.Quiet := by
    rw [hs]
    trivial
  have happear : (s.appear w).2.2.messages (s.appear w).1 =
      w.messages (s.appear w).1 ++ Act.messages t.start.1 := by
    rw [Session.messages, calls_appear hquiet, appearActs, hcontrol, hs, List.filterMap_append]
    rfl
  obtain ⟨s', w', hcomes, hmessages⟩ := renders hsteady es t.value _ _ _
    (reposes_start hcontent hbuttons hrest) hw.plays
  rw [← hrest.validator] at hcomes hmessages
  refine ⟨s', w', ?_, ?_⟩
  · simp only [hask]
    exact hcomes
  · rw [hmessages, happear, List.append_assoc, ← greets]
    rfl

end Screen

end Interview
