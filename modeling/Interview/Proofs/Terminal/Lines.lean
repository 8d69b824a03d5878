import Interview.Proofs.Terminal.Stands
import Interview.Proofs.Typing.Transcripts
/-
Lines of text and the controls that show them.

A control on a terminal has a text and a message of its own. The message changes by what the line of
text asks for, the text by what is typed, so the two halves are looked at apart: what acts put on a
control, and what a reply of the user stands for. A reply is a click, or it is a change and its
acceptance, and these are handed out one after the other.
-/

set_option autoImplicit false

namespace Interview

open Control (Event)

/-! ## What acts do to a control -/

/-- The acts put nothing but messages and busyness on a control, and if it shows one message before,
it shows the other one after them. -/
def Act.Displays (before after : Option String) (acts : List Act) : Prop :=
  ∀ c : Terminal, ∃ busy message, c.obey acts = { c with busy, message } ∧
    (c.message = before → message = after)

namespace Act

variable {before between after : Option String} {acts more : List Act}

theorem displays_nil (message : Option String) : Displays message message [] :=
  fun c => ⟨c.busy, c.message, rfl, id⟩

theorem displays_ofNotes (message : Option String) (notes : List Note) :
    Displays message message (ofNotes notes) := by
  intro c
  refine ⟨c.busy, c.message, ?_, id⟩
  rw [Terminal.obey_ofNotes]

theorem displays_busy (message : Option String) (b : Bool) :
    Displays message message [.call (.setBusy b)] :=
  fun c => ⟨b, c.message, rfl, id⟩

theorem Displays.append (h : Displays before between acts) (h' : Displays between after more) :
    Displays before after (acts ++ more) := by
  intro c
  obtain ⟨busy, message, hacts, hmessage⟩ := h c
  obtain ⟨busy', message', hmore, hmessage'⟩ := h' { c with busy, message }
  refine ⟨busy', message', ?_, fun hc => hmessage' (hmessage hc)⟩
  rw [Terminal.obey_append, hacts, hmore]

end Act

namespace TextEntry

open Act (Displays)

variable {t : TextEntry}

theorem displays_display (t : TextEntry) (message : Option String) :
    Displays t.shown message (t.display message).1 := by
  unfold display
  split
  · rename_i hshown
    exact hshown ▸ Act.displays_nil _
  · exact fun c => ⟨c.busy, message, rfl, fun _ => rfl⟩

theorem displays_start (t : TextEntry) : Displays t.shown t.start.2.shown t.start.1 := by
  unfold start
  split
  · rw [display_snd]
    exact displays_display { t with reproach := none } _
  · exact Act.displays_nil _

theorem displays_judge (t : TextEntry) : Displays t.shown t.judge.2.1.shown t.judge.1 := by
  have hjudges := judges_judge t
  generalize t.judge = judged at hjudges ⊢
  cases hjudges with
  | unchecked => exact displays_display _ _
  | known => exact displays_display _ _
  | underway => exact Act.displays_nil _
  | begins =>
      unfold beginCheck
      refine Displays.append ?_ (Act.displays_ofNotes _ _)
      split
      · exact Act.displays_busy _ _
      · exact Act.displays_nil _

theorem displays_look (t : TextEntry) : Displays t.shown t.look.2.1.shown t.look.1 := by
  have hlooks := looks_look t
  generalize t.answer = answer at hlooks
  generalize t.look = found at hlooks ⊢
  cases hlooks with
  | idle => exact Act.displays_nil _
  | silent => exact Act.displays_nil _
  | fails => exact Act.displays_busy _ _
  | @answers p verdict =>
      exact (Act.displays_busy t.shown false).append
        (displays_display { t with pending := none, checked := some (p.text, verdict) } verdict)

theorem displays_handle (t : TextEntry) (e : Event) :
    Displays t.shown (t.handle e).2.1.shown (t.handle e).1 := by
  unfold handle
  split
  · simp only
    split
    · exact displays_judge { t with value := _, acceptWaits := false }
    · rw [display_snd]
      refine Displays.append ?_ (displays_display _ _)
      split
      · exact Act.displays_busy _ _
      · exact Act.displays_nil _
  · rw [← TextEntry.handle]
    obtain ⟨hacts, b, hnext⟩ := t.handle_accept
    rw [hacts, hnext]
    exact displays_judge t
  · exact Act.displays_nil _

/-! The text changes with the user's changes only. -/

theorem value_judge (t : TextEntry) :
    t.judge.2.1.value = t.value ∧ t.judge.2.1.password = t.password := by
  have hjudges := judges_judge t
  generalize t.judge = judged at hjudges ⊢
  cases hjudges with
  | unchecked => exact ⟨rfl, rfl⟩
  | known => exact ⟨rfl, rfl⟩
  | underway => exact ⟨rfl, rfl⟩
  | begins => exact ⟨rfl, rfl⟩

theorem value_look (t : TextEntry) :
    t.look.2.1.value = t.value ∧ t.look.2.1.password = t.password := by
  have hlooks := looks_look t
  generalize t.answer = answer at hlooks
  generalize t.look = found at hlooks ⊢
  cases hlooks with
  | idle => exact ⟨rfl, rfl⟩
  | silent => exact ⟨rfl, rfl⟩
  | fails => exact ⟨rfl, rfl⟩
  | answers => exact ⟨rfl, rfl⟩

theorem value_start (t : TextEntry) :
    t.start.2.value = t.value ∧ t.start.2.password = t.password := by
  unfold start
  split
  · rw [display_snd]
    exact ⟨rfl, rfl⟩
  · exact ⟨rfl, rfl⟩

theorem value_handle (t : TextEntry) (e : Event) :
    (t.handle e).2.1.value = (Moment.event e).text t.value ∧
      (t.handle e).2.1.password = t.password := by
  cases e with
  | changed text =>
      simp only [handle]
      split
      · exact value_judge { t with value := text, acceptWaits := false }
      · rw [display_snd]
        exact ⟨rfl, rfl⟩
  | accept =>
      obtain ⟨-, b, hnext⟩ := t.handle_accept
      rw [hnext]
      exact value_judge t
  | selected | hide | button => exact ⟨rfl, rfl⟩

/-- An acceptance would be about this text: no check but of this text would begin, and no answer but
this text would be given. -/
structure WouldAccept (t : TextEntry) (text : String) : Prop where
  checks : ∀ v, t.validator = some v → (t.handle .accept).2.1.pending = t.pending ∨
    (t.handle .accept).2.1.pending =
      some ⟨text, (v t.checks text).delay, (v t.checks text).verdict⟩
  answers : ∀ r, (t.handle .accept).2.2 = some r → r = .value (.text text)

theorem wouldAccept_value (t : TextEntry) : t.WouldAccept t.value := by
  have hjudges := judges_judge t
  constructor
  · -- a check begins only if the text has no verdict yet and is not being checked
    intro v hv
    obtain ⟨-, b, hnext⟩ := t.handle_accept
    rw [hnext]
    generalize t.judge = judged at hjudges ⊢
    cases hjudges with
    | unchecked => exact Or.inl rfl
    | known => exact Or.inl rfl
    | underway => exact Or.inl rfl
    | begins hf =>
        obtain rfl := Option.some.inj (hf.symm.trans hv)
        exact Or.inr rfl
  · -- an answer is given only on a verdict, and a refusal is no answer
    intro r hr
    simp only [handle] at hr
    generalize t.judge = judged at hjudges hr
    cases hjudges with
    | unchecked => exact (Option.some.inj hr).symm
    | @known f verdict =>
        rcases verdict with _ | message
        · exact (Option.some.inj hr).symm
        · exact absurd hr (by simp)
    | underway => exact absurd hr (by simp)
    | begins => exact absurd hr (by simp)

end TextEntry

/-! ## Replies -/

namespace Terminal

variable {c : Terminal} {value : String} {password : Bool}

/-- The text that a move leaves in a line of text, if it ends with Enter. -/
def reply? : Content → Move → Option String
  | .text value password, m =>
    if m.enters then some (if password then secretAfter m else textAfter value m) else none
  | .list _ _, _ => none

/-- What is heard at a line of text is its reply, or the user leaves or takes time. -/
theorem heard_text (buttons : List ButtonFace) (value : String) (password : Bool)
    (m : Option Move) :
    (∃ r, m.bind (reply? (.text value password)) = some r ∧
        heard buttons (.text value password) m = some (.ok (textReply r buttons))) ∨
      (m.bind (reply? (.text value password)) = none ∧
        (heard buttons (.text value password) m = some (.error .cancelled) ∨
          heard buttons (.text value password) m = none)) := by
  rcases m with _ | m
  · exact Or.inr ⟨rfl, Or.inl rfl⟩
  · -- Enter makes a reply of whatever was typed; every other move is no reply
    by_cases henters : m.enters = true
    · refine Or.inl ⟨if password then secretAfter m else textAfter value m, ?_, ?_⟩
      · simp [reply?, henters]
      · rw [heard, outcome?_of_enters henters]
        rcases password with _ | _
        · rfl
        · rfl
    · have hnone : reply? (.text value password) m = none := by simp [reply?, henters]
      refine Or.inr ⟨hnone, ?_⟩
      cases m with
      | pause => exact Or.inr rfl
      | leave => exact Or.inl rfl
      | interrupt => exact Or.inl rfl
      | typed | secret | down | toggle => exact absurd rfl henters

/-- A reply to a line of text is a click, or a change that is accepted. -/
theorem textReply_cases (r : String) (buttons : List ButtonFace) :
    (∃ i, textReply r buttons = [.button i]) ∨ textReply r buttons = [.changed r, .accept] := by
  unfold textReply
  split
  · exact Or.inl ⟨_, rfl⟩
  · exact Or.inr rfl

end Terminal

/-- The events of a story, without those that tell that the control is gone. -/
def Story.handed (ms : Story) : List Event :=
  ms.filterMap fun
    | .event .hide => none
    | .event e => some e
    | _ => none

namespace Story

@[simp] theorem handed_append (ms ns : Story) : handed (ms ++ ns) = handed ms ++ handed ns := by
  simp [handed]

@[simp] theorem handed_told (acts : List Act) : handed (told acts) = [] := by
  rw [handed, List.filterMap_eq_nil_iff]
  intro m hm
  obtain ⟨message, rfl⟩ := exists_of_mem_told hm
  rfl

@[simp] theorem handed_answer (t : TextEntry) : handed t.answer = [] := by
  unfold TextEntry.answer
  split
  · rfl
  · split
    · rfl
    · rfl

/-- Events are seen. -/
theorem handed_filter (ms : Story) : handed (ms.filter Moment.isSeen) = handed ms := by
  rw [handed, handed, List.filterMap_filter]
  refine List.filterMap_congr fun m _ => ?_
  cases m with
  | begun | copied | judged => rfl
  | told | event => rfl

end Story

/-- The events of a control that were not handed out yet. -/
def Session.queue (id : Nat) (w : Session) : List Event :=
  match w.devices[id]? with
  | some (.shown c) => c.queued
  | _ => []

/-- The events that a control has handed out, without those that tell that it is gone. -/
def Session.handed (id : Nat) (w : Session) : List Event :=
  (w.seen id).handed

theorem Session.Shows.queue_eq {w : Session} {id : Nat} {c : Terminal} (h : w.Shows id c) :
    w.queue id = c.queued := by
  have hdevice : w.devices[id]? = some (.shown c) := h
  rw [Session.queue, hdevice]

namespace Stand

variable {id : Nat} {c : Terminal} {p : Stand}

/-- The text with which the user replies at a stand, if the user does. -/
def reply? (id : Nat) (p : Stand) : Option String :=
  match p.session.devices[id]? with
  | some (.shown c) =>
    match c.turn with
    | .asks => p.session.move?.bind (Terminal.reply? c.content)
    | .listens asked => p.session.move?.bind (Terminal.reply? asked)
    | _ => none
  | _ => none

theorem reply?_of_asks (h : p.session.Shows id c) (hasks : c.Asks) :
    p.reply? id = p.session.move?.bind (Terminal.reply? c.content) := by
  have hdevice : p.session.devices[id]? = some (.shown c) := h
  unfold reply?
  rw [hdevice]
  rcases hasks with hturn | hturn
  · simp only [hturn]
  · simp only [hturn]

theorem reply?_of_queued (h : p.session.Shows id c) {e : Event} {rest : List Event}
    (hqueued : c.queued = e :: rest) : p.reply? id = none := by
  have hdevice : p.session.devices[id]? = some (.shown c) := h
  have hturn : c.turn = .event e [] { c with queued := rest } := by
    simp [Terminal.turn, hqueued]
  unfold reply?
  rw [hdevice]
  simp only [hturn]

end Stand

/-! ## What is printed -/

/-- The line that tells of a message. -/
def Terminal.errorLines (message : Option String) : List String :=
  (message.map fun m => "Error: " ++ m).toList

/-- The line that names the commands of the buttons. -/
def Terminal.commandLines (password : Bool) (buttons : List ButtonFace) : List String :=
  if password || buttons.isEmpty then []
  else ["(" ++ ", ".intercalate (buttons.map Terminal.command) ++ ")"]

theorem Terminal.printed_text {c : Terminal} {value : String} {password : Bool}
    (h : c.content = .text value password) :
    c.printed = errorLines c.message ++ commandLines password c.chrome.buttons := by
  unfold printed commandLines
  rw [h]
  rcases password with _ | _
  · simp only [Bool.false_or]
    split
    · exact (List.append_nil _).symm
    · rfl
  · exact (List.append_nil _).symm

/-- What is printed before the user is asked stays there. -/
theorem Session.lines_next {w : Session} {id : Nat} {c : Terminal} (h : w.Shows id c)
    (hturn : c.turn = .asks) :
    (w.next id).2.lines = (Terminal.linesFrom w.midLine c.printed).reverse ++ w.lines := by
  have hdevice : w.devices[id]? = some (.shown c) := h
  have hlisten : ∀ (w' : Session) (asked : Terminal.Content),
      (w'.listen id c.begin asked).2.lines = w'.lines := by
    intro w' asked
    unfold listen
    split
    · simp only
      split
      · rfl
      · rfl
    · rfl
  unfold next
  rw [hdevice]
  simp only [hturn, prompt]
  split
  · rfl
  · exact hlisten _ _

end Interview
