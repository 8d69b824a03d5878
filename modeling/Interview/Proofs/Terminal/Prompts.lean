import Interview.Proofs.Terminal.Lines
/-
Lines of text on a terminal show what they hold.

The line of text has a text and a message, and so has its control. The two change at different
times: the control takes over what was typed when the reply comes in, the line when it handles the
change. Between two turns they agree all the same, for a change is handled in the turn in which it
is handed out, and what is left of a reply is an acceptance at most. So whenever the user is asked,
the text that is put before the user is the one that an acceptance would judge.

The events of a control are an account of its replies. What was handed out and what is left to hand
out make up, in order, what the replies stand for. It is a balance that every turn keeps.

The messages agree only if they did at first. A line of text that was copied from one with a message
takes the message for displayed, although its own control never showed it (`Screen.stale_of_ask`).
-/

set_option autoImplicit false

namespace Interview

open Control (Event)

/-! ## Screens with a line of text -/

namespace Screen

variable {agree : Prop} {base s : Screen} {id : Nat} {t : TextEntry} {c : Terminal} {w : Session}
  {q : List Event}

/-- The control shows the line of text of the screen: the same text, and the same message if they
agreed on it at first. -/
structure Reflects (agree : Prop) (base : Screen) (id : Nat) (t : TextEntry) (c : Terminal)
    (s : Screen) (w : Session) : Prop where
  buttons : s.buttons = base.buttons
  content : s.content = .text t
  shows : w.Shows id c
  faces : c.chrome.buttons = base.buttons.map Button.face
  inUse : c.InUse
  line : c.content = .text t.value t.password
  queued : c.queued = [] ∨ c.queued = [.accept]
  message : agree → c.message = t.shown

/-- The screen has its line of text on a control with these events left. -/
def Mirrors (agree : Prop) (base : Screen) (id : Nat) (q : List Event) (s : Screen) (w : Session) :
    Prop :=
  ∃ t c, Reflects agree base id t c s w ∧ c.queued = q

/-- Acts that put the new message on display keep the control in step. -/
theorem Reflects.perform (h : Reflects agree base id t c s w) {t' : TextEntry} {acts : List Act}
    (hdisplays : Act.Displays t.shown t'.shown acts)
    (hvalue : t'.value = t.value ∧ t'.password = t.password) :
    Reflects agree base id t' (c.obey acts) { s with content := .text t' }
        (Screen.perform id acts w) ∧
      (c.obey acts).queued = c.queued := by
  have hshows := h.shows.perform acts
  obtain ⟨busy, message, hobey, hmessage⟩ := hdisplays c
  rw [hobey] at hshows ⊢
  refine ⟨⟨h.buttons, rfl, hshows, h.faces, ⟨h.inUse.disposed, h.inUse.inFlight⟩, ?_, h.queued,
    fun hagree => hmessage (h.message hagree)⟩, rfl⟩
  rw [hvalue.1, hvalue.2]
  exact h.line

theorem Reflects.look (h : Reflects agree base id t c s w) :
    Reflects agree base id t.look.2.1 (c.obey t.look.1) s.looked
        (Screen.perform id s.lookActs w) ∧
      (c.obey t.look.1).queued = c.queued := by
  have hlooked : s.looked = { s with content := .text t.look.2.1 } := by
    rw [looked, h.content]
    rfl
  have hacts : s.lookActs = t.look.1 := by
    rw [lookActs, h.content]
    rfl
  rw [hlooked, hacts]
  exact h.perform t.displays_look t.value_look

/-! ### Events -/

/-- **Handling an event** brings the line of text in step with a control that has it already. -/
theorem Reflects.react (h : Reflects agree base id t c s w) {e : Event} {c' : Terminal}
    {w' : Session} (hw' : w'.Shows id c') (hc' : c'.InUse)
    (hchrome : c'.chrome = c.chrome) (hmessage : c'.message = c.message)
    (hline : c'.content = .text ((Moment.event e).text t.value) t.password)
    (hqueued : c'.queued = [] ∨ c'.queued = [.accept]) :
    (s.react id e w').After (Mirrors agree base id c'.queued) := by
  -- the line of text as if it had taken over the text already
  let t₀ : TextEntry := { t with value := (Moment.event e).text t.value }
  have hfirst : Reflects agree base id t₀ c' { s with content := .text t₀ } w' :=
    ⟨h.buttons, rfl, hw', hchrome ▸ h.faces, hc', hline, hqueued,
      fun hagree => hmessage.trans (h.message hagree)⟩
  -- an event that is no change leaves the text, and with it the screen, as they are
  have hsame : (Moment.event e).text t.value = t.value → s = { s with content := .text t₀ } := by
    intro heq
    have ht₀ : t₀ = t := by simp only [t₀, heq]
    rw [ht₀, ← h.content]
  apply after_react
  have hhandles := handles_handle h.content e
  generalize s.handle e = handled at hhandles ⊢
  cases hhandles with
  | hides =>
      rw [hsame rfl]
      exact ⟨t₀, c', hfirst, rfl⟩
  | clicks i notes =>
      rw [hsame rfl]
      obtain ⟨hclicked, hq⟩ := hfirst.perform (Act.displays_ofNotes _ notes) ⟨rfl, rfl⟩
      exact ⟨t₀, _, hclicked, hq⟩
  | types =>
      have hdisplays : Act.Displays t₀.shown (t.handle e).2.1.shown (t.handle e).1 :=
        t.displays_handle e
      obtain ⟨hhandled, hq⟩ := hfirst.perform hdisplays (t.value_handle e)
      exact ⟨_, _, hhandled, hq⟩

/-! ### Turns -/

/-- The story of an event that is handed out. -/
theorem handed_event (e : Event) (acts : List Act) :
    Story.handed (.event e :: Story.told acts) = if e = .hide then [] else [e] := by
  have htold : Story.handed (Story.told acts) = [] := Story.handed_told acts
  cases e with
  | hide => exact htold
  | changed | selected | accept | button =>
      rw [if_neg (by simp)]
      exact congrArg _ htold

/-- **Waiting for the control keeps the balance**: what was left to hand out and the reply are
handed out, or they are left. -/
theorem Reflects.await (h : Reflects agree base id t c s w) (left : Nat) :
    ∃ q, (s.await id w).After (Mirrors agree base id q) ∧
      c.queued ++ ((Stand.reply? id ⟨s, w, left⟩).toList.flatMap
          fun r => Terminal.textReply r (base.buttons.map Button.face)) =
        (rest id .await s w).handed ++ q := by
  have harrives := Session.arrives_next h.shows h.inUse
  unfold Screen.await rest
  generalize w.next id = next at harrives ⊢
  cases harrives with
  | @queued e rest w' hqueued hw' =>
      -- only an acceptance can be left of a reply
      obtain ⟨rfl, rfl⟩ : e = .accept ∧ rest = [] := by
        rcases h.queued with hnone | hone
        · exact absurd (hqueued.symm.trans hnone) (by simp)
        · rw [hqueued] at hone
          simpa using hone
      refine ⟨[], h.react hw' ⟨h.inUse.disposed, h.inUse.inFlight⟩ rfl rfl h.line (Or.inl rfl), ?_⟩
      rw [Stand.reply?_of_queued h.shows hqueued, hqueued]
      simp only [handed_event]
      rfl
  | rowsFirst _ _ hrows => exact absurd hrows (by simp [Terminal.awaitsRows, h.line])
  | nothing _ hobstacle => exact absurd hobstacle (by simp [Terminal.obstacle?, h.line])
  | @silent w' hasks hheard hw' =>
      refine ⟨c.queued, ⟨t, c.begin, ⟨h.buttons, h.content, hw', h.faces,
        ⟨h.inUse.disposed, Or.inr rfl⟩, h.line, h.queued, h.message⟩, rfl⟩, ?_⟩
      rw [Stand.reply?_of_asks h.shows hasks, h.line]
      rw [h.line] at hheard
      rcases Terminal.heard_text c.chrome.buttons t.value t.password w.move? with
        ⟨r, -, hsome⟩ | ⟨hnone, -⟩
      · exact absurd (hheard.symm.trans hsome) (by simp)
      · rw [hnone]
        exact List.append_nil _
  | @finished o w' hasks _ hheard hw' =>
      have hempty := (h.inUse.asks_iff.mp hasks).1
      have hclosed := hw'.close c c.content o
      rw [Stand.reply?_of_asks h.shows hasks, hempty, h.line, ← h.faces]
      rw [h.line] at hheard
      rcases Terminal.heard_text c.chrome.buttons t.value t.password w.move? with
        ⟨r, hreply, hsome⟩ | ⟨hnone, hleaves | hsilent⟩
      · obtain rfl := Option.some.inj (hheard.symm.trans hsome)
        rw [hreply]
        rcases Terminal.textReply_cases r c.chrome.buttons with ⟨i, hclick⟩ | hchange
        · -- a click is the whole reply
          simp only [hclick, Terminal.finish, Terminal.Content.follow, h.line, List.foldl_cons,
            List.foldl_nil] at hclosed ⊢
          refine ⟨[], h.react hclosed ⟨h.inUse.disposed, Or.inl rfl⟩ rfl rfl rfl (Or.inl rfl), ?_⟩
          rw [handed_event]
          simp [hclick]
        · -- the change is handed out, and the acceptance is left
          simp only [hchange, Terminal.finish, Terminal.Content.follow, h.line, List.foldl_cons,
            List.foldl_nil] at hclosed ⊢
          refine ⟨[.accept],
            h.react hclosed ⟨h.inUse.disposed, Or.inl rfl⟩ rfl rfl rfl (Or.inr rfl), ?_⟩
          rw [handed_event]
          simp [hchange]
      · obtain rfl := Option.some.inj (hheard.symm.trans hleaves)
        have hreact := h.react (e := .hide) hclosed ⟨h.inUse.disposed, Or.inl rfl⟩ rfl rfl h.line
          (Or.inl hempty)
        rw [hnone]
        rw [show (c.finish (.error .cancelled)).2.2.queued = [] from hempty, h.line] at hreact
        exact ⟨[], hreact, rfl⟩
      · exact absurd (hheard.symm.trans hsilent) (by simp)

/-- **One turn keeps the line of text in step, and the balance.** -/
theorem Mirrors.turn (h : Mirrors agree base id q s w) (left : Nat) :
    ∃ q', (s.turn id w).After (Mirrors agree base id q') ∧
      q ++ (((s.stand? id left w).bind (Stand.reply? id)).toList.flatMap
          fun r => Terminal.textReply r (base.buttons.map Button.face)) =
        (s.turnStory id w).handed ++ q' := by
  obtain ⟨t, c, hc, rfl⟩ := h
  obtain ⟨hlook, hqueued⟩ := hc.look
  have hstory : (s.turnStory id w).handed =
      (rest id s.found s.looked (Screen.perform id s.lookActs w)).handed := by
    have hturn : s.turnStory id w = s.content.answer ++ Story.told s.lookActs ++
        rest id s.found s.looked (Screen.perform id s.lookActs w) := rfl
    rw [hturn, hc.content, Story.handed_append, Story.handed_append, Story.handed_told,
      Content.answer, Story.handed_answer]
    rfl
  rw [turn_eq, hstory, stand?]
  rcases s.found with _ | _ | f
  · -- the control is waited for
    have hawait := hlook.await left
    rw [hqueued] at hawait
    exact hawait
  · -- an acceptance that has waited is handled without a further event
    refine ⟨(c.obey t.look.1).queued, hlook.react hlook.shows hlook.inUse rfl rfl hlook.line
      hlook.queued, ?_⟩
    have hnone : (rest id .replay s.looked (Screen.perform id s.lookActs w)).handed = [] :=
      Story.handed_told _
    rw [hnone, hqueued]
    exact List.append_nil _
  · exact ⟨c.queued, ⟨_, _, hlook, hqueued⟩, List.append_nil _⟩

theorem Mirrors.handed_turn (h : Mirrors agree base id q s w) :
    (s.turn id w).session.handed id = w.handed id ++ (s.turnStory id w).handed := by
  obtain ⟨t, c, hc, -⟩ := h
  rw [Session.handed, seen_turn hc.content, Story.handed_append, Story.handed_filter]
  rfl

/-! ### Being asked -/

/-- The texts with which the user replies in a conversation, first one first. -/
def replies (id n : Nat) (s : Screen) (w : Session) : List String :=
  (stands id n s w).filterMap (Stand.reply? id)

/-- The texts with which the user replies while a screen is asked. -/
def askReplies (n : Nat) (s : Screen) (w : Session) : List String :=
  (s.askStands n w).filterMap (Stand.reply? (s.appear w).1)

theorem replies_succ (id n : Nat) (s : Screen) (w : Session) :
    replies id (n + 1) s w =
      ((s.stand? id n w).bind (Stand.reply? id)).toList ++
        match s.turn id w with
        | .stays s w => replies id n s w
        | .ends _ _ _ => [] := by
  rw [replies, stands, List.filterMap_append]
  congr 1
  · cases s.stand? id n w with
    | none => rfl
    | some p => cases hp : p.reply? id <;> simp [hp]
  · cases s.turn id w with
    | stays => rfl
    | ends => rfl

/-- **A conversation keeps the balance.** The induction is on the turns: what a turn leaves to hand
out is there for the next one. -/
theorem Mirrors.converse (h : Mirrors agree base id q s w) (n : Nat) :
    ∃ q', Mirrors agree base id q' (converse id n s w).2.1 (converse id n s w).2.2 ∧
      w.handed id ++ q ++ (replies id n s w).flatMap
          (fun r => Terminal.textReply r (base.buttons.map Button.face)) =
        (Screen.converse id n s w).2.2.handed id ++ q' := by
  induction n generalizing s w q with
  | zero => exact ⟨q, h, List.append_nil _⟩
  | succ n ih =>
      obtain ⟨q', hafter, hbalance⟩ := h.turn n
      -- what was left and the reply of this turn are handed out in it, or left to the next one
      rw [replies_succ, List.flatMap_append, ← List.append_assoc, List.append_assoc (w.handed id),
        hbalance, ← List.append_assoc, ← h.handed_turn, converse_succ]
      cases hturn : s.turn id w with
      | stays s' w' =>
          rw [hturn] at hafter
          exact ih hafter
      | ends o s' w' =>
          rw [hturn] at hafter
          exact ⟨q', hafter, List.append_nil _⟩

/-- What a screen has on a control stays in step at every stand. -/
theorem Mirrors.stands (h : Mirrors agree base id q s w) (n : Nat) :
    ∀ p ∈ stands id n s w, ∃ q, Mirrors agree base id q p.screen p.session := by
  have hlook : ∀ s w, (∃ q, Mirrors agree base id q s w) →
      ∃ q, Mirrors agree base id q s.looked (Screen.perform id s.lookActs w) := by
    rintro s w ⟨q, t, c, hc, hq⟩
    exact ⟨q, _, _, hc.look.1, hc.look.2.trans hq⟩
  have hturn : ∀ s w, (∃ q, Mirrors agree base id q s w) →
      (s.turn id w).After fun s w => ∃ q, Mirrors agree base id q s w := by
    rintro s w ⟨q, hs⟩
    obtain ⟨q', hafter, -⟩ := hs.turn 0
    exact hafter.imp fun _ _ hs' => ⟨q', hs'⟩
  exact (keeps_converse hlook hturn ⟨q, h⟩).2

end Screen

/-- What a line of text takes to be on display will be there when its control is made. -/
def TextEntry.Candid (t : TextEntry) : Prop :=
  t.shown = none ∨ ∃ message, t.reproach = some message ∧ t.shown ≠ some message

/-- A refusal that is not taken for displayed is put on display. -/
theorem TextEntry.start_of_reproach {t : TextEntry} {message : String}
    (hreproach : t.reproach = some message) (hshown : t.shown ≠ some message) :
    t.start = ([.call (.setMessage (some message))],
      { t with reproach := none, shown := some message }) := by
  unfold TextEntry.start TextEntry.display
  simp only [hreproach]
  rw [if_neg hshown]

/-- A line of text that is not candid puts nothing on display: the only message that there is, it
takes to be there. -/
theorem TextEntry.start_of_stale {t : TextEntry} (h : ¬ t.Candid) :
    t.start.1 = [] ∧ t.start.2.shown = t.shown ∧ t.start.2.pending = t.pending := by
  unfold TextEntry.start
  split
  · rename_i reproach hreproach
    have hshown : t.shown = some reproach := by
      by_contra hne
      exact h (Or.inr ⟨reproach, hreproach, hne⟩)
    unfold TextEntry.display
    rw [if_pos hshown]
    exact ⟨rfl, rfl, rfl⟩
  · exact ⟨rfl, rfl, rfl⟩

/-- A control without a message shows the one that a candid line of text starts with. -/
theorem TextEntry.Candid.message_start {t : TextEntry} (h : t.Candid) {c : Terminal}
    (hc : c.message = none) : (c.obey t.start.1).message = t.start.2.shown := by
  rcases h with hnone | ⟨message, hreproach, hshown⟩
  · obtain ⟨busy, message, hobey, hmessage⟩ := t.displays_start c
    rw [hobey]
    exact hmessage (hc.trans hnone.symm)
  · -- the refusal is put on display now
    rw [TextEntry.start_of_reproach hreproach hshown]
    rfl

namespace Screen

variable {s : Screen} {t : TextEntry} {w : Session}

/-- A line of text that has no control gets one, and is started on it. -/
theorem appear_of_text (hs : s.content = .text t) (hcontrol : s.control = none) :
    s.appear w = ((w.make s.content.kind s.chrome).1,
      { s with control := some (w.make s.content.kind s.chrome).1, content := .text t.start.2 },
      Screen.perform (w.make s.content.kind s.chrome).1 (.call .makeVisible :: t.start.1)
        (w.make s.content.kind s.chrome).2) := by
  unfold Screen.appear
  rw [hcontrol]
  simp only [hs, Content.start]

/-- **A line of text is in step when its control is made.** -/
theorem mirrors_appear (hs : s.content = .text t) (hcontrol : s.control = none) {colorful : Bool}
    {moves : List Terminal.Move} (hw : w.host = .terminal colorful moves) :
    Mirrors t.Candid s (s.appear w).1 [] (s.appear w).2.1 (s.appear w).2.2 ∧
      (s.appear w).2.2.handed (s.appear w).1 = w.handed (s.appear w).1 := by
  have hmade := Session.shows_make hw s.content.kind s.chrome
  have hshows := hmade.perform (.call .makeVisible :: t.start.1)
  let c := Terminal.new colorful s.content.kind s.chrome
  obtain ⟨busy, message, hobey, -⟩ := t.displays_start c
  have hreflects : Reflects t.Candid s (s.appear w).1 t.start.2 (c.obey t.start.1)
      (s.appear w).2.1 (s.appear w).2.2 := by
    rw [appear_of_text hs hcontrol]
    refine ⟨rfl, rfl, hshows, Terminal.buttons_obey _ _, ?_, ?_, ?_, ?_⟩
    · rw [hobey]
      exact ⟨rfl, Or.inl rfl⟩
    · rw [hobey, t.value_start.1, t.value_start.2]
      simp only [c, hs]
      rfl
    · rw [hobey]
      exact Or.inl rfl
    · intro hcandid
      exact hcandid.message_start rfl
  constructor
  · refine ⟨_, _, hreflects, ?_⟩
    rw [hobey]
    rfl
  · have hmild : Mild (.call .makeVisible :: t.start.1) := mild_cons.mpr ⟨rfl, t.mild_start⟩
    rw [appear_of_text hs hcontrol, Session.handed, seen_perform hmild,
      Session.seen_make, Story.handed_append, Story.handed_told]
    exact List.append_nil _

end Screen

/-- **What the user is asked at a stand is what the line of text holds.** The screen is `s`, its
line was `first` at first, and now it is `t` and has the control `c`. -/
structure Stand.AsksForText (s : Screen) (first : TextEntry) (id : Nat) (t : TextEntry)
    (c : Terminal) (p : Stand) : Prop where
  /-- The text that is put before the user is the one that an acceptance would be about. -/
  text : ∃ text, c.content = .text text t.password ∧ t.value = text ∧ t.WouldAccept text
  /-- The message on display is printed, and no other. -/
  printed : first.Candid → c.printed = Terminal.errorLines t.shown ++
    Terminal.commandLines t.password (s.buttons.map Button.face)
  lines : (p.session.next id).2.lines =
    (Terminal.linesFrom p.session.midLine c.printed).reverse ++ p.session.lines

namespace Screen

variable {s : Screen} {t : TextEntry} {w : Session}

/-- **A line of text that was not shown before asks for what it holds, and every reply reaches it.**
What its control has handed out in the end, and what it has left, is what the replies stand for, one
after the other: a click, or the text exactly as it was typed and its acceptance. -/
theorem asksForText_of_ask (hs : s.content = .text t) (hcontrol : s.control = none)
    {colorful : Bool} {moves : List Terminal.Move} (hw : w.host = .terminal colorful moves)
    (n : Nat) :
    (∀ p ∈ s.askStands n w, ∃ t' c,
      p.screen.content = .text t' ∧ p.session.Shows (s.appear w).1 c ∧
        (c.turn = .asks → p.AsksForText s t (s.appear w).1 t' c)) ∧
      (s.ask n w).2.2.handed (s.appear w).1 ++ (s.ask n w).2.2.queue (s.appear w).1 =
        w.handed (s.appear w).1 ++ (s.askReplies n w).flatMap
          fun r => Terminal.textReply r (s.buttons.map Button.face) := by
  by_cases hopen : s.disposed = true
  · -- nobody is asked, and there is no control
    have hnone : w.queue (s.appear w).1 = [] := by
      have hnew : (s.appear w).1 = w.devices.length := by
        unfold Screen.appear Session.make
        rw [hcontrol]
        simp only
        split
        · rfl
        · rfl
        · rfl
      rw [Session.queue, hnew, List.getElem?_eq_none (Nat.le_refl _)]
    rw [Screen.ask, askReplies, askStands, if_pos hopen, if_pos hopen, hnone]
    exact ⟨fun p hp => absurd hp List.not_mem_nil, rfl⟩
  · obtain ⟨hmirrors, hhanded⟩ := mirrors_appear hs hcontrol hw
    rw [Screen.ask, askReplies, askStands, if_neg hopen, if_neg hopen]
    constructor
    · intro p hp
      obtain ⟨q, t', c, hc, -⟩ := hmirrors.stands n p hp
      refine ⟨t', c, hc.content, hc.shows, fun hturn =>
        ⟨⟨t'.value, hc.line, rfl, t'.wouldAccept_value⟩, fun hcandid => ?_,
          Session.lines_next hc.shows hturn⟩⟩
      rw [Terminal.printed_text hc.line, hc.message hcandid, hc.faces]
    · obtain ⟨q, ⟨t', c, hc, rfl⟩, hbalance⟩ := hmirrors.converse n
      rw [hhanded, List.append_nil] at hbalance
      rw [← hc.shows.queue_eq] at hbalance
      exact hbalance.symm

/-- A line of text that is asked again because its answer was taken. -/
def takenLine : TextEntry :=
  let line := { TextEntry.new with
    validator := some fun _ text => .now (if text = "bee" then some "taken" else none) }
  line.restore ⟨.text "ant", some "taken"⟩

/-- The screen of that line. -/
def taken : Screen :=
  { Screen.new .english (.text takenLine) with buttons := [Button.back none] }

/-- The user types a text that is taken as well, and then another one. -/
theorem asksForText_of_taken :
    let w := Session.new (.terminal false [.typed "bee" 3, .typed " cat" 3])
    taken.content = .text takenLine ∧ taken.control = none ∧ takenLine.Candid ∧
      (∃ t c, ∃ p ∈ taken.askStands 6 w, p.session.Shows 0 c ∧ c.turn = .asks ∧
        p.AsksForText taken takenLine 0 t c ∧ c.content = .text "ant" false ∧
        c.printed = ["Error: taken", "(:arrow-left)"]) ∧
      (taken.ask 6 w).2.2.handed 0 = [.changed "bee", .accept, .changed " cat", .accept] ∧
      (taken.ask 6 w).1 = .done (.value (.text " cat")) := by
  intro w
  obtain ⟨hstands, hbalance⟩ := asksForText_of_ask (s := taken) (t := takenLine) (w := w) rfl rfl
    rfl 6
  refine ⟨rfl, rfl, Or.inl rfl, ?_, ?_, rfl⟩
  · obtain ⟨t, c, -, hc, hasks⟩ := hstands _ (List.mem_of_getElem? (i := 0) rfl)
    have hcontrol := Device.shown.inj (Option.some.inj hc)
    have hturn : c.turn = .asks := by
      rw [← hcontrol]
      rfl
    refine ⟨t, c, _, List.mem_of_getElem? (i := 0) rfl, hc, hturn, hasks hturn, ?_, ?_⟩
    · rw [← hcontrol]
      rfl
    · rw [← hcontrol]
      decide
  · have hqueue : (taken.ask 6 w).2.2.queue 0 = [] := rfl
    have hreplies : taken.askReplies 6 w = ["bee", " cat"] := rfl
    have hid : (taken.appear w).1 = 0 := rfl
    rw [hid, hqueue, hreplies, List.append_nil] at hbalance
    rw [hbalance]
    decide

/-- Without a check in flight, the control is waited for at once. -/
theorem mem_stands_of_idle {id n : Nat} (hs : s.content = .text t) (hidle : t.pending = none) :
    ⟨s, w, n⟩ ∈ stands id (n + 1) s w := by
  have hlook : s.content.look s.wording = ([], s.content, .await) := by
    rw [hs, Content.look, TextEntry.look, hidle]
  have hstand : s.stand? id n w = some ⟨s, w, n⟩ := by
    rw [stand?, found, looked, lookActs, hlook]
    rfl
  rw [stands, hstand]
  exact List.mem_append_left _ (List.mem_singleton.mpr rfl)

/-- **A message that the control never showed.** A line of text that is not candid, as a copy of one
with a message on display is, is asked for without the message. -/
theorem stale_of_ask (hs : s.content = .text t) (hcontrol : s.control = none)
    (hopen : s.disposed = false) (hpending : t.pending = none) (hstale : ¬ t.Candid)
    {colorful : Bool} {moves : List Terminal.Move} (hw : w.host = .terminal colorful moves)
    (n : Nat) :
    ∃ p ∈ s.askStands (n + 1) w, ∃ t' c message,
      p.screen.content = .text t' ∧ p.session.Shows (s.appear w).1 c ∧ c.turn = .asks ∧
        t'.shown = some message ∧
        c.printed = Terminal.commandLines t.password (s.buttons.map Button.face) := by
  obtain ⟨message, hmessage⟩ : ∃ message, t.shown = some message :=
    Option.ne_none_iff_exists'.mp fun hnone => hstale (Or.inl hnone)
  obtain ⟨hacts, hshown, hidle⟩ := TextEntry.start_of_stale hstale
  have hmade := Session.shows_make hw s.content.kind s.chrome
  have hshows := hmade.perform (.call .makeVisible :: t.start.1)
  rw [askStands, if_neg (by simp [hopen]), appear_of_text hs hcontrol]
  refine ⟨_, mem_stands_of_idle rfl (hidle.trans hpending), t.start.2, _, message, rfl, hshows, ?_,
    hshown.trans hmessage, ?_⟩
  · rw [hacts, hs]
    rfl
  · have hline : ((Terminal.new colorful s.content.kind s.chrome).obey
        (.call .makeVisible :: t.start.1)).content = .text t.value t.password := by
      rw [hacts, hs]
      rfl
    rw [Terminal.printed_text hline, hacts]
    rfl

end Screen

end Interview
