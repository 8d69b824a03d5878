import Interview.Proofs.Typing.Transcripts
/-
What becomes of a check whose text is no longer the current one.

A newer text replaces the check in flight, because it is given to the validator in its place.
There is one text that is not given to the validator: the one that was judged last. Whoever types
back to it leaves the other check in flight, and that check still answers, with a message that is
put on display beside a text it is not about, or with a failure that ends the question.

So a check answers about the current text exactly when the current text is not the one that was
judged last (`Moment.Heeds`). When this never comes about, no check that was superseded has an
effect.
-/

set_option autoImplicit false

namespace Interview

open Control (Event)
open Story (told)

/-! ## Stories without belated answers -/

namespace Story

/-- The last thing that happened was that a check answered which was about another text. -/
def EndsBelated (ms : Story) (message : Option String) : Prop :=
  ∃ (before : Story) (text : String), ms = before ++ [.judged text (.ok message)] ∧
    before.judgedLast = some before.typed

/-- Whether the message is about the current text: it is the reason for which an earlier answer was
refused, or the verdict of a check of the current text. No message is about every text. -/
def Concerns (ms : Story) (message : Option String) : Prop :=
  message = none ∨ (∃ text, .begun text message ∈ ms) ∨ .judged ms.typed (.ok message) ∈ ms

end Story

/-- What is true of a moment, after what happened before. -/
def Moment.Heeds (past : Story) : Moment → Prop
  | judged text _ => text = past.typed ↔ past.judgedLast ≠ some past.typed
  | told message => past.Concerns message ∨ past.EndsBelated message
  | _ => True

namespace Story

variable {ms : Story} {m : Moment} {message : Option String}

/-- What is true of every moment of a story. -/
def Heedful (ms : Story) : Prop :=
  ∀ before m after, ms = before ++ m :: after → m.Heeds before

/-- No check answered while the text was the one that had been judged last. -/
def Undisturbed (ms : Story) : Prop :=
  ∀ (before : Story) (text : String) (verdict : Except Failure (Option String)) (after : Story),
    ms = before ++ .judged text verdict :: after → before.judgedLast ≠ some before.typed

theorem heedful_nil : Heedful [] := by
  intro before m after heq
  exact absurd heq (by simp)

theorem Heedful.concat (h : ms.Heedful) (hm : m.Heeds ms) : Heedful (ms ++ [m]) := by
  intro before k after heq
  rcases List.eq_nil_or_concat after with rfl | ⟨after, x, rfl⟩
  · obtain ⟨rfl, hk⟩ := List.append_inj' heq rfl
    exact (List.cons.inj hk).1 ▸ hm
  · rw [List.concat_eq_append, ← List.cons_append, ← List.append_assoc] at heq
    exact h before k after (List.append_inj' heq rfl).1

/-- Putting a message on display is at most one moment. -/
theorem Heedful.display (h : ms.Heedful) (t : TextEntry)
    (hmessage : (Moment.told message).Heeds ms) : Heedful (ms ++ told (t.display message).1) := by
  unfold TextEntry.display
  split
  · rw [told_nil, List.append_nil]
    exact h
  · exact h.concat hmessage

end Story

/-! ## Lines of text -/

namespace TextEntry

variable {valid : Option Validator} {ms : Story} {t : TextEntry}

/-- What a line of text knows of the check in flight and of an earlier refusal. -/
structure Follows (ms : Story) (t : TextEntry) : Prop where
  /-- The check in flight is of the current text, unless that is the one judged last. -/
  pending : ∀ p, t.pending = some p → p.text = ms.typed ∨ ms.judgedLast = some ms.typed
  reproach : ∀ message, t.reproach = some message → ∃ text, .begun text (some message) ∈ ms

/-- An earlier refusal stays in the story. -/
theorem Follows.reproach_append (h : t.Follows ms) (more : Story) (message : String)
    (hm : t.reproach = some message) : ∃ text, .begun text (some message) ∈ ms ++ more :=
  (h.reproach message hm).imp fun _ hbegun => List.mem_append_left _ hbegun

/-- Nothing but the messages and the check in flight counts. -/
theorem Follows.told (h : t.Follows ms) (acts : List Act) : t.Follows (ms ++ told acts) where
  pending := by simpa only [Story.typed_told, Story.judgedLast_told] using h.pending
  reproach := h.reproach_append _

theorem Follows.concat (h : t.Follows ms) {m : Moment} (htext : m.text ms.typed = ms.typed)
    (hlast : m.judgedLast ms.judgedLast = ms.judgedLast) : t.Follows (ms ++ [m]) where
  pending := by
    rw [Story.typed_concat, htext, Story.judgedLast_concat, hlast]
    exact h.pending
  reproach := h.reproach_append _

/-- **Judging the current text** leaves no check of another text in flight, unless the text was the
one judged last. -/
theorem Follows.judge (ht : t.Tracks valid ms)
    (hreproach : ∀ message, t.reproach = some message → ∃ text, .begun text (some message) ∈ ms) :
    t.judge.2.1.Follows ms := by
  have hjudges := judges_judge t
  generalize t.judge = judged at hjudges ⊢
  cases hjudges with
  | unchecked hf =>
      refine ⟨fun p hp => ?_, hreproach⟩
      obtain ⟨-, f, -, hvalid, -⟩ := ht.pending p hp
      rw [ht.validator, hvalid] at hf
      exact absurd hf (by simp)
  | known hf hchecked =>
      have hlast := ht.judgedLast
      rw [hchecked, Option.map_some, ht.value] at hlast
      exact ⟨fun _ _ => Or.inr hlast.symm, hreproach⟩
  | @underway f p hf hp htext =>
      refine ⟨fun q hq => Or.inl ?_, hreproach⟩
      obtain rfl := Option.some.inj (hp.symm.trans hq)
      exact htext.trans ht.value
  | begins =>
      refine ⟨fun q hq => Or.inl ?_, hreproach⟩
      obtain rfl := Option.some.inj hq
      exact ht.value

/-- What judging puts on display is about the current text. -/
theorem heedful_judge (hms : ms.Heedful) (hvalue : t.value = ms.typed)
    (hchecked : ∀ verdict, t.checked = some (t.value, verdict) →
      .judged t.value (.ok verdict) ∈ ms) : Story.Heedful (ms ++ told t.judge.1) := by
  have hjudges := judges_judge t
  generalize t.judge = judged at hjudges ⊢
  cases hjudges with
  | unchecked => exact hms.display t (Or.inl (Or.inl rfl))
  | known _ hknown => exact hms.display t (Or.inl (Or.inr (Or.inr (hvalue ▸ hchecked _ hknown))))
  | underway => simpa using hms
  | begins =>
      have hquiet : ∀ f, Story.told (t.beginCheck f).1 = [] := by
        intro f
        unfold TextEntry.beginCheck
        rw [Story.told_append, Story.told_ofNotes, List.append_nil]
        split
        · rfl
        · rfl
      rw [hquiet, List.append_nil]
      exact hms

/-- All that is known of a line of text and its story. -/
structure Heeds (valid : Option Validator) (ms : Story) (t : TextEntry) : Prop where
  tracks : t.Tracks valid ms
  follows : t.Follows ms
  heedful : ms.Heedful

/-- **A look.** The check that answers is about the current text, unless that is the one judged
last. -/
theorem Heeds.look (h : t.Heeds valid ms) :
    t.look.2.1.Heeds valid (ms ++ t.answer ++ told t.look.1) := by
  have htracks := h.tracks.look
  have hlooks := looks_look t
  have hanswer : ∀ p, t.pending = some p → ∀ verdict, (Moment.judged p.text verdict).Heeds ms := by
    intro p hp verdict
    obtain ⟨hnew, -⟩ := h.tracks.pending p hp
    refine ⟨fun htext => htext ▸ hnew, fun hlast => ?_⟩
    rcases h.follows.pending p hp with htext | hback
    · exact htext
    · exact absurd hback hlast
  generalize t.answer = answer at htracks hlooks ⊢
  generalize t.look = found at htracks hlooks ⊢
  refine ⟨htracks, Follows.told ?_ _, ?_⟩
  · have hreproach := h.follows.reproach_append answer
    cases hlooks with
    | idle hp => exact ⟨fun p hq => absurd (hp.symm.trans hq) (by simp), hreproach⟩
    | @silent p hp =>
        rw [List.append_nil] at hreproach ⊢
        refine ⟨fun q hq => ?_, hreproach⟩
        obtain rfl := Option.some.inj hq
        exact h.follows.pending p hp
    | fails => exact ⟨fun _ hp => absurd hp (by simp), hreproach⟩
    | answers => exact ⟨fun _ hp => absurd hp (by simp), hreproach⟩
  · cases hlooks with
    | idle => simpa using h.heedful
    | silent => simpa using h.heedful
    | fails hp => simpa using h.heedful.concat (hanswer _ hp _)
    | @answers p verdict hp hv =>
        rw [Story.told_setBusy]
        refine (h.heedful.concat (hanswer p hp _)).display _ ?_
        -- the message is that of the check, and about the current text if the check is
        rcases h.follows.pending p hp with htext | hback
        · refine Or.inl (Or.inr (Or.inr ?_))
          rw [Story.typed_concat, htext]
          exact List.mem_append_right _ (List.mem_singleton.mpr rfl)
        · exact Or.inr ⟨ms, p.text, rfl, hback⟩

/-- A change leaves no check of another text in flight, unless the text was the one judged last. -/
theorem Heeds.follows_handle (h : t.Heeds valid ms) (e : Event) :
    (t.handle e).2.1.Follows (ms ++ [.event e]) := by
  rcases e with text | places | _ | _ | i
  · have hreproach := h.follows.reproach_append [.event (.changed text)]
    by_cases heager : t.eager = true
    · simp only [TextEntry.handle, if_pos heager]
      exact Follows.judge (h.tracks.changed text) hreproach
    · simp only [TextEntry.handle, if_neg heager, display_snd]
      exact ⟨fun _ hp => absurd hp (by simp), hreproach⟩
  · exact h.follows.concat rfl rfl
  · have hjudge :=
      (Follows.judge h.tracks h.follows.reproach).concat (m := .event .accept) rfl rfl
    obtain ⟨-, b, haccept⟩ := t.handle_accept
    rw [haccept]
    exact ⟨hjudge.pending, hjudge.reproach⟩
  · exact h.follows.concat rfl rfl
  · exact h.follows.concat rfl rfl

/-- What an event puts on display is about the text after it. -/
theorem Heeds.heedful_handle (h : t.Heeds valid ms) (e : Event) :
    Story.Heedful (ms ++ [.event e] ++ told (t.handle e).1) := by
  have hheedful : Story.Heedful (ms ++ [.event e]) := h.heedful.concat trivial
  rcases e with text | places | _ | _ | i
  · have hchanged := h.tracks.changed text
    by_cases heager : t.eager = true
    · simp only [TextEntry.handle, if_pos heager]
      exact heedful_judge hheedful hchanged.value fun verdict hc => hchanged.checked _ _ hc
    · simp only [TextEntry.handle, if_neg heager, Story.told_append, ← List.append_assoc]
      have hidle : ∀ b : Bool, told (if b then [.call (.setBusy false)] else []) = [] := by
        intro b
        rcases b with _ | _
        · rfl
        · rfl
      rw [hidle, List.append_nil]
      exact hheedful.display _ (Or.inl (Or.inl rfl))
  · simpa [TextEntry.handle] using hheedful
  · rw [t.handle_accept.1]
    refine heedful_judge hheedful ?_ fun verdict hc =>
      List.mem_append_left _ (h.tracks.checked _ _ hc)
    rw [Story.typed_concat, h.tracks.value]
    rfl
  · simpa [TextEntry.handle] using hheedful
  · simpa [TextEntry.handle] using hheedful

/-- **An event.** -/
theorem Heeds.handle (h : t.Heeds valid ms) (e : Event) :
    (t.handle e).2.1.Heeds valid (ms ++ .event e :: told (t.handle e).1) := by
  refine ⟨h.tracks.handle e, ?_, ?_⟩
  · rw [List.append_cons]
    exact (h.follows_handle e).told _
  · rw [List.append_cons]
    exact h.heedful_handle e

/-- **The promise about checks is an invariant**: whatever happens to a line of text, every message
on display is about the current text, and so is every answer of a check, except after the text was
changed back to the one judged last. -/
theorem heeds_invariant (valid : Option Validator) : Invariant valid (Heeds valid) where
  tracks h := h.tracks
  fresh hv hc hp := by
    refine ⟨hv ▸ tracks_fresh hc hp, ⟨fun p hq => absurd (hp.symm.trans hq) (by simp), ?_⟩, ?_⟩
    · intro message hm
      exact ⟨_, List.mem_singleton.mpr (by rw [hm])⟩
    · exact Story.heedful_nil.concat (m := .begun _ _) trivial
  start h := by
    refine ⟨h.tracks.start, Follows.told ?_ _, ?_⟩
    · unfold TextEntry.start
      split
      · rw [display_snd]
        exact ⟨h.follows.pending, fun _ hm => absurd hm (by simp)⟩
      · exact h.follows
    · unfold TextEntry.start
      split
      · rename_i message hm
        exact h.heedful.display _ (Or.inl (Or.inr (Or.inl (h.follows.reproach message hm))))
      · simpa using h.heedful
  look h := h.look
  handle e h := h.handle e
  redeem := by
    intro ms t verdict h hchecked _
    have hfollows : Follows ms { t with shown := verdict } :=
      ⟨h.follows.pending, h.follows.reproach⟩
    refine ⟨(h.tracks.shown _).told _, hfollows.told _, ?_⟩
    refine h.heedful.display t (Or.inl (Or.inr (Or.inr ?_)))
    rw [← h.tracks.value]
    exact h.tracks.checked _ _ hchecked
  copy h :=
    ⟨h.tracks.copy, ⟨fun _ hp => absurd hp (by simp [TextEntry.copy]),
      h.follows.reproach_append _⟩, h.heedful.concat trivial⟩
  restore a h := by
    refine ⟨h.tracks.restore a, ⟨fun _ hp => absurd hp (by simp [TextEntry.restore]), ?_⟩,
      h.heedful.concat trivial⟩
    intro message hm
    exact ⟨_, List.mem_append_right _ (List.mem_singleton.mpr
      (by rw [show a.error = some message from hm]))⟩

end TextEntry

/-! ## Screens -/

namespace Screen

variable {valid : Option Validator} {ms : Story} {s : Screen}

/-- What is promised about checks that were superseded, given what happened before a screen was
asked and while it was: they have no effect. -/
structure HeedsCurrent (past own : Story) (o : Outcome (Reply Json)) : Prop where
  /-- A check that answers is about the current text. -/
  judged : ∀ before text verdict after, own = before ++ .judged text verdict :: after →
    text = (past ++ before).typed
  /-- A message on display is about the current text. -/
  told : ∀ before message after, own = before ++ .told message :: after →
    (past ++ before).Concerns message
  /-- A failure that no click caused is that of a check of the current text. -/
  failed : ∀ e, o = .failed e → ¬ own.EndsInClick →
    ∃ before f, own = before ++ [.judged (past ++ own).typed (.error f)] ∧ e = .collaborator f

/-- **A superseded check has no effect**, if no check answers while the text is again the one that
was judged last. This holds for every screen with a line of text, whatever it has gone through
before, for every validator with every delay and outcome of its checks, and for every user. What the
story has of events and messages is what the transcript has of the control. -/
theorem heedsCurrent_of_ask (h : Lived valid s ms) (hopen : s.disposed = false) (n : Nat)
    (w : Session) (hundisturbed : Story.Undisturbed (ms ++ s.askStory n w)) :
    HeedsCurrent ms (s.askStory n w) (s.ask n w).1 ∧
      (s.ask n w).2.2.seen (s.appear w).1 =
        w.seen (s.appear w).1 ++ (s.askStory n w).filter Moment.isSeen := by
  obtain ⟨⟨t, -, ht⟩, hexplained⟩ :=
    (h.holds (TextEntry.heeds_invariant valid)).ask (TextEntry.heeds_invariant valid) n w
  have hjudged : ∀ before text verdict after,
      s.askStory n w = before ++ .judged text verdict :: after →
        text = (ms ++ before).typed := by
    intro before text verdict after heq
    have hsplit : ms ++ s.askStory n w = (ms ++ before) ++ .judged text verdict :: after := by
      rw [heq, List.append_assoc]
    exact (ht.heedful _ _ _ hsplit).mpr (hundisturbed _ _ _ _ hsplit)
  refine ⟨⟨hjudged, fun before message after heq => ?_, fun e he hclick => ?_⟩, seen_ask h n w⟩
  · have hsplit : ms ++ s.askStory n w = (ms ++ before) ++ .told message :: after := by
      rw [heq, List.append_assoc]
    rcases ht.heedful _ _ _ hsplit with hconcerns | ⟨past, text, hpast, hback⟩
    · exact hconcerns
    · -- the message of a check that answered while the text was the one judged last
      refine absurd hback (hundisturbed past text (.ok message) (.told message :: after) ?_)
      rw [hsplit, hpast, List.append_assoc]
      rfl
  · rcases (hexplained hopen).failed e he with hends | ⟨before, text, f, hown, rfl⟩
    · exact absurd hends hclick
    · refine ⟨before, f, ?_, rfl⟩
      have htyped : (ms ++ s.askStory n w).typed = (ms ++ before).typed := by
        rw [hown, ← List.append_assoc, Story.typed_concat]
        rfl
      rw [htyped, ← hjudged before text _ [] hown]
      exact hown

/-- The condition is exact: a check that answers is about the current text if and only if that text
is not the one judged last. -/
theorem judged_iff_of_ask (h : Lived valid s ms) {n : Nat} {w : Session} {before after : Story}
    {text : String} {verdict : Except Failure (Option String)}
    (heq : s.askStory n w = before ++ .judged text verdict :: after) :
    text = (ms ++ before).typed ↔ (ms ++ before).judgedLast ≠ some (ms ++ before).typed := by
  obtain ⟨⟨t, -, ht⟩, -⟩ :=
    (h.holds (TextEntry.heeds_invariant valid)).ask (TextEntry.heeds_invariant valid) n w
  exact ht.heedful (ms ++ before) _ after (by rw [heq, List.append_assoc])

/-- A validator that knows one good text, and takes its time to refuse any other. -/
def wary : Validator := fun _ text =>
  if text = "a" then .now none else ⟨[], .after 1, .ok (some "no")⟩

/-- A line of text with a validator that takes its time to refuse. -/
def waryLine : Screen :=
  .new .english (.text { TextEntry.new with validator := some wary })

/-- The user types on while a text is being checked, and stays with the second one. -/
theorem heedsCurrent_of_wary :
    let w := Session.new (.rehearsal [[.changed "b", .changed "c", .selected []]])
    let own : Story := [.event (.changed "b"), .event (.changed "c"), .event (.selected []),
      .judged "c" (.ok (some "no")), .told (some "no"), .event .hide]
    waryLine.askStory 5 w = own ∧ Story.Undisturbed ([.begun "" none] ++ own) ∧
      HeedsCurrent [.begun "" none] own (waryLine.ask 5 w).1 ∧
      (waryLine.ask 5 w).2.2.seen 0 = own.filter Moment.isSeen := by
  intro w own
  have hown : waryLine.askStory 5 w = own := rfl
  have hundisturbed : Story.Undisturbed ([.begun "" none] ++ own) := by
    intro before text verdict after heq
    -- only one check answers, and none did before
    have hfirst : before.judgedLast = none := by
      rcases before with _ | ⟨_, _ | ⟨_, _ | ⟨_, _ | ⟨_, _ | ⟨_, _ | ⟨_, _ | ⟨_, _⟩⟩⟩⟩⟩⟩⟩ <;>
        simp only [own, List.cons_append, List.nil_append, List.cons.injEq, reduceCtorEq,
          List.nil_eq_append_iff, false_and, and_false] at heq
      obtain ⟨rfl, rfl, rfl, rfl, -⟩ := heq
      rfl
    rw [hfirst]
    exact Option.some_ne_none _ |>.symm
  have hlived : Lived (some wary) waryLine [.begun "" none] :=
    Lived.fresh (t := { TextEntry.new with validator := some wary }) rfl rfl rfl rfl
  obtain ⟨hheeds, hseen⟩ := heedsCurrent_of_ask hlived rfl 5 w (hown.symm ▸ hundisturbed)
  exact ⟨hown, hundisturbed, hown ▸ hheeds, hseen⟩

/-- A user who types back to the text that was judged last is told of another one. -/
example :
    waryLine.askStory 5
        (.new (.rehearsal [[.changed "a", .changed "b", .changed "a"]])) =
      [.event (.changed "a"), .judged "a" (.ok none), .event (.changed "b"),
        .event (.changed "a"), .judged "b" (.ok (some "no")), .told (some "no"),
        .event .hide] := rfl

end Screen

end Interview
