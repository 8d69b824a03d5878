import Interview.Proofs.Typing.Transcripts
/-
What is accepted on a screen that shows a line of text.

An answer that no button gave is the text that the user typed last, accepted after it was typed
and, if there is a validator, judged to be good. That is the safety of acceptance, and it holds
although the text, its verdict, the check in flight and the waiting acceptance change under two
hands, the user's and the check's.

Safety alone would be met by a screen that never accepts anything. An acceptance is not lost
either: one that came while its text was being checked is redeemed in the very turn in which the
check answers, unless the text was changed in between.

A screen may be asked more than once, copied and restored, so both are stated about a screen with
a past.
-/

set_option autoImplicit false

namespace Interview

open Control (Event)
open Story (told)

namespace Screen

variable {valid : Option Validator} {ms : Story} {s : Screen} {w : Session} {id : Nat}

/-! ## The turn that redeems -/

/-- A text that was judged to be good is accepted. -/
theorem react_of_good {t : TextEntry} (hs : s.content = .text t) {f : Validator}
    (hf : t.validator = some f) (hchecked : t.checked = some (t.value, none)) {text : String}
    (htext : t.value = text) :
    ∃ s' w', s.react id .accept w = .ends (.done (.value (.text text))) s' w' := by
  unfold Screen.react
  rw [handle_accept_known hs hf hchecked, htext]
  exact ⟨_, _, rfl⟩

/-- Nothing but a look finds the answer of a check. -/
theorem not_judged_of_mem_rest {found : Look} {text : String}
    {verdict : Except Failure (Option String)} : .judged text verdict ∉ rest id found s w := by
  have htold : ∀ acts, Moment.judged text verdict ∉ told acts := by
    intro acts hm
    obtain ⟨message, hmessage⟩ := Story.exists_of_mem_told hm
    exact absurd hmessage (by simp)
  unfold rest
  split
  · exact List.not_mem_nil
  · exact htold _
  · split
    · exact fun hm => htold _ (List.mem_of_ne_of_mem (by simp) hm)
    · exact List.not_mem_nil

/-- The answer of a check is what a turn begins with. -/
theorem eq_nil_of_turnStory {t : TextEntry} (hs : s.content = .text t) {before after : Story}
    {text : String} {verdict : Except Failure (Option String)}
    (h : s.turnStory id w = before ++ .judged text verdict :: after) :
    before = [] ∧ t.answer = [.judged text verdict] := by
  have hlooks := t.looks_look
  unfold turnStory at h
  simp only [hs, Content.look, Content.answer] at h
  generalize t.answer = answer at hlooks h ⊢
  generalize t.look = looked at hlooks h
  have hrest : .judged text verdict ∉ told looked.1 ++
      rest id looked.2.2 { s with content := .text looked.2.1 } (perform id looked.1 w) := by
    intro hm
    rcases List.mem_append.mp hm with hm | hm
    · obtain ⟨message, hmessage⟩ := Story.exists_of_mem_told hm
      exact absurd hmessage (by simp)
    · exact not_judged_of_mem_rest hm
  rw [List.append_assoc] at h
  have hmem : .judged text verdict ∈ before ++ .judged text verdict :: after :=
    List.mem_append_right _ List.mem_cons_self
  have hcases : answer = [] ∨ ∃ x, answer = [x] := by
    cases hlooks with
    | idle => exact Or.inl rfl
    | silent => exact Or.inl rfl
    | fails => exact Or.inr ⟨_, rfl⟩
    | answers => exact Or.inr ⟨_, rfl⟩
  rcases hcases with rfl | ⟨x, rfl⟩
  · rw [← h] at hmem
    exact absurd hmem hrest
  · rcases before with _ | ⟨y, before⟩
    · exact ⟨rfl, by rw [(List.cons.inj h).1]⟩
    · rw [List.singleton_append, List.cons_append, List.cons.injEq] at h
      rw [h.2] at hrest
      exact absurd (List.mem_append_right _ List.mem_cons_self) hrest

/-- **The turn in which the check answers** redeems the acceptance that stands. -/
theorem turn_redeems (h : s.Holds (TextEntry.Tracks valid) ms) (haccepted : ms.accepted = true)
    {text : String} (htext : text = ms.typed) {after : Story}
    (hstory : s.turnStory id w = .judged text (.ok none) :: after) :
    (∃ s' w', s.turn id w = .ends (.done (.value (.text text))) s' w') ∧
      ∀ m ∈ after, ∃ message, m = .told message := by
  obtain ⟨t, hs, ht⟩ := h
  obtain ⟨-, hanswer⟩ := eq_nil_of_turnStory hs (hstory.trans (List.nil_append _).symm)
  have hlook := ht.look
  have hreplay := ht.look_replay
  have hlooks := t.looks_look
  unfold turnStory at hstory
  unfold Screen.turn
  simp only [hs, Content.look, Content.answer] at hstory ⊢
  rw [hanswer] at hlook hlooks hreplay hstory
  generalize t.look = looked at hlook hreplay hlooks hstory ⊢
  cases hlooks with
  | @answers p verdict hp hv =>
      -- the answer is about the current text, so the acceptance waits for it
      have hwaits : t.acceptWaits = true := (ht.waits p hp).mpr ⟨haccepted, htext⟩
      simp only [hwaits, if_true] at hlook hreplay hstory ⊢
      obtain ⟨-, ⟨f, hf⟩, verdict, hchecked, heq⟩ := hreplay trivial
      obtain ⟨-, rfl⟩ : p.text = ms.typed ∧ none = verdict := by simpa using heq
      refine ⟨?_, ?_⟩
      · exact react_of_good rfl (hlook.validator.trans hf) hchecked (ht.value.trans htext.symm)
      · rw [List.append_assoc, List.singleton_append, List.cons.injEq] at hstory
        intro m hm
        rw [← hstory.2] at hm
        rcases List.mem_append.mp hm with hm | hm
        · exact Story.exists_of_mem_told hm
        · exact Story.exists_of_mem_told hm

/-! ## Being asked -/

/-- **No acceptance is lost in a conversation.** -/
theorem converse_redeems {n : Nat} (h : s.Holds (TextEntry.Tracks valid) ms) {before after : Story}
    (haccepted : (ms ++ before).accepted = true)
    (hstory : s.story id n w =
      before ++ .judged (ms ++ before).typed (.ok none) :: after) :
    (s.converse id n w).1 = .done (.value (.text (ms ++ before).typed)) ∧
      ∀ m ∈ after, ∃ message, m = .told message := by
  induction n generalizing s w ms before with
  | zero => exact absurd hstory (by simp [story])
  | succ n ih =>
      have hturn := h.turn (TextEntry.tracks_invariant valid) id w
      have hbefore : ∀ {before after text verdict},
          s.turnStory id w = before ++ .judged text verdict :: after → before = [] :=
        h.elim fun t ht heq => (eq_nil_of_turnStory ht.1 heq).1
      rw [story] at hstory
      rw [Screen.converse]
      rcases List.append_eq_append_iff.mp hstory with ⟨before, rfl, hlater⟩ | ⟨own, hown, hlater⟩
      · -- the check answers later in the conversation
        rw [← List.append_assoc] at haccepted hlater ⊢
        rcases heq : s.turn id w with ⟨s', w'⟩ | ⟨o, s', w'⟩
        · rw [heq] at hturn hlater
          exact ih hturn haccepted hlater
        · rw [heq] at hlater
          exact absurd hlater (by simp)
      · rcases own with _ | ⟨m, own⟩
        · -- the check answers in the very next turn
          rw [List.append_nil] at hown
          rw [← hown] at haccepted hlater ⊢
          rcases heq : s.turn id w with ⟨s', w'⟩ | ⟨o, s', w'⟩
          · rw [heq] at hturn hlater
            rw [← List.append_nil (ms ++ _)] at haccepted ⊢
            rw [← List.append_nil (ms ++ _)] at hlater
            exact ih hturn haccepted hlater.symm
          · rw [heq] at hlater
            exact absurd hlater (by simp)
        · -- the check answers in this turn
          rw [List.cons_append, List.cons.injEq] at hlater
          obtain ⟨rfl, rfl⟩ := hlater
          obtain rfl := hbefore hown
          rw [List.append_nil] at haccepted hown ⊢
          obtain ⟨⟨s', w', heq⟩, htold⟩ := turn_redeems h haccepted rfl hown
          rw [heq, List.append_nil]
          exact ⟨rfl, htold⟩

/-- A message greets, and nothing else. -/
theorem exists_of_mem_greeting {m : Moment} (hm : m ∈ s.greeting) :
    ∃ message, m = .told message := by
  unfold greeting at hm
  split at hm
  · exact absurd hm List.not_mem_nil
  · exact Story.exists_of_mem_told hm

/-- **No acceptance is lost while a screen is asked.** -/
theorem ask_redeems (h : s.Holds (TextEntry.Tracks valid) ms) {n : Nat} {before after : Story}
    (haccepted : (ms ++ before).accepted = true)
    (hstory : s.askStory n w = before ++ .judged (ms ++ before).typed (.ok none) :: after) :
    (s.ask n w).1 = .done (.value (.text (ms ++ before).typed)) ∧
      ∀ m ∈ after, ∃ message, m = .told message := by
  unfold askStory at hstory
  unfold Screen.ask
  split
  · rename_i hdisposed
    rw [if_pos hdisposed] at hstory
    exact absurd hstory (by simp)
  · rename_i hdisposed
    rw [if_neg hdisposed] at hstory
    simp only at hstory ⊢
    rcases List.append_eq_append_iff.mp hstory with ⟨before, rfl, hlater⟩ | ⟨own, hown, hlater⟩
    · rw [← List.append_assoc] at haccepted hlater ⊢
      exact converse_redeems (h.appear (TextEntry.tracks_invariant valid) w) haccepted hlater
    · rcases own with _ | ⟨m, own⟩
      · rw [List.append_nil] at hown
        rw [← hown, ← List.append_nil (ms ++ _)] at haccepted hlater ⊢
        exact converse_redeems (h.appear (TextEntry.tracks_invariant valid) w) haccepted hlater.symm
      · -- the greeting has no answers
        rw [List.cons_append, List.cons.injEq] at hlater
        obtain ⟨message, hmessage⟩ := exists_of_mem_greeting (s := s) (m := m)
          (hown ▸ List.mem_append_right _ List.mem_cons_self)
        rw [← hlater.1] at hmessage
        exact absurd hmessage (by simp)

/-! ## What is accepted -/

/-- What is promised about the outcome of a screen with a line of text, given what happened before
it was asked and while it was. -/
structure AcceptsRightly (valid : Option Validator) (past own : Story)
    (o : Outcome (Reply Json)) : Prop where
  /-- An answer that no click gave is the current text. It was accepted after its last change, and a
  check of it, which the validator made, found nothing to refuse. -/
  answer : ∀ v, o = .done (.value v) → ¬ own.EndsInClick →
    v = .text (past ++ own).typed ∧
      (∃ before after, past ++ own = before ++ .event .accept :: after ∧
        ∀ m ∈ after, m.changes = false) ∧
      ∀ f, valid = some f → .judged (past ++ own).typed (.ok none) ∈ past ++ own ∧
        ∃ k, (f k (past ++ own).typed).verdict = .ok none
  /-- An acceptance that is followed by the good verdict on the text, without a change in between,
  settles the question there and then. -/
  redeemed : ∀ before between after,
    own = before ++ .event .accept :: between ++
      .judged (past ++ before).typed (.ok none) :: after →
    (∀ m ∈ between, m.changes = false) →
      o = .done (.value (.text (past ++ before).typed)) ∧
        ∀ m ∈ after, ∃ message, m = .told message
  /-- After a change, an acceptance that came before it settles nothing. -/
  withdrawn : ∀ before text after, own = before ++ .event (.changed text) :: after →
    .event .accept ∉ after → ∀ v, o = .done (.value v) → own.EndsInClick

/-- **Only a checked text is accepted, and no acceptance is lost.** This holds for every screen with
a line of text, whatever it has gone through before, for every validator with every delay and
outcome of its checks, and for every user. What the story has of events and messages is what the
transcript has of the control. -/
theorem acceptsRightly_of_ask (h : Lived valid s ms) (n : Nat) (w : Session) :
    AcceptsRightly valid ms (s.askStory n w) (s.ask n w).1 ∧
      (s.ask n w).2.2.seen (s.appear w).1 =
        w.seen (s.appear w).1 ++ (s.askStory n w).filter Moment.isSeen := by
  have hholds := h.holds (TextEntry.tracks_invariant valid)
  obtain ⟨⟨t, -, ht⟩, hexplained⟩ := hholds.ask (TextEntry.tracks_invariant valid) n w
  have hanswered : ∀ v, (s.ask n w).1 = .done (.value v) →
      (s.askStory n w).EndsInClick ∨ (v = .text (ms ++ s.askStory n w).typed ∧
        (ms ++ s.askStory n w).accepted = true ∧
          ∀ f, valid = some f → .judged (ms ++ s.askStory n w).typed (.ok none) ∈
            ms ++ s.askStory n w) := by
    intro v hv
    rcases hdisposed : s.disposed with _ | _
    · exact (hexplained hdisposed).value v hv
    · exact absurd hv (ask_ne_value hdisposed n w v)
  refine ⟨⟨fun v hv hclick => ?_, fun before between after hown hbetween => ?_,
    fun before text after hown hafter v hv => ?_⟩, seen_ask h n w⟩
  · rcases hanswered v hv with hends | ⟨hv, haccepted, hjudged⟩
    · exact absurd hends hclick
    · refine ⟨hv, Story.exists_accept haccepted, fun f hf => ⟨hjudged f hf, ?_⟩⟩
      obtain ⟨g, k, hg, hverdict⟩ := ht.judged _ _ (hjudged f hf)
      rw [hf, Option.some.injEq] at hg
      exact ⟨k, by rw [hg, hverdict]⟩
  · -- neither the acceptance nor what came after it changed the text
    have htyped : (ms ++ (before ++ .event .accept :: between)).typed = (ms ++ before).typed := by
      rw [← List.append_assoc, List.append_cons, Story.typed_append _ hbetween,
        Story.typed_concat]
      rfl
    have haccepted : (ms ++ (before ++ .event .accept :: between)).accepted = true := by
      rw [← List.append_assoc, List.append_cons]
      refine Story.accepted_append ?_ hbetween
      rw [Story.accepted_concat]
      rfl
    rw [← htyped] at hown ⊢
    exact ask_redeems hholds haccepted hown
  · rcases hanswered v hv with hends | ⟨-, haccepted, -⟩
    · exact hends
    · -- nothing was accepted after the change
      rw [hown, ← List.append_assoc, List.append_cons] at haccepted
      rw [Story.not_accepted_append ?_ hafter] at haccepted
      · exact absurd haccepted (by simp)
      · rw [Story.accepted_concat]
        simp [Moment.accepted, Moment.accepts, Moment.changes]

/-- A validator that takes its time, and refuses the empty text. -/
def unhurried : Validator := fun _ text =>
  ⟨[], .after 1, .ok (if text = "" then some "empty" else none)⟩

/-- A line of text with a validator that takes its time. -/
def unhurriedLine : Screen :=
  .new .english (.text { TextEntry.new with validator := some unhurried })

theorem lived_unhurriedLine : Lived (some unhurried) unhurriedLine [.begun "" none] :=
  Lived.fresh (t := { TextEntry.new with validator := some unhurried }) rfl rfl rfl rfl

/-- The user types and accepts, and the check answers only then. -/
theorem acceptsRightly_of_unhurried :
    let w := Session.new (.rehearsal [[.changed "a", .accept]])
    AcceptsRightly (some unhurried) [.begun "" none] (unhurriedLine.askStory 3 w)
        (unhurriedLine.ask 3 w).1 ∧
      (unhurriedLine.ask 3 w).2.2.seen 0 = [.event (.changed "a"), .event .accept] ∧
      unhurriedLine.askStory 3 w =
        [.event (.changed "a"), .event .accept, .judged "a" (.ok none)] ∧
      (unhurriedLine.ask 3 w).1 = .done (.value (.text "a")) := by
  intro w
  obtain ⟨haccepts, hseen⟩ := acceptsRightly_of_ask lived_unhurriedLine 3 w
  exact ⟨haccepts, hseen, rfl, rfl⟩

end Screen

end Interview
