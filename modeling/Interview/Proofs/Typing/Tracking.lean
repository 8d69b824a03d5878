import Interview.Proofs.Answers.Contents
import Interview.Proofs.Typing.Stories
/-
Lines of text keep track of their stories.

What a line of text stores is a summary of its story: the text, the text that was judged last
with its verdict, the check in flight, and whether an acceptance waits for that check. Two facts
make the summary work. The check in flight is never of the text that was judged last, so that
its answer is always news. And an acceptance waits exactly when it came after the last change
and the check in flight is of the current text, so that it falls due with the right answer and
with no other.

Every operation keeps track, whatever the order in which events and answers come.
-/

set_option autoImplicit false

namespace Interview

open Control (Event)
open Story (told)

namespace TextEntry

variable {valid : Option Validator} {ms : Story} {t : TextEntry}

/-- The line of text is up to date with its story. -/
structure Tracks (valid : Option Validator) (ms : Story) (t : TextEntry) : Prop where
  validator : t.validator = valid
  value : t.value = ms.typed
  judgedLast : t.checked.map Prod.fst = ms.judgedLast
  checked : ∀ text verdict, t.checked = some (text, verdict) → .judged text (.ok verdict) ∈ ms
  /-- The check in flight is one of the validator, and not of the text that was judged last. -/
  pending : ∀ p, t.pending = some p → ms.judgedLast ≠ some p.text ∧
    ∃ f k, valid = some f ∧ p.verdict = (f k p.text).verdict
  /-- An acceptance waits if it stands and the check in flight is of the current text. -/
  waits : ∀ p, t.pending = some p →
    (t.acceptWaits = true ↔ ms.accepted = true ∧ p.text = ms.typed)
  judged : ∀ text verdict, .judged text verdict ∈ ms →
    ∃ f k, valid = some f ∧ verdict = (f k text).verdict

/-- What is on display does not matter to a line of text. -/
theorem Tracks.shown (h : t.Tracks valid ms) (message : Option String) :
    Tracks valid ms { t with shown := message } :=
  ⟨h.validator, h.value, h.judgedLast, h.checked, h.pending, h.waits, h.judged⟩

theorem Tracks.told (h : t.Tracks valid ms) (acts : List Act) :
    t.Tracks valid (ms ++ told acts) where
  validator := h.validator
  value := by rw [Story.typed_told, h.value]
  judgedLast := by rw [Story.judgedLast_told, h.judgedLast]
  checked text verdict hc := List.mem_append_left _ (h.checked text verdict hc)
  pending := by simpa only [Story.judgedLast_told] using h.pending
  waits := by simpa only [Story.accepted_told, Story.typed_told] using h.waits
  judged text verdict hm := by
    rcases List.mem_append.mp hm with hm | hm
    · exact h.judged text verdict hm
    · obtain ⟨message, hmessage⟩ := Story.exists_of_mem_told hm
      exact absurd hmessage (by simp)

/-- The text that is checked already is not judged yet. -/
theorem Tracks.text_ne (h : t.Tracks valid ms) {verdict : Option String}
    (hchecked : t.checked = some (t.value, verdict)) {p : PendingCheck} (hp : t.pending = some p) :
    p.text ≠ ms.typed := by
  intro htext
  have hlast := h.judgedLast
  rw [hchecked, Option.map_some] at hlast
  exact (h.pending p hp).1 (by rw [← hlast, htext, h.value])

/-! ## Judging -/

/-- The ways in which the current text comes by its verdict. -/
inductive Judges (t : TextEntry) : List Act × TextEntry × Option (Option String) → Prop
  /-- Without a validator every text is good. -/
  | unchecked (validator : t.validator = none) :
      Judges t ((t.display none).1, { t with shown := none }, some none)
  /-- The text is the one that was judged last. -/
  | known {f : Validator} {verdict : Option String} (validator : t.validator = some f)
      (checked : t.checked = some (t.value, verdict)) :
      Judges t ((t.display verdict).1, { t with shown := verdict }, some verdict)
  /-- The text is being checked. -/
  | underway {f : Validator} {p : PendingCheck} (validator : t.validator = some f)
      (pending : t.pending = some p) (text : p.text = t.value) : Judges t ([], t, none)
  /-- A check of the text begins. -/
  | begins {f : Validator} (validator : t.validator = some f)
      (checked : t.checked.map Prod.fst ≠ some t.value) :
      Judges t ((t.beginCheck f).1, (t.beginCheck f).2, none)

theorem judges_underway {f : Validator} (hf : t.validator = some f)
    (hchecked : t.checked.map Prod.fst ≠ some t.value) : Judges t (judge.underway t f) := by
  unfold judge.underway
  split
  · rename_i hany
    obtain ⟨p, hp, htext⟩ : ∃ p, t.pending = some p ∧ p.text = t.value := by
      simpa [Option.any_eq_true] using hany
    exact .underway hf hp htext
  · exact .begins hf hchecked

theorem judges_judge (t : TextEntry) : Judges t t.judge := by
  unfold TextEntry.judge
  split
  · rename_i hf
    simp only [display_snd]
    exact .unchecked hf
  · rename_i f hf
    split
    · rename_i text verdict hchecked
      split
      · rename_i htext
        simp only [display_snd]
        exact .known hf (htext ▸ hchecked)
      · rename_i htext
        exact judges_underway hf (by simpa [hchecked] using htext)
    · rename_i hchecked
      exact judges_underway hf (by simp [hchecked])

/-- A new check is of the current text. An acceptance waits for it if one waited before. -/
theorem Tracks.beginCheck (h : t.Tracks valid ms) {f : Validator} (hf : t.validator = some f)
    (hchecked : t.checked.map Prod.fst ≠ some t.value)
    (hwaits : t.acceptWaits = ms.accepted) : (t.beginCheck f).2.Tracks valid ms where
  validator := h.validator
  value := h.value
  judgedLast := h.judgedLast
  checked := h.checked
  pending p hp := by
    obtain rfl := Option.some.inj hp
    exact ⟨h.judgedLast ▸ hchecked, f, t.checks, h.validator ▸ hf, rfl⟩
  waits p hp := by
    obtain rfl := Option.some.inj hp
    rw [← hwaits]
    exact ⟨fun hw => ⟨hw, h.value⟩, And.left⟩
  judged := h.judged

/-! ## Looking -/

/-- The ways in which a look at the check in flight goes. -/
inductive Looks (t : TextEntry) : Story → List Act × TextEntry × Look → Prop
  /-- No check is in flight. -/
  | idle (pending : t.pending = none) : Looks t [] ([], t, .await)
  /-- The check has not answered yet. -/
  | silent {p : PendingCheck} (pending : t.pending = some p) :
      Looks t [] ([], { t with pending := some { p with delay := p.delay.wait } }, .await)
  /-- The check could not be made. -/
  | fails {p : PendingCheck} {f : Failure} (pending : t.pending = some p)
      (verdict : p.verdict = .error f) :
      Looks t [.judged p.text (.error f)]
        ([.call (.setBusy false)], { t with pending := none }, .failed f)
  /-- The check answers. -/
  | answers {p : PendingCheck} {verdict : Option String} (pending : t.pending = some p)
      (verdict_eq : p.verdict = .ok verdict) :
      Looks t [.judged p.text (.ok verdict)]
        (.call (.setBusy false) ::
            (display { t with pending := none, checked := some (p.text, verdict) } verdict).1,
          { t with
            pending := none
            checked := some (p.text, verdict)
            shown := verdict
            acceptWaits := false },
          if t.acceptWaits then .replay else .await)

theorem looks_look (t : TextEntry) : Looks t t.answer t.look := by
  unfold TextEntry.answer TextEntry.look
  rcases hp : t.pending with _ | p
  · exact .idle hp
  · simp only
    by_cases hover : p.delay.isOver = true
    · rw [if_pos hover, if_pos hover]
      rcases hv : p.verdict with f | verdict
      · exact .fails hp hv
      · simp only [display_snd]
        exact .answers hp hv
    · rw [if_neg hover, if_neg hover]
      exact .silent hp

/-- The answer of the check in flight is one of the validator. -/
theorem Tracks.judged_concat (h : t.Tracks valid ms) {p : PendingCheck} (hp : t.pending = some p)
    (text : String) (verdict : Except Failure (Option String))
    (hm : .judged text verdict ∈ ms ++ [.judged p.text p.verdict]) :
    ∃ f k, valid = some f ∧ verdict = (f k text).verdict := by
  rcases List.mem_append.mp hm with hm | hm
  · exact h.judged text verdict hm
  · obtain ⟨rfl, rfl⟩ := Moment.judged.inj (List.mem_singleton.mp hm)
    exact (h.pending p hp).2

/-- **A look keeps track**, and notes the answer. -/
theorem Tracks.look (h : t.Tracks valid ms) :
    t.look.2.1.Tracks valid (ms ++ t.answer ++ Story.told t.look.1) := by
  apply Tracks.told
  have hlooks := looks_look t
  generalize t.answer = answer at hlooks ⊢
  generalize t.look = found at hlooks ⊢
  cases hlooks with
  | idle hp => exact (List.append_nil ms).symm ▸ h
  | @silent p hp =>
      rw [List.append_nil]
      refine ⟨h.validator, h.value, h.judgedLast, h.checked, ?_, ?_, h.judged⟩
      · intro q hq
        obtain rfl := Option.some.inj hq
        exact h.pending p hp
      · intro q hq
        obtain rfl := Option.some.inj hq
        exact h.waits p hp
  | @fails p f hp hv =>
      refine ⟨h.validator, ?_, ?_, ?_, fun q hq => absurd hq (by simp),
        fun q hq => absurd hq (by simp), ?_⟩
      · rw [Story.typed_concat]
        exact h.value
      · rw [Story.judgedLast_concat]
        exact h.judgedLast
      · exact fun text verdict hc => List.mem_append_left _ (h.checked text verdict hc)
      · exact hv ▸ h.judged_concat hp
  | @answers p verdict hp hv =>
      refine ⟨h.validator, ?_, ?_, ?_, fun q hq => absurd hq (by simp),
        fun q hq => absurd hq (by simp), ?_⟩
      · rw [Story.typed_concat]
        exact h.value
      · rw [Story.judgedLast_concat]
        rfl
      · intro text verdict' hc
        obtain ⟨rfl, rfl⟩ := Prod.mk.inj (Option.some.inj hc)
        exact List.mem_append_right _ (List.mem_singleton.mpr rfl)
      · exact hv ▸ h.judged_concat hp

/-- An acceptance that falls due finds the verdict on the current text. -/
theorem Tracks.look_replay (h : t.Tracks valid ms) (hreplay : t.look.2.2 = .replay) :
    ms.accepted = true ∧ (∃ f, valid = some f) ∧
      ∃ verdict, t.look.2.1.checked = some (t.look.2.1.value, verdict) ∧
        t.answer = [.judged ms.typed (.ok verdict)] := by
  have hlooks := looks_look t
  generalize t.answer = answer at hlooks ⊢
  generalize t.look = found at hlooks hreplay ⊢
  cases hlooks with
  | idle => exact absurd hreplay (by simp)
  | silent => exact absurd hreplay (by simp)
  | fails => exact absurd hreplay (by simp)
  | @answers p verdict hp hv =>
      have hwaits : t.acceptWaits = true := by
        rcases hw : t.acceptWaits with _ | _
        · simp [hw] at hreplay
        · rfl
      obtain ⟨haccepted, htext⟩ := (h.waits p hp).mp hwaits
      obtain ⟨-, f, -, hf, -⟩ := h.pending p hp
      exact ⟨haccepted, ⟨f, hf⟩, verdict, by rw [htext, h.value], by rw [htext]⟩

/-- A look fails with the failure of the check in flight. -/
theorem look_failed {f : Failure} (hfailed : t.look.2.2 = .failed f) :
    ∃ text, t.answer ++ Story.told t.look.1 = [.judged text (.error f)] := by
  have hlooks := looks_look t
  generalize t.answer = answer at hlooks ⊢
  generalize t.look = found at hlooks hfailed ⊢
  cases hlooks with
  | idle => exact absurd hfailed (by simp)
  | silent => exact absurd hfailed (by simp)
  | @fails p f' hp hv =>
      obtain rfl := Look.failed.inj hfailed
      exact ⟨p.text, rfl⟩
  | answers =>
      simp only at hfailed
      split at hfailed
      · exact absurd hfailed (by simp)
      · exact absurd hfailed (by simp)

/-! ## Events -/

/-- Giving up the check in flight does no harm. -/
theorem Tracks.idle (h : t.Tracks valid ms) (waits : Bool) :
    Tracks valid ms { t with pending := none, acceptWaits := waits } :=
  ⟨h.validator, h.value, h.judgedLast, h.checked, fun _ hp => absurd hp (by simp),
    fun _ hp => absurd hp (by simp), h.judged⟩

/-- A moment that is about none of the readings can be added to the story. -/
theorem Tracks.concat (h : t.Tracks valid ms) {m : Moment} (htext : m.text ms.typed = ms.typed)
    (hlast : m.judgedLast ms.judgedLast = ms.judgedLast)
    (haccepted : m.accepted ms.accepted = ms.accepted)
    (hjudged : ∀ text verdict, m ≠ .judged text verdict) : t.Tracks valid (ms ++ [m]) where
  validator := h.validator
  value := by rw [Story.typed_concat, htext, h.value]
  judgedLast := by rw [Story.judgedLast_concat, hlast, h.judgedLast]
  checked text verdict hc := List.mem_append_left _ (h.checked text verdict hc)
  pending := by simpa only [Story.judgedLast_concat, hlast] using h.pending
  waits := by simpa only [Story.accepted_concat, Story.typed_concat, htext, haccepted] using h.waits
  judged text verdict hm := by
    rcases List.mem_append.mp hm with hm | hm
    · exact h.judged text verdict hm
    · exact absurd (List.mem_singleton.mp hm).symm (hjudged text verdict)

/-- The text is replaced: no acceptance waits, for none stands. -/
theorem Tracks.changed (h : t.Tracks valid ms) (text : String) :
    Tracks valid (ms ++ [.event (.changed text)])
      { t with value := text, acceptWaits := false } where
  validator := h.validator
  value := by rw [Story.typed_concat]; rfl
  judgedLast := by rw [Story.judgedLast_concat]; exact h.judgedLast
  checked s verdict hc := List.mem_append_left _ (h.checked s verdict hc)
  pending p hp := by rw [Story.judgedLast_concat]; exact h.pending p hp
  waits p _ := by
    rw [Story.accepted_concat]
    simp [Moment.accepted, Moment.accepts, Moment.changes]
  judged s verdict hm := by
    rcases List.mem_append.mp hm with hm | hm
    · exact h.judged s verdict hm
    · exact absurd (List.mem_singleton.mp hm) (by simp)

theorem Tracks.judge (h : t.Tracks valid ms) (hwaits : t.acceptWaits = ms.accepted) :
    t.judge.2.1.Tracks valid ms := by
  have hjudges := judges_judge t
  generalize t.judge = judged at hjudges ⊢
  cases hjudges with
  | unchecked => exact h.shown none
  | known => exact h.shown _
  | underway => exact h
  | begins hf hchecked => exact h.beginCheck hf hchecked hwaits

/-- An acceptance has the text judged, and is perhaps noted as waiting. -/
theorem handle_accept (t : TextEntry) : (t.handle .accept).1 = t.judge.1 ∧
    ∃ b, (t.handle .accept).2.1 = { t.judge.2.1 with acceptWaits := b } := by
  unfold TextEntry.handle
  rcases t.judge with ⟨acts, t', verdict⟩
  rcases verdict with _ | _ | message
  · exact ⟨rfl, true, rfl⟩
  · exact ⟨rfl, t'.acceptWaits, rfl⟩
  · exact ⟨rfl, t'.acceptWaits, rfl⟩

/-- Accepting a text that has its verdict settles the question, or does not. -/
theorem handle_accept_known {f : Validator} {verdict : Option String} (hf : t.validator = some f)
    (hchecked : t.checked = some (t.value, verdict)) :
    t.handle .accept = ((t.display verdict).1, { t with shown := verdict },
      if verdict.isNone then some (.value (.text t.value)) else none) := by
  have hjudge : t.judge = ((t.display verdict).1, { t with shown := verdict }, some verdict) := by
    unfold TextEntry.judge
    simp only [hf, hchecked, if_true, display_snd]
  unfold TextEntry.handle
  rw [hjudge]
  rcases verdict with _ | message
  · rfl
  · rfl

/-- An acceptance comes. The check in flight may be given up, and whether the acceptance waits is
settled for the check that is left. -/
theorem Tracks.concat_accept (h : t.Tracks valid ms) {pending : Option PendingCheck} {waits : Bool}
    {shown : Option String} (hpending : ∀ p, pending = some p → t.pending = some p)
    (hwaits : ∀ p, pending = some p → (waits = true ↔ p.text = ms.typed)) :
    Tracks valid (ms ++ [.event .accept]) { t with pending, acceptWaits := waits, shown } where
  validator := h.validator
  value := by rw [Story.typed_concat]; exact h.value
  judgedLast := by rw [Story.judgedLast_concat]; exact h.judgedLast
  checked text verdict hc := List.mem_append_left _ (h.checked text verdict hc)
  pending p hp := by rw [Story.judgedLast_concat]; exact h.pending p (hpending p hp)
  waits p hp := by
    rw [Story.accepted_concat, Story.typed_concat]
    simpa [Moment.accepted, Moment.accepts, Moment.changes, Moment.text] using hwaits p hp
  judged text verdict hm := by
    rcases List.mem_append.mp hm with hm | hm
    · exact h.judged text verdict hm
    · exact absurd (List.mem_singleton.mp hm) (by simp)

/-- The acceptance is noted as waiting for the check of the current text, unless the text has its
verdict. -/
theorem Tracks.accept (h : t.Tracks valid ms) :
    (t.handle .accept).2.1.Tracks valid (ms ++ [.event .accept]) := by
  have hjudges := judges_judge t
  unfold TextEntry.handle
  generalize t.judge = judged at hjudges ⊢
  cases hjudges with
  | unchecked hf =>
      refine h.concat_accept (fun _ => id) fun p hp => ?_
      obtain ⟨-, f, -, hvalid, -⟩ := h.pending p hp
      rw [h.validator, hvalid] at hf
      exact absurd hf (by simp)
  | @known f verdict hf hchecked =>
      -- a check in flight is of another text, and no acceptance waits for it
      have hknown : Tracks valid (ms ++ [.event .accept]) { t with shown := verdict } :=
        h.concat_accept (fun _ => id) fun p hp =>
          ⟨fun hw => ((h.waits p hp).mp hw).2, fun htext => absurd htext (h.text_ne hchecked hp)⟩
      rcases verdict with _ | message
      · exact hknown
      · exact hknown
  | @underway f p hf hp htext =>
      refine h.concat_accept (fun _ => id) fun q hq => ?_
      rw [hp] at hq
      obtain rfl := Option.some.inj hq
      exact ⟨fun _ => htext.trans h.value, fun _ => rfl⟩
  | begins hf hchecked =>
      -- the check in flight is replaced, so it does not matter which one it was
      have hidle : Tracks valid (ms ++ [.event .accept])
          { t with pending := none, acceptWaits := true } :=
        h.concat_accept (fun _ hp => absurd hp (by simp)) fun _ hp => absurd hp (by simp)
      have haccepted : Story.accepted (ms ++ [.event .accept]) = true := by
        rw [Story.accepted_concat]
        rfl
      exact hidle.beginCheck hf hchecked haccepted.symm

/-- **An event keeps track.** -/
theorem Tracks.handle (h : t.Tracks valid ms) (e : Event) :
    (t.handle e).2.1.Tracks valid (ms ++ .event e :: Story.told (t.handle e).1) := by
  rw [List.append_cons]
  apply Tracks.told
  rcases e with text | places | _ | _ | i
  · have hchanged := h.changed text
    have hnone : Story.accepted (ms ++ [.event (.changed text)]) = false := by
      rw [Story.accepted_concat]
      simp [Moment.accepted, Moment.accepts, Moment.changes]
    by_cases heager : t.eager = true
    · simp only [TextEntry.handle, if_pos heager]
      exact hchanged.judge hnone.symm
    · simp only [TextEntry.handle, if_neg heager, display_snd]
      exact (hchanged.idle false).shown none
  · exact h.concat rfl rfl (by simp [Moment.accepted, Moment.accepts, Moment.changes]) (by simp)
  · exact h.accept
  · exact h.concat rfl rfl (by simp [Moment.accepted, Moment.accepts, Moment.changes]) (by simp)
  · exact h.concat rfl rfl (by simp [Moment.accepted, Moment.accepts, Moment.changes]) (by simp)

/-- **What settles the question** is an acceptance of the current text, and the text was judged to
be good. -/
theorem Tracks.reply (h : t.Tracks valid ms) {e : Event} {r : Reply Json}
    (hr : (t.handle e).2.2 = some r) :
    e = .accept ∧ r = .value (.text ms.typed) ∧
      ∀ f, valid = some f → .judged ms.typed (.ok none) ∈ ms := by
  unfold TextEntry.handle at hr
  split at hr
  · simp only at hr
    split at hr
    · exact absurd hr (by simp)
    · exact absurd hr (by simp)
  · refine ⟨rfl, ?_⟩
    have hjudges := judges_judge t
    generalize t.judge = judged at hjudges hr
    cases hjudges with
    | unchecked hf =>
        refine ⟨?_, fun f hvalid => ?_⟩
        · rw [← h.value]
          exact (Option.some.inj hr).symm
        · rw [h.validator, hvalid] at hf
          exact absurd hf (by simp)
    | @known f verdict hf hchecked =>
        rcases verdict with _ | message
        · refine ⟨?_, fun f hvalid => ?_⟩
          · rw [← h.value]
            exact (Option.some.inj hr).symm
          · rw [← h.value]
            exact h.checked _ _ hchecked
        · exact absurd hr (by simp)
    | underway => exact absurd hr (by simp)
    | begins => exact absurd hr (by simp)
  · exact absurd hr (by simp)

/-! ## Starting, copying and restoring -/

/-- A line of text that nothing happened to. -/
theorem tracks_fresh (hchecked : t.checked = none) (hpending : t.pending = none) :
    t.Tracks t.validator [.begun t.value t.reproach] where
  validator := rfl
  value := rfl
  judgedLast := by rw [hchecked]; rfl
  checked _ _ hc := absurd hc (by simp [hchecked])
  pending _ hp := absurd hp (by simp [hpending])
  waits _ hp := absurd hp (by simp [hpending])
  judged _ _ hm := absurd (List.mem_singleton.mp hm) (by simp)

theorem Tracks.start (h : t.Tracks valid ms) :
    t.start.2.Tracks valid (ms ++ Story.told t.start.1) := by
  apply Tracks.told
  unfold TextEntry.start
  split
  · rw [display_snd]
    exact ⟨h.validator, h.value, h.judgedLast, h.checked, h.pending, h.waits, h.judged⟩
  · exact h

theorem Tracks.copy (h : t.Tracks valid ms) : t.copy.Tracks valid (ms ++ [.copied]) where
  validator := h.validator
  value := by rw [Story.typed_concat]; exact h.value
  judgedLast := by rw [Story.judgedLast_concat]; exact h.judgedLast
  checked text verdict hc := List.mem_append_left _ (h.checked text verdict hc)
  pending _ hp := absurd hp (by simp [TextEntry.copy])
  waits _ hp := absurd hp (by simp [TextEntry.copy])
  judged text verdict hm := h.judged text verdict (by simpa using hm)

theorem Tracks.restore (h : t.Tracks valid ms) (a : Attempt Json) :
    (t.restore a).Tracks valid (ms ++ [.begun (a.value.text?.getD ms.typed) a.error]) where
  validator := h.validator
  value := by rw [Story.typed_concat, ← h.value]; rfl
  judgedLast := by rw [Story.judgedLast_concat]; rfl
  checked _ _ hc := absurd hc (by simp [TextEntry.restore])
  pending _ hp := absurd hp (by simp [TextEntry.restore])
  waits _ hp := absurd hp (by simp [TextEntry.restore])
  judged text verdict hm := h.judged text verdict (by simpa using hm)

end TextEntry

end Interview
