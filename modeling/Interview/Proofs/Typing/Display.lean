import Interview.Proofs.Controls.Calls
import Interview.Proofs.Terminal.Prompts
import Mathlib.Logic.Function.Iterate
/-
What a line of text has on display.

While a text is being checked the control is busy, and the last refusal is its message. Both are
changed in many places: by a check that begins, answers, fails, or is given up, by a change of the
text, and by an acceptance. It is one rule all the same that each of them keeps to: a call is made
when there is something to change, and only then (`Advances`). So the calls of each kind are a chain
of changes that leads from what a new control shows to what the line of text stands at
(`TextEntry.Accords`).

The message is a matter of trust. What a line of text takes for displayed is remembered beyond the
control that displayed it, so the chain of its messages starts where the new control does only if
the line of text is candid.
-/

set_option autoImplicit false

namespace Interview

open Control (Event Call)

/-! ## Chains of changes -/

/-- Each value is another one than the one before, from the first one on, and this is the last. -/
inductive Changes {α : Type} : α → List α → α → Prop
  | nil (x : α) : Changes x [] x
  | cons {x y z : α} {ys : List α} (change : x ≠ y) (rest : Changes y ys z) : Changes x (y :: ys) z

namespace Changes

variable {α : Type} {x y z : α} {xs ys : List α}

theorem single (h : x ≠ y) : Changes x [y] y :=
  .cons h (.nil y)

theorem append (h : Changes x xs y) (h' : Changes y ys z) : Changes x (xs ++ ys) z := by
  induction h with
  | nil => exact h'
  | cons change _ ih => exact .cons change (ih h')

end Changes

/-- The busyness that a call asks for. -/
def Control.Call.busy? : Call → Option Bool
  | setBusy b => some b
  | _ => none

/-- The message that a call puts on display. -/
def Control.Call.message? : Call → Option (Option String)
  | setMessage message => some message
  | _ => none

/-! ## Lines of text -/

namespace TextEntry

variable {t t' t'' first : TextEntry} {acts more : List Act} {own : List Call}

/-- **The check in flight is the one that was begun last**, and none of the earlier ones is heard of
any more. What is left of its delay are the looks at it that are still to be made. -/
def Newest (t : TextEntry) : Prop :=
  ∀ p, t.pending = some p → ∃ f before looks, t.validator = some f ∧ t.checks = before + 1 ∧
    p.verdict = (f before p.text).verdict ∧ p.delay = Delay.wait^[looks] (f before p.text).delay

theorem newest_of_idle (h : t.pending = none) : t.Newest := by
  intro p hp
  rw [h] at hp
  exact absurd hp (by simp)

/-- The line of text goes on from `t` to `t'` with these acts, which change what is on display as far
as it changes, and call for nothing that is there already. -/
structure Advances (t t' : TextEntry) (acts : List Act) : Prop where
  validator : t'.validator = t.validator
  busy : Changes t.pending.isSome ((Act.calls acts).filterMap Call.busy?) t'.pending.isSome
  message : Changes t.shown ((Act.calls acts).filterMap Call.message?) t'.shown
  newest : t.Newest → t'.Newest

/-- What is neither on display nor about a check does not matter. -/
theorem advances_of_same (hvalidator : t'.validator = t.validator) (hchecks : t'.checks = t.checks)
    (hpending : t'.pending = t.pending) (hshown : t'.shown = t.shown) : Advances t t' [] where
  validator := hvalidator
  busy := hpending ▸ .nil _
  message := hshown ▸ .nil _
  newest h := by
    unfold Newest
    rw [hvalidator, hchecks, hpending]
    exact h

theorem Advances.trans (h : Advances t t' acts) (h' : Advances t' t'' more) :
    Advances t t'' (acts ++ more) where
  validator := h'.validator.trans h.validator
  busy := by
    rw [Act.calls_append, List.filterMap_append]
    exact h.busy.append h'.busy
  message := by
    rw [Act.calls_append, List.filterMap_append]
    exact h.message.append h'.message
  newest hnewest := h'.newest (h.newest hnewest)

theorem Advances.same (h : Advances t t' acts) (hvalidator : t''.validator = t'.validator)
    (hchecks : t''.checks = t'.checks) (hpending : t''.pending = t'.pending)
    (hshown : t''.shown = t'.shown) : Advances t t'' acts :=
  List.append_nil acts ▸ h.trans (advances_of_same hvalidator hchecks hpending hshown)

/-- Notes call for nothing. -/
theorem Advances.noting (h : Advances t t' acts) (notes : List Note) :
    Advances t t' (acts ++ Act.ofNotes notes) := by
  have hcalls : Act.calls (acts ++ Act.ofNotes notes) = Act.calls acts := by simp
  exact ⟨h.validator, hcalls ▸ h.busy, hcalls ▸ h.message, h.newest⟩

theorem advances_display (t : TextEntry) (message : Option String) :
    Advances t { t with shown := message } (t.display message).1 := by
  unfold display
  split
  · rename_i hshown
    exact advances_of_same rfl rfl rfl hshown.symm
  · rename_i hshown
    exact ⟨rfl, .nil _, .single hshown, id⟩

/-- The check in flight is given up, if there is one. -/
theorem advances_giveUp (t : TextEntry) : Advances t { t with pending := none }
    (if t.pending.isSome then [.call (.setBusy false)] else []) := by
  have hnewest : Newest { t with pending := none } := newest_of_idle rfl
  split
  · rename_i hsome
    refine ⟨rfl, ?_, .nil _, fun _ => hnewest⟩
    rw [hsome]
    exact .single (by decide)
  · rename_i hnone
    refine ⟨rfl, ?_, .nil _, fun _ => hnewest⟩
    rw [Bool.eq_false_iff.mpr hnone]
    exact .nil false

theorem advances_beginCheck {f : Validator} (hf : t.validator = some f) :
    Advances t (t.beginCheck f).2 (t.beginCheck f).1 := by
  have hnewest : (t.beginCheck f).2.Newest := by
    intro p hp
    obtain rfl := Option.some.inj hp
    exact ⟨f, t.checks, 0, hf, rfl, rfl, rfl⟩
  have hbegins : Advances t (t.beginCheck f).2
      (if t.pending.isNone then [.call (.setBusy true)] else []) := by
    split
    · rename_i hnone
      refine ⟨rfl, ?_, .nil _, fun _ => hnewest⟩
      rw [Option.isNone_iff_eq_none.mp hnone]
      exact .single (by decide)
    · rename_i hsome
      refine ⟨rfl, ?_, .nil _, fun _ => hnewest⟩
      rw [Option.isSome_iff_ne_none.mpr (mt Option.isNone_iff_eq_none.mpr hsome)]
      exact .nil true
  exact hbegins.noting _

theorem advances_start (t : TextEntry) : Advances t t.start.2 t.start.1 := by
  unfold start
  split
  · have hread : Advances t { t with reproach := none } [] := advances_of_same rfl rfl rfl rfl
    rw [display_snd]
    exact hread.trans (advances_display _ _)
  · exact advances_of_same rfl rfl rfl rfl

theorem advances_judge (t : TextEntry) : Advances t t.judge.2.1 t.judge.1 := by
  have hjudges := judges_judge t
  generalize t.judge = judged at hjudges ⊢
  cases hjudges with
  | unchecked => exact advances_display _ _
  | known => exact advances_display _ _
  | underway => exact advances_of_same rfl rfl rfl rfl
  | begins hf => exact advances_beginCheck hf

theorem advances_look (t : TextEntry) : Advances t t.look.2.1 t.look.1 := by
  have hlooks := looks_look t
  generalize t.answer = answer at hlooks
  generalize t.look = found at hlooks ⊢
  cases hlooks with
  | idle => exact advances_of_same rfl rfl rfl rfl
  | @silent p hpending =>
    refine ⟨rfl, hpending ▸ .nil _, .nil _, fun hnewest q hq => ?_⟩
    obtain rfl := Option.some.inj hq
    obtain ⟨f, before, looks, hf, hchecks, hverdict, hdelay⟩ := hnewest p hpending
    refine ⟨f, before, looks + 1, hf, hchecks, hverdict, ?_⟩
    rw [Function.iterate_succ_apply', ← hdelay]
  | fails hpending =>
    have hgiveUp := t.advances_giveUp
    rw [hpending] at hgiveUp
    exact hgiveUp
  | @answers p verdict hpending =>
    have hgiveUp := t.advances_giveUp
    rw [hpending] at hgiveUp
    have hchecked : Advances t
        { t with pending := none, checked := some (p.text, verdict) } [.call (.setBusy false)] :=
      hgiveUp.same rfl rfl rfl rfl
    exact (hchecked.trans (advances_display _ verdict)).same rfl rfl rfl rfl

theorem advances_handle (t : TextEntry) (e : Event) : Advances t (t.handle e).2.1 (t.handle e).1 := by
  cases e with
  | changed text =>
    have hchanged : Advances t { t with value := text, acceptWaits := false } [] :=
      advances_of_same rfl rfl rfl rfl
    simp only [handle]
    split
    · exact hchanged.trans (advances_judge _)
    · rw [display_snd]
      exact (hchanged.trans (advances_giveUp _)).trans (advances_display _ _)
  | accept =>
    obtain ⟨hacts, b, hnext⟩ := t.handle_accept
    rw [hacts, hnext]
    exact t.advances_judge.same rfl rfl rfl rfl
  | selected | hide | button => exact advances_of_same rfl rfl rfl rfl

/-- **The calls on a control accord with the line of text** that it shows. The control is new, and the
line was `first` when it was made. -/
structure Accords (first : TextEntry) (own : List Call) (t : TextEntry) : Prop where
  validator : t.validator = first.validator
  /-- Of all the checks that were begun, at most the last one is in flight. -/
  newest : t.Newest
  /-- The calls that turn the control busy and idle alternate, and it is busy exactly while a check
  is in flight. -/
  busy : Changes false (own.filterMap Call.busy?) t.pending.isSome
  /-- No message is put on display that is there already, and the last one is the one that the line
  of text takes for displayed. -/
  message : first.Candid → Changes none (own.filterMap Call.message?) t.shown

theorem Accords.advance (h : first.Accords own t) (hadvances : Advances t t' acts) :
    first.Accords (own ++ Act.calls acts) t' where
  validator := hadvances.validator.trans h.validator
  newest := hadvances.newest h.newest
  busy := by
    rw [List.filterMap_append]
    exact h.busy.append hadvances.busy
  message hcandid := by
    rw [List.filterMap_append]
    exact (h.message hcandid).append hadvances.message

/-- A new control accords with the line of text that is started on it. -/
theorem accords_start (hpending : t.pending = none) :
    t.Accords (.makeVisible :: Act.calls t.start.1) t.start.2 where
  validator := t.advances_start.validator
  newest := t.advances_start.newest (newest_of_idle hpending)
  busy := by
    have hbusy := t.advances_start.busy
    rw [hpending] at hbusy
    exact hbusy
  message hcandid := by
    rcases hcandid with hnone | ⟨message, hreproach, hshown⟩
    · have hmessage := t.advances_start.message
      rw [hnone] at hmessage
      exact hmessage
    · -- the refusal is put on display now
      rw [start_of_reproach hreproach hshown]
      exact .single (by simp)

end TextEntry

/-! ## Screens -/

namespace Screen

variable {valid : Option Validator} {past : Story} {s : Screen} {t : TextEntry} {w : Session}

/-- A line of text whose control was not made yet has no check in flight. -/
theorem Lived.pending_eq_none (h : Lived valid s past) (hopen : s.disposed = false)
    (hcontrol : s.control = none) (hs : s.content = .text t) : t.pending = none := by
  induction h generalizing t with
  | fresh hcontent _ _ hpending =>
    obtain rfl := Content.text.inj (hs.symm.trans hcontent)
    exact hpending
  | @asked s past h n w ih =>
    by_cases hdisposed : s.disposed = true
    · rw [ask, if_pos hdisposed] at hopen
      exact absurd (hdisposed.symm.trans hopen) (by simp)
    · -- it has the control on which it has appeared
      rw [control_ask (by simpa using hdisposed)] at hcontrol
      exact absurd hcontrol (by simp)
  | @restored s past h a ih =>
    obtain ⟨t₀, hs₀, -⟩ := h.holds (TextEntry.tracks_invariant valid)
    rw [restore, hs₀] at hs
    obtain rfl := Content.text.inj hs
    rfl
  | @copied s past h ih =>
    obtain ⟨t₀, hs₀, -⟩ := h.holds (TextEntry.tracks_invariant valid)
    rw [copy, hs₀] at hs
    obtain rfl := Content.text.inj hs
    rfl
  | @placed s past h current total w ih =>
    have hplace : (s.place current total w).1 = { s with steps := some (current, total) } := by
      unfold place
      simp only
      split
      · rfl
      · rfl
    rw [hplace] at hopen hcontrol hs
    exact ih hopen hcontrol hs
  | @disposed s past h w ih =>
    have hgone : (s.dispose w).1.disposed = true := by
      unfold dispose
      split
      · assumption
      · split
        · rfl
        · rfl
    exact absurd (hgone.symm.trans hopen) (by simp)

/-- The screen shows a line of text whose control has been called as it accords with it. -/
def Accords (first : TextEntry) (id : Nat) (before : List Call) (s : Screen) (w : Session) : Prop :=
  ∃ t own, s.content = .text t ∧ w.calls id = before ++ own ∧ first.Accords own t

variable {first : TextEntry} {id : Nat} {before : List Call}

theorem Accords.perform (h : Accords first id before s w) {acts : List Act} {s' : Screen}
    (hmild : Mild acts)
    (hadvances : ∀ t, s.content = .text t → ∃ t', s'.content = .text t' ∧ t.Advances t' acts) :
    Accords first id before s' (perform id acts w) := by
  obtain ⟨t, own, hs, hcalls, haccords⟩ := h
  obtain ⟨t', hs', hadvances⟩ := hadvances t hs
  refine ⟨t', own ++ Act.calls acts, hs', ?_, haccords.advance hadvances⟩
  rw [calls_perform hmild, hcalls, List.append_assoc]

theorem Accords.look (h : Accords first id before s w) :
    Accords first id before s.looked (Screen.perform id s.lookActs w) := by
  have ⟨t, _, hs, _⟩ := h
  have hacts : s.lookActs = t.look.1 := by
    rw [lookActs, hs]
    rfl
  rw [hacts]
  refine h.perform t.mild_look fun t' hs' => ⟨t.look.2.1, ?_, ?_⟩
  · rw [looked, hs]
    rfl
  · obtain rfl := Content.text.inj (hs.symm.trans hs')
    exact t.advances_look

theorem Accords.handle (h : Accords first id before s w) (e : Event) :
    Accords first id before (s.handle e).2.1 (Screen.perform id (s.handle e).1 w) := by
  have ⟨t, _, hs, _⟩ := h
  have hhandles := handles_handle hs e
  generalize s.handle e = handled at hhandles ⊢
  cases hhandles with
  | hides => exact h
  | clicks i notes =>
    -- whatever the handler notes, it does not call the control
    refine h.perform (mild_ofNotes notes) fun t' hs' => ⟨t', hs', ?_⟩
    exact (TextEntry.advances_of_same rfl rfl rfl rfl).noting notes
  | types =>
    refine h.perform (t.mild_handle e) fun t' hs' => ⟨(t.handle e).2.1, rfl, ?_⟩
    obtain rfl := Content.text.inj (hs.symm.trans hs')
    exact t.advances_handle e

/-- A line of text gets a control, and its start accords with it. -/
theorem accords_appear (hs : s.content = .text t) (hcontrol : s.control = none)
    (hpending : t.pending = none) :
    Accords t (s.appear w).1 (w.calls (s.appear w).1) (s.appear w).2.1 (s.appear w).2.2 := by
  have hmild : Mild (.call .makeVisible :: t.start.1) := mild_cons.mpr ⟨rfl, t.mild_start⟩
  rw [appear_of_text hs hcontrol]
  refine ⟨t.start.2, _, rfl, ?_, TextEntry.accords_start hpending⟩
  rw [calls_perform hmild, Session.calls_make]
  rfl

/-- **Whatever happens while a line of text is asked, the calls on its control accord with it**, if it
was not asked before. This holds for every validator, and for every user and every delay of the
checks, after each look at the check in flight and after each event that is handled. -/
theorem accords_of_ask (h : Lived valid s past) (hs : s.content = .text t)
    (hcontrol : s.control = none) (n : Nat) (w : Session) :
    ∀ p ∈ s.askScenes n w, ∃ t' own, p.screen.content = .text t' ∧
      p.session.calls (s.appear w).1 = w.calls (s.appear w).1 ++ own ∧ t.Accords own t' := by
  by_cases hopen : s.disposed = false
  · have happear := accords_appear (w := w) hs hcontrol (h.pending_eq_none hopen hcontrol hs)
    refine keeps_askScenes (P := Accords t (s.appear w).1 (w.calls (s.appear w).1))
      (fun _ _ h => h.look) ?_ (fun _ _ e h => h.handle e) happear n
    rintro s' w' ⟨t', own, hs', hcalls, haccords⟩
    exact ⟨t', own, hs', Session.calls_next.trans hcalls, haccords⟩
  · rw [askScenes, if_pos (by simpa using hopen)]
    exact fun p hp => absurd hp List.not_mem_nil

/-- **A message that is taken for displayed**, by a line of text that is not candid: its control was
not called with any, right after it was made. -/
theorem misled_of_ask (hs : s.content = .text t) (hcontrol : s.control = none)
    (hopen : s.disposed = false) (hstale : ¬ t.Candid) (n : Nat) (w : Session) :
    ∃ p ∈ s.askScenes n w, ∃ t', p.screen.content = .text t' ∧ t'.shown ≠ none ∧
      p.session.calls (s.appear w).1 = w.calls (s.appear w).1 ++ [.makeVisible] := by
  obtain ⟨hacts, hshown, -⟩ := TextEntry.start_of_stale hstale
  have hvisible : Mild [.call .makeVisible] := mild_cons.mpr ⟨rfl, mild_nil⟩
  refine ⟨⟨(s.appear w).2.1, (s.appear w).2.2⟩, ?_, t.start.2, ?_, ?_, ?_⟩
  · rw [askScenes, if_neg (by simp [hopen])]
    exact List.mem_cons_self
  · rw [appear_of_text hs hcontrol]
  · rw [hshown]
    exact fun hnone => hstale (Or.inl hnone)
  · rw [appear_of_text hs hcontrol, hacts, calls_perform hvisible, Session.calls_make]
    rfl

/-- A line of text whose checks take their time. -/
def slowLine : TextEntry :=
  { TextEntry.new with
    validator := some fun _ text => ⟨[], .after 1, .ok (if text = "bad" then some "no" else none)⟩ }

/-- The refusal comes while the user does other things, and goes with the next text. -/
theorem accords_of_slowLine :
    let s := Screen.new .english (.text slowLine)
    let w := Session.new (.rehearsal [[.changed "bad", .button 5, .accept, .changed "good", .accept]])
    slowLine.Candid ∧
      (∀ p ∈ s.askScenes 7 w, ∃ t own, p.screen.content = .text t ∧
        p.session.calls 0 = [] ++ own ∧ slowLine.Accords own t) ∧
      (s.ask 7 w).2.2.calls 0 = [.makeVisible, .setBusy true, .setBusy false,
        .setMessage (some "no"), .setBusy true, .setBusy false, .setMessage none] ∧
      (s.ask 7 w).1 = .done (.value (.text "good")) := by
  intro s w
  exact ⟨Or.inl rfl, accords_of_ask (.fresh rfl rfl rfl rfl) rfl rfl 7 w, rfl, rfl⟩

end Screen

end Interview
