import Interview.Proofs.Ending.Supplies
import Interview.Proofs.Turns
import Interview.Proofs.Typing.Tracking
/-
Screens come to an end.

Nothing is assumed here of what a screen shows: its validator may judge differently every time, its
checks and its batches may be late or never come, and its buttons may fail. In a rehearsal it comes
to an end all the same. Every turn takes an event of the script, or redeems an acceptance that had
to wait. At the end of its script the control hides, and a check that never answers does not keep it
from that.

An acceptance waits for the verdict on the current text. When the check in flight is of another
text, then a further check begins when it answers, and the acceptance waits once more. So an
acceptance may be redeemed twice, but not more often (`TextEntry.due`).
-/

set_option autoImplicit false

namespace Interview

open Control (Event)

/-! ## Acceptances that wait -/

namespace TextEntry

variable {t : TextEntry}

/-- How often an acceptance that waits may be redeemed before the next event. -/
def due (t : TextEntry) : Nat :=
  if t.acceptWaits then if t.pending.any fun p => p.text = t.value then 1 else 2 else 0

theorem due_eq_zero (h : t.acceptWaits = false) : t.due = 0 := by
  simp [due, h]

/-- An acceptance that waits for the check of the current text. -/
theorem due_eq_one {p : PendingCheck} (hp : t.pending = some p) (htext : p.text = t.value)
    (h : t.acceptWaits = true) : t.due = 1 := by
  simp [due, h, hp, htext]

/-- Judging leaves what waits as it is. A text without a verdict is being checked afterwards. -/
theorem due_judge (t : TextEntry) : t.judge.2.1.acceptWaits = t.acceptWaits ∧
    ((∃ verdict, t.judge.2.2 = some verdict ∧ t.judge.2.1.due = t.due) ∨
      t.judge.2.2 = none ∧ ∃ p, t.judge.2.1.pending = some p ∧ p.text = t.judge.2.1.value) := by
  have hjudges := judges_judge t
  generalize t.judge = judged at hjudges ⊢
  cases hjudges with
  | unchecked => exact ⟨rfl, Or.inl ⟨_, rfl, rfl⟩⟩
  | known => exact ⟨rfl, Or.inl ⟨_, rfl, rfl⟩⟩
  | underway _ hp htext => exact ⟨rfl, Or.inr ⟨rfl, _, hp, htext⟩⟩
  | begins => exact ⟨rfl, Or.inr ⟨rfl, _, rfl, rfl⟩⟩

/-- **After an event one acceptance waits at most**, unless it did so before. -/
theorem due_handle_le (t : TextEntry) (e : Event) : (t.handle e).2.1.due ≤ max 1 t.due := by
  unfold handle
  split
  · -- a change withdraws the acceptance
    rename_i text
    simp only
    split
    · have hjudge := (due_judge { t with value := text, acceptWaits := false }).1
      rw [due_eq_zero hjudge]
      exact Nat.zero_le _
    · rw [display_snd, due_eq_zero rfl]
      exact Nat.zero_le _
  · obtain ⟨-, hjudged⟩ := due_judge t
    rcases hj : t.judge with ⟨acts, t', verdict⟩
    rw [hj] at hjudged
    rcases hjudged with ⟨verdict, rfl, hdue⟩ | ⟨rfl, p, hp, htext⟩
    · rcases verdict with _ | message
      · exact Nat.le_trans (Nat.le_of_eq hdue) (Nat.le_max_right _ _)
      · exact Nat.le_trans (Nat.le_of_eq hdue) (Nat.le_max_right _ _)
    · refine Nat.le_trans (Nat.le_of_eq ?_) (Nat.le_max_left _ _)
      exact due_eq_one (t := { t' with acceptWaits := true }) hp htext rfl
  · exact Nat.le_max_right _ _

/-- A text that has its verdict is accepted or refused at once. -/
theorem due_handle_accept {verdict : Option String} (hchecked : t.checked = some (t.value, verdict))
    (hpending : t.pending = none) (hwaits : t.acceptWaits = false) :
    (t.handle .accept).2.1.due = 0 := by
  have hjudges := judges_judge t
  unfold handle
  generalize t.judge = judged at hjudges ⊢
  cases hjudges with
  | unchecked => exact due_eq_zero hwaits
  | @known _ verdict =>
      rcases verdict with _ | message
      · exact due_eq_zero hwaits
      · exact due_eq_zero hwaits
  | underway _ hp => exact absurd (hpending.symm.trans hp) (by simp)
  | begins _ hnew => exact absurd (by rw [hchecked]; rfl) hnew

/-- A look that finds nothing to redeem leaves what waits. -/
theorem due_look_le (h : t.look.2.2 = .await) : t.look.2.1.due ≤ t.due := by
  have hlooks := looks_look t
  generalize t.answer = answer at hlooks
  generalize t.look = found at hlooks h ⊢
  cases hlooks with
  | idle => exact Nat.le_refl _
  | silent hp => simp [due, hp]
  | fails => exact absurd h (by simp)
  | answers => exact Nat.zero_le _

/-- **An acceptance that is redeemed** waits less often than before. -/
theorem due_redeem_lt (h : t.look.2.2 = .replay) :
    (t.look.2.1.handle .accept).2.1.due < t.due := by
  have hlooks := looks_look t
  generalize t.answer = answer at hlooks
  generalize t.look = found at hlooks h ⊢
  cases hlooks with
  | idle => exact absurd h (by simp)
  | silent => exact absurd h (by simp)
  | fails => exact absurd h (by simp)
  | @answers p verdict hp =>
      have hwaits : t.acceptWaits = true := by
        by_contra hwaits
        simp [hwaits] at h
      by_cases htext : p.text = t.value
      · -- the verdict is on the current text, and nothing waits any more
        rw [due_eq_one hp htext hwaits, due_handle_accept (by rw [htext]) rfl rfl]
        exact Nat.one_pos
      · have hdue : t.due = 2 := by simp [due, hwaits, hp, htext]
        rw [hdue]
        refine Nat.lt_of_le_of_lt (due_handle_le _ _) ?_
        rw [due_eq_zero rfl]
        exact Nat.lt_succ_self 1

end TextEntry

/-! ## Contents -/

/-- A look at the batches of a list redeems nothing. -/
theorem PickList.takeIn_ne_replay (w : Wording) (ending : Delay) (batches : List Batch)
    (l : PickList) : (takeIn w ending batches l).2.2 ≠ .replay := by
  induction batches generalizing l with
  | nil =>
      rw [takeIn]
      split
      · simp
      · simp
  | cons b rest ih =>
      rw [takeIn]
      split
      · simp only
        split
        · exact ih _
        · split
          · simp
          · simp
      · simp

theorem PickList.look_ne_replay (l : PickList) (w : Wording) : (l.look w).2.2 ≠ .replay := by
  unfold look
  split
  · simp
  · exact takeIn_ne_replay w _ _ l

namespace Content

/-- How often an acceptance that waits may be redeemed before the next event. -/
def due : Content → Nat
  | text t => t.due
  | list _ => 0

variable {c : Content}

theorem due_start (h : c.waits = false) (w : Wording) (chrome : Chrome) :
    (c.start w chrome).2.due = 0 := by
  rcases c with t | l
  · exact TextEntry.due_eq_zero (t.acceptWaits_start.trans h)
  · rfl

theorem due_handle_le (c : Content) (e : Event) : (c.handle e).2.1.due ≤ max 1 c.due := by
  rcases c with t | l
  · exact t.due_handle_le e
  · exact Nat.zero_le _

theorem due_look_le {w : Wording} (h : (c.look w).2.2 = .await) : (c.look w).2.1.due ≤ c.due := by
  rcases c with t | l
  · exact TextEntry.due_look_le h
  · exact Nat.zero_le _

theorem due_redeem_lt {w : Wording} (h : (c.look w).2.2 = .replay) :
    ((c.look w).2.1.handle .accept).2.1.due < c.due := by
  rcases c with t | l
  · exact TextEntry.due_redeem_lt h
  · exact absurd h (l.look_ne_replay w)

end Content

/-! ## Turns -/

namespace Screen

variable {s : Screen} {w : Session} {id : Nat} {events : List Event} {host : Host}

/-- **More than the turns that are left.** -/
def span (s : Screen) (events : List Event) : Nat :=
  2 * events.length + s.content.due

/-- What a turn comes to, without a prompt: an outcome, or a screen with less before it. -/
def Turn.Shortens (id : Nat) (host : Host) (w : Session) (bound : Nat) : Turn → Prop
  | .stays s w' => w.Undrawn w' ∧ ∃ events, w'.Plays id events host ∧ s.span events < bound
  | .ends o _ w' => w.Undrawn w' ∧ o ≠ .exhausted ∧ o ≠ .suspended

/-- After an event one acceptance waits at most, unless it did so before. -/
theorem due_handle_le (s : Screen) (e : Event) :
    (s.handle e).2.1.content.due ≤ max 1 s.content.due := by
  have hhandled := s.handled_handle e
  generalize s.handle e = handled at hhandled ⊢
  cases hhandled with
  | hides | misses | clicks => exact Nat.le_max_right _ _
  | passes => exact s.content.due_handle_le e

theorem shortens_react (hw : w.Plays id events host) (e : Event) {bound : Nat}
    (hbound : e ≠ .hide → (s.handle e).2.1.span events < bound) :
    (s.react id e w).Shortens id host w bound := by
  have hsame := w.undrawn_perform id (s.handle e).1
  have hplays := hw.perform (s.handle e).1
  unfold react
  rcases hflow : (s.handle e).2.2 with _ | r | f
  · have hne : e ≠ .hide := by
      rintro rfl
      exact absurd hflow (by simp [handle])
    simp only [hflow]
    exact ⟨hsame, events, hplays, hbound hne⟩
  · simp only [hflow]
    exact ⟨hsame, by simp, by simp⟩
  · simp only [hflow]
    exact ⟨hsame, by simp, by simp⟩

theorem Turn.Shortens.after {w₁ : Session} {bound : Nat} {t : Turn} (hbefore : w.Undrawn w₁)
    (h : t.Shortens id host w₁ bound) : t.Shortens id host w bound := by
  cases t with
  | stays s w' => exact ⟨hbefore.trans h.1, h.2⟩
  | ends o s w' => exact ⟨hbefore.trans h.1, h.2⟩

/-- **One turn** comes to an outcome, or takes an event, or redeems an acceptance. -/
theorem shortens_turn (hw : w.Plays id events host) :
    (s.turn id w).Shortens id host w (s.span events) := by
  let looked : Screen := { s with content := (s.content.look s.wording).2.1 }
  have hlooked := w.undrawn_perform id (s.content.look s.wording).1
  have hplays := hw.perform (s.content.look s.wording).1
  unfold turn
  rcases hfound : (s.content.look s.wording).2.2 with _ | _ | f
  · -- an event is taken, or the control hides
    have hnext := Session.undrawn_next hplays
    obtain ⟨w', heq, hw'⟩ := hplays.next
    rw [heq] at hnext
    simp only [hfound, heq]
    refine Turn.Shortens.after (hlooked.trans hnext)
      (shortens_react (s := looked) hw' _ fun hne => ?_)
    rcases events with _ | ⟨e, rest⟩
    · exact absurd rfl hne
    · have hhandle := looked.due_handle_le e
      have hlook : looked.content.due ≤ s.content.due := Content.due_look_le hfound
      simp only [List.headD_cons, List.tail_cons, span, List.length_cons] at hhandle ⊢
      omega
  · -- the acceptance that waited is redeemed
    simp only [hfound]
    refine Turn.Shortens.after hlooked (shortens_react (s := looked) hplays .accept fun _ => ?_)
    have hredeem : (looked.handle .accept).2.1.content.due < s.content.due :=
      Content.due_redeem_lt hfound
    simp only [span]
    omega
  · simp only [hfound]
    exact ⟨hlooked, by simp, by simp⟩

/-- At the end of its script a screen on which nothing waits comes to an end that is no answer. -/
theorem exists_turn_eq_ends (hw : w.Plays id [] host) (hdue : s.content.due = 0) :
    ∃ o s' w', s.turn id w = .ends o s' w' ∧ o.excess = 1 := by
  have hplays := hw.perform (s.content.look s.wording).1
  obtain ⟨w', hnext, -⟩ := hplays.next
  unfold turn
  rcases hfound : (s.content.look s.wording).2.2 with _ | _ | f
  · simp only [hfound, hnext]
    exact ⟨_, _, _, rfl, rfl⟩
  · have hredeem := Content.due_redeem_lt hfound
    omega
  · simp only [hfound]
    exact ⟨_, _, _, rfl, rfl⟩

/-! ## Being asked -/

/-- **A conversation ends.** The induction is on what is left of it. -/
theorem comes_converse (hw : w.Plays id events host) :
    ∃ o s' w', Comes (fun n => s.converse id n w) (o, s', w') ∧ w.Undrawn w' ∧
      o ≠ .exhausted ∧ o ≠ .suspended := by
  induction hspan : s.span events using Nat.strongRecOn generalizing s w events with
  | ind bound ih =>
      have hturn := shortens_turn (s := s) hw
      rcases heq : s.turn id w with ⟨s₁, w₁⟩ | ⟨o, s', w'⟩
      · rw [heq] at hturn
        obtain ⟨hsame, rest, hplays, hlt⟩ := hturn
        obtain ⟨o, s', w', hcomes, hundrawn, hends⟩ := ih _ (hspan ▸ hlt) hplays rfl
        refine ⟨o, s', w', hcomes.next fun n hn => ?_, hsame.trans hundrawn, hends⟩
        rw [converse, heq]
        exact hn
      · rw [heq] at hturn
        refine ⟨o, s', w', (Comes.const ()).next fun n _ => ?_, hturn⟩
        rw [converse, heq]

/-- **Asking a screen** that was not asked before ends, and makes one control. -/
theorem comes_ask (hcontrol : s.control = none) (hwaits : s.content.waits = false)
    (hw : w.Rehearsed) (hang : Prop) (forms : Bool) :
    ∃ o s' w', Comes (fun n => s.ask n w) (o, s', w') ∧ Costs hang forms o w w' := by
  by_cases hdisposed : s.disposed = true
  · have hask : ∀ n, s.ask n w = (.failed (.collaborator disposedFailure), s, w) := fun n => by
      rw [ask, if_pos hdisposed]
    refine ⟨.failed (.collaborator disposedFailure), s, w, ?_, ?_⟩
    · simpa only [hask] using Comes.const _
    · exact .of_undrawn hw w.undrawn_refl rfl (by simp) (by simp)
  · obtain ⟨scripts, hscripts⟩ := hw
    let s₁ : Screen := { s with
      control := some (w.make s.content.kind s.chrome).1
      content := (s.content.start s.wording s.chrome).2 }
    let w₁ := perform (w.make s.content.kind s.chrome).1
      (.call .makeVisible :: (s.content.start s.wording s.chrome).1)
      (w.make s.content.kind s.chrome).2
    have hask : ∀ n, s.ask n w = s₁.converse (w.make s.content.kind s.chrome).1 n w₁ := by
      intro n
      unfold ask appear
      rw [if_neg hdisposed, hcontrol]
    have hplays : w₁.Plays (w.make s.content.kind s.chrome).1 (scripts.headD [])
        (.rehearsal scripts.tail) := (Session.plays_make hscripts _ _).perform _
    have hmade : (w.make s.content.kind s.chrome).2.Undrawn w₁ := Session.undrawn_perform _ _ _
    obtain ⟨hprompted, hsupply⟩ := Session.balance_make hscripts s.content.kind s.chrome
    obtain ⟨o, s', w', hcomes, hundrawn, hexhausted, hsuspended⟩ := comes_converse (s := s₁) hplays
    have hsame := hmade.trans hundrawn
    have hsupply' := hsame.supply_eq
    have hprompted' := hsame.prompted_eq
    -- without a script the first turn is the end
    have hnone : scripts = [] → o.excess = 1 := by
      rintro rfl
      obtain ⟨o₁, s₂, w₂, hturn, hexcess⟩ := exists_turn_eq_ends hplays
        (s := s₁) (Content.due_start hwaits _ _)
      obtain ⟨N, hN⟩ := hcomes
      have hlast := hN (N + 1) (Nat.le_succ N)
      simp only [converse, hturn, Prod.mk.injEq] at hlast
      exact hlast.1 ▸ hexcess
    have hused : o.excess = 0 → w'.supply < w.supply := by
      intro hexcess
      have hempty : scripts ≠ [] := fun h => absurd (hnone h) (by omega)
      rw [if_neg hempty] at hsupply
      omega
    refine ⟨o, s', w', ?_, ?_⟩
    · simpa only [hask] using hcomes
    · exact {
        rehearsed := ⟨scripts.tail, (hundrawn.host.trans hplays.host_eq)⟩
        supply_le := by omega
        prompted_le := by
          by_cases hempty : scripts = []
          · rw [if_pos hempty] at hsupply
            have hexcess := hnone hempty
            omega
          · rw [if_neg hempty] at hsupply
            omega
        back := fun hback => hused (by simp [hback, Outcome.excess])
        value := fun _ v hv => hused (by simp [hv, Outcome.excess])
        finished := hexhausted
        hangs := fun h => absurd h hsuspended }

end Screen

end Interview
