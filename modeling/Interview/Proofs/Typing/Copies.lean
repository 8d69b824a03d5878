import Interview.Proofs.Typing.Renditions
/-
Copies of lines of text.

A copy takes along what its original remembers: the text that was judged last with its verdict, and
the message on display. The first is harmless. If the same text is always judged in the same way,
then a verdict that is remembered is the one that would be given again, and nobody can tell the copy
from a line of text that is built anew (`TextEntry.AtRest`). The second is not. The control of the
copy has no message yet, so what the copy takes for displayed is missing there until another message
comes.

Both render the same account of their script. What differs is where the account begins: the copy
leaves out what it takes for displayed, so the two agree exactly if that makes no difference to the
first message of the account (`unrepeated_eq_iff`).
-/

set_option autoImplicit false

namespace Interview

open Control (Event)

/-! ## What is on display at first -/

/-- Only the first message can tell what is on display at first. -/
theorem unrepeated_eq_iff (shown shown' : Option String) (ms : List (Option String)) :
    unrepeated shown ms = unrepeated shown' ms ↔
      ∀ m, ms.head? = some m → (shown = m ↔ shown' = m) := by
  cases ms with
  | nil => simp [unrepeated]
  | cons m ms =>
    -- if just one of the two is the first message, then the other side has it in addition
    have hlonger : unrepeated m ms ≠ m :: unrepeated m ms := (List.cons_ne_self m _).symm
    rw [unrepeated, unrepeated]
    by_cases hshown : shown = m <;> by_cases hshown' : shown' = m <;>
      simp [hshown, hshown', hlonger]

/-- What is told is displayed in the end, unless it was there at first. -/
theorem mem_unrepeated {shown m : Option String} {ms : List (Option String)} (hm : m ∈ ms)
    (hshown : shown ≠ m) : m ∈ unrepeated shown ms := by
  induction ms generalizing shown with
  | nil => exact absurd hm List.not_mem_nil
  | cons x ms ih =>
    -- once another message is on display, the message cannot be left out
    have htail : x ≠ m → m ∈ unrepeated x ms := fun hx =>
      ih ((List.mem_cons.mp hm).resolve_left (Ne.symm hx)) hx
    rw [unrepeated]
    split
    · rename_i hx
      exact htail (hx ▸ hshown)
    · by_cases hx : x = m
      · exact hx ▸ List.mem_cons_self
      · exact List.mem_cons_of_mem x (htail hx)

/-! ## Copies -/

namespace TextEntry

variable {valid : Option Validator} {past : Story} {t : TextEntry}

/-- The line of text built anew: configured in the same way, with the text that it has now, and with
the refusal that is still to be put on display after a restoration. -/
def anew (t : TextEntry) : TextEntry :=
  { new with
    value := t.value
    password := t.password
    validator := t.validator
    eager := t.eager
    reproach := t.reproach }

theorem atRest_anew (t : TextEntry) : t.anew.AtRest t.validator :=
  ⟨rfl, rfl, fun _ _ hchecked => absurd hchecked (by simp [anew, new])⟩

/-- **A copy is at rest**, whatever its original was doing: what it remembers is what its validator
would say. -/
theorem atRest_copy (h : t.Tracks valid past) (hsteady : Steady valid) : t.copy.AtRest valid := by
  refine ⟨h.validator, rfl, fun text verdict hchecked => ?_⟩
  obtain ⟨f, before, hf, hverdict⟩ := h.judged _ _ (h.checked text verdict hchecked)
  rw [hf, verdictOf, hverdict]
  exact (hsteady f hf before text).2.symm

end TextEntry

namespace Screen

variable {valid : Option Validator} {past : Story} {s : Screen} {t : TextEntry} {w w' : Session}
  {es : List Event}

/-- The screen of a line of text built anew, with everything else as it is configured. -/
def anew (s : Screen) (t : TextEntry) : Screen :=
  { s with control := none, disposed := false, content := .text t.anew }

/-- **A copy starts clean**, next to a line of text built anew whose control hands out the same
events. -/
structure StartsClean (s : Screen) (t : TextEntry) (w w' : Session) (es : List Event) : Prop where
  /-- The line of text built anew tells its account, on a control without a message. -/
  anew : (s.anew t).Tells w' none (s.account t es)
  /-- The copy tells the same account and comes to the same outcome, but it leaves out what it takes
  for displayed. -/
  copy : s.copy.Tells w t.shown (s.account t es)
  /-- The messages are the same if what it takes for displayed will be there. -/
  clean : t.Candid →
    unrepeated t.shown (s.account t es).1 = unrepeated none (s.account t es).1
  /-- Every refusal is displayed then. -/
  refusals : t.Candid → ∀ message, some message ∈ (s.account t es).1 →
    some message ∈ unrepeated t.shown (s.account t es).1
  /-- They are the same exactly if it makes no difference to the first message of the account. -/
  exactly : unrepeated t.shown (s.account t es).1 = unrepeated none (s.account t es).1 ↔
    ∀ m, (s.account t es).1.head? = some m → (t.shown = m ↔ none = m)

/-- A refusal that is still to be put on display is the first message. -/
theorem clean_of_candid (h : t.Candid) :
    unrepeated t.shown (s.account t es).1 = unrepeated none (s.account t es).1 := by
  rcases h with hnone | ⟨message, hreproach, hshown⟩
  · rw [hnone]
  · refine (unrepeated_eq_iff _ _ _).mpr fun m hm => ?_
    have hfirst : (s.account t es).1.head? = some (some message) := by
      rw [account, greetings, hreproach]
      rfl
    obtain rfl := Option.some.inj (hfirst.symm.trans hm)
    simp [hshown]

/-- **Every copy of a line of text starts clean**, in whatever state its original was copied, if the
checks are made at once and the same text is always judged in the same way. -/
theorem startsClean_of_copy (h : Lived valid s past) (hs : s.content = .text t)
    (hsteady : Steady valid) (hw : s.copy.Hands w es) (hw' : (s.anew t).Hands w' es) :
    s.StartsClean t w w' es := by
  obtain ⟨t₀, hs₀, htracks⟩ := h.holds (TextEntry.tracks_invariant valid)
  obtain rfl := Content.text.inj (hs.symm.trans hs₀)
  have hvalid : t.validator = valid := htracks.validator
  have hcopied : s.copy.content = .text t.copy := by
    rw [Screen.copy, hs]
    rfl
  have hrest : t.anew.AtRest valid := hvalid ▸ t.atRest_anew
  refine ⟨?_, ?_, clean_of_candid, fun hcandid message hm => ?_, unrepeated_eq_iff _ _ _⟩
  · exact tells_of_hands (s := s.anew t) rfl rfl rfl hrest hsteady hw'
  · have hcopy := tells_of_hands hcopied rfl rfl (TextEntry.atRest_copy htracks hsteady) hsteady hw
    exact hcopy
  · rw [clean_of_candid hcandid]
    exact mem_unrepeated hm (by simp)

/-- A refusal that is not displayed any more is displayed again on the control of the copy. One that
is still displayed is missing there. -/
theorem startsClean_of_assisted :
    let f : Validator := fun _ text => .now (if text = "bad" then some "no" else none)
    let left (script : List Event) := ((assisted f).ask 5 (Session.new (.rehearsal [script]))).2.1
    let good : TextEntry := { TextEntry.new with
      validator := some f, value := "good", checks := 2, checked := some ("good", none) }
    let bad : TextEntry := { TextEntry.new with
      validator := some f, value := "bad", checks := 1, checked := some ("bad", some "no"),
      shown := some "no" }
    let s := left [.changed "bad", .changed "good"]
    let s' := left [.changed "bad", .button 0]
    let script : List Event := [.changed "bad", .accept, .changed "good", .accept]
    let w := Session.new (.rehearsal [script])
    let w' := Session.new (.rehearsal [[.changed "bad", .button 0]])
    s.StartsClean good w w script ∧ good.Candid ∧
      (s.copy.ask 9 w).1 = .done (.value (.text "good")) ∧
      (s.copy.ask 9 w).2.2.messages 0 = [some "no", none] ∧
      s'.StartsClean bad w' w' [.changed "bad", .button 0] ∧
      (s'.copy.ask 5 w').2.2.messages 0 = [] ∧
      ((s'.anew bad).ask 5 w').2.2.messages 0 = [some "no"] := by
  intro f left good bad s s' script w w'
  have hsteady : Steady (some f) := by
    rintro f' hf before text
    obtain rfl := Option.some.inj hf
    exact ⟨rfl, rfl⟩
  have hfresh : Lived (some f) (assisted f) [.begun "" none] :=
    .fresh (t := { TextEntry.new with validator := some f }) rfl rfl rfl rfl
  exact ⟨startsClean_of_copy (hfresh.asked 5 _) rfl hsteady rfl rfl, Or.inl rfl, rfl, rfl,
    startsClean_of_copy (hfresh.asked 5 _) rfl hsteady rfl rfl, rfl, rfl⟩

end Screen

end Interview
