import Interview.Proofs.Controls.Calls
import Interview.Proofs.Picking.Transcripts
/-
Hiding a control and clicking its buttons.

Whatever a screen is waiting for, be it a check, an acceptance that was made too early, or rows that
are still to come, its user can leave it or click a button. What comes of a click is decided by the
handler of the button alone, and it is decided when the click is handed out: that is the last thing
that is heard of the control while the screen is asked (`Screen.decides_ask`).
-/

set_option autoImplicit false

namespace Interview

open Control (Event Call)

/-! ## Buttons -/

/-- The failure that a press is. -/
def Press.failure? : Press → Option Failure
  | fail f => some f
  | _ => none

/-- The reply that a press settles on. -/
def Press.reply? : Press → Option (Reply Json)
  | resolve v => some (.value v)
  | back => some .back
  | fail _ => none

/-- What a click decides: that its handler has failed, or else what the handler settled on last. -/
def Button.decision? (b : Button) : Option (Outcome (Reply Json)) :=
  match b.presses.findSome? Press.failure? with
  | some f => some (.failed (.collaborator f))
  | none => (b.presses.filterMap Press.reply?).getLast?.map .done

/-- The last element of a list with one more in front, or else what there was before. -/
theorem getLast?_cons_or {α : Type} (x : α) (xs : List α) (before : Option α) :
    (x :: xs).getLast?.or before = xs.getLast?.or (some x) := by
  rw [List.getLast?_cons, Option.or_some]
  rfl

/-- **A handler comes to its first failure, or else to the last reply that it settles on.** -/
theorem Button.settle_eq (before : Option (Reply Json)) (ps : List Press) :
    settle before ps =
      match ps.findSome? Press.failure? with
      | some f => .error f
      | none => .ok ((ps.filterMap Press.reply?).getLast?.or before) := by
  induction ps generalizing before with
  | nil => rfl
  | cons p ps ih =>
    cases p with
    | fail f => rfl
    | resolve v =>
      have hreply : Press.reply? (.resolve v) = some (.value v) := rfl
      rw [settle, ih, List.findSome?_cons_of_isNone rfl, List.filterMap_cons_some hreply,
        getLast?_cons_or]
    | back =>
      have hreply : Press.reply? .back = some .back := rfl
      rw [settle, ih, List.findSome?_cons_of_isNone rfl, List.filterMap_cons_some hreply,
        getLast?_cons_or]

/-- A click decides something unless its handler succeeds and settles on nothing. -/
theorem Button.decision?_eq_none_iff (b : Button) : b.decision? = none ↔ b.click = .ok none := by
  rw [click, settle_eq, decision?]
  cases b.presses.findSome? Press.failure? with
  | some f => simp
  | none => simp

/-! ## Screens -/

namespace Screen

variable {base s s' : Screen} {w w' : Session} {id : Nat} {own more : Diary}
  {o o' : Outcome (Reply Json)} {e : Event}

/-- What an event decides on its own, if it does. -/
def decision? (s : Screen) : Event → Option (Outcome (Reply Json))
  | .hide => some (.done .cancel)
  | .button i => s.buttons[i]?.bind Button.decision?
  | _ => none

/-- **An event that decides** is the last of its turn: the screen stays as it is, and its control is
not called. -/
theorem react_of_decision (h : s.decision? e = some o) :
    ∃ notes, s.react id e w = .ends o s (perform id (Act.ofNotes notes) w) := by
  have hhandled := s.handled_handle e
  unfold react
  generalize s.handle e = handled at hhandled ⊢
  cases hhandled with
  | hides =>
    obtain rfl := Option.some.inj h
    exact ⟨[], rfl⟩
  | misses hb =>
    rw [decision?, hb] at h
    exact absurd h (by simp)
  | @clicks i b hb =>
    have hdecision : b.decision? = some o := by
      rw [decision?, hb] at h
      exact h
    have hclick : b.click = _ := Button.settle_eq none b.presses
    refine ⟨b.notes, ?_⟩
    unfold Button.decision? at hdecision
    rcases hfailure : b.presses.findSome? Press.failure? with _ | f
    · rw [hfailure] at hclick hdecision
      obtain ⟨r, hr, rfl⟩ := Option.map_eq_some_iff.mp hdecision
      rw [hclick, hr]
      rfl
    · rw [hfailure] at hclick hdecision
      obtain rfl := Option.some.inj hdecision
      rw [hclick]
  | passes hhide hbutton =>
    cases e with
    | hide => exact absurd rfl hhide
    | button i => exact absurd rfl (hbutton i)
    | changed | selected | accept => exact absurd h (by simp [decision?])

/-- Nothing that is heard decides anything. -/
def Undecided (base : Screen) (own : Diary) : Prop :=
  ∀ e, .event e ∈ own → base.decision? e = none

/-- **An event that decides is the last thing that is heard**, and the outcome is what it decides. -/
def Decides (base : Screen) (own : Diary) (o : Outcome (Reply Json)) : Prop :=
  ∀ before e after o', own = before ++ .event e :: after → base.decision? e = some o' →
    after = [] ∧ o = o'

theorem undecided_nil (base : Screen) : base.Undecided [] :=
  fun _ he => absurd he List.not_mem_nil

theorem undecided_calls (base : Screen) (acts : List Act) : base.Undecided (Diary.calls acts) := by
  intro e he
  obtain ⟨c, -, hc⟩ := List.mem_map.mp he
  exact absurd hc (by simp)

theorem Undecided.append (h : base.Undecided own) (h' : base.Undecided more) :
    base.Undecided (own ++ more) := by
  intro e he
  rcases List.mem_append.mp he with he | he
  · exact h e he
  · exact h' e he

/-- Where nothing is decided, the outcome may be anything. -/
theorem Undecided.decides (h : base.Undecided own) : base.Decides own o := by
  intro before e after o' hown he
  have hnone := h e (by simp [hown])
  exact absurd (hnone.symm.trans he) (by simp)

theorem Undecided.decides_append (h : base.Undecided own) (h' : base.Decides more o) :
    base.Decides (own ++ more) o := by
  intro before e after o' hown he
  rcases List.append_eq_append_iff.mp hown with ⟨between, rfl, hmore⟩ | ⟨between, hown', hafter⟩
  · exact h' between e after o' hmore he
  · rcases between with _ | ⟨m, between⟩
    · exact h' [] e after o' hafter.symm he
    · -- the event would be one of those that decide nothing
      obtain ⟨rfl, -⟩ := List.cons.inj hafter
      have hnone := h e (by simp [hown'])
      exact absurd (hnone.symm.trans he) (by simp)

/-- The event that is heard last decides the outcome. -/
theorem decides_event (he : base.decision? e = some o) : base.Decides [.event e] o := by
  intro before e' after o' hown he'
  rcases before with _ | ⟨m, before⟩
  · obtain ⟨hevent, rfl⟩ := List.cons.inj hown
    obtain rfl := Incident.event.inj hevent
    exact ⟨rfl, Option.some.inj (he.symm.trans he')⟩
  · exact absurd (List.cons.inj hown).2 (by simp)

/-! ### Turns -/

/-- A screen with the same buttons, and with a content that notes nothing about controls. -/
structure Minds (base s : Screen) : Prop where
  buttons : s.buttons = base.buttons
  quiet : s.content.Quiet

theorem Minds.decision?_eq (h : Minds base s) (e : Event) : s.decision? e = base.decision? e := by
  cases e with
  | button i => rw [decision?, decision?, h.buttons]
  | changed | selected | accept | hide => rfl

theorem Minds.looked (h : Minds base s) : Minds base s.looked ∧ Mild s.lookActs := by
  obtain ⟨hmild, hquiet⟩ := h.quiet.look s.wording
  exact ⟨⟨h.buttons, hquiet⟩, hmild⟩

theorem Minds.handle (h : Minds base s) (e : Event) :
    Minds base (s.handle e).2.1 ∧ Mild (s.handle e).1 := by
  have hhandled := s.handled_handle e
  generalize s.handle e = handled at hhandled ⊢
  cases hhandled with
  | hides | misses => exact ⟨h, mild_nil⟩
  | clicks => exact ⟨h, mild_ofNotes _⟩
  | passes =>
    obtain ⟨hmild, hquiet⟩ := h.quiet.handle e
    exact ⟨⟨h.buttons, hquiet⟩, hmild⟩

/-- What a turn comes to, with what is heard in it: nothing was decided, or it was decided last. -/
def Turn.Decides (base : Screen) (id : Nat) (w : Session) : Turn → Prop
  | .stays s w' => ∃ own, Minds base s ∧ w'.heard id = w.heard id ++ own ∧ base.Undecided own
  | .ends o _ w' => ∃ own, w'.heard id = w.heard id ++ own ∧ base.Decides own o

theorem Turn.Decides.after {turn : Turn} {w₁ : Session} (hw : w₁.heard id = w.heard id ++ own)
    (hown : base.Undecided own) (h : turn.Decides base id w₁) : turn.Decides base id w := by
  cases turn with
  | stays s w' =>
    obtain ⟨more, hs, hmore, hundecided⟩ := h
    exact ⟨own ++ more, hs, by rw [hmore, hw, List.append_assoc], hown.append hundecided⟩
  | ends o s w' =>
    obtain ⟨more, hmore, hdecides⟩ := h
    exact ⟨own ++ more, by rw [hmore, hw, List.append_assoc], hown.decides_append hdecides⟩

/-- Nothing is decided after an event that decides nothing. -/
theorem Minds.react (h : Minds base s) (e : Event) : (s.react id e w).Decides base id w := by
  obtain ⟨hminds, hmild⟩ := h.handle e
  have hheard : (perform id (s.handle e).1 w).heard id =
      w.heard id ++ Diary.calls (s.handle e).1 := heard_perform hmild
  have hundecided := undecided_calls base (s.handle e).1
  unfold Screen.react
  simp only
  split
  · exact ⟨_, hminds, hheard, hundecided⟩
  · exact ⟨_, hheard, hundecided.decides⟩
  · exact ⟨_, hheard, hundecided.decides⟩

/-- **One turn**: an event that is handed out decides at once, or it decides nothing. -/
theorem Minds.turn (h : Minds base s) (id : Nat) (w : Session) :
    (s.turn id w).Decides base id w := by
  obtain ⟨hlooked, hmild⟩ := h.looked
  have hperform : (perform id s.lookActs w).heard id = w.heard id ++ Diary.calls s.lookActs :=
    heard_perform hmild
  have hcalls := undecided_calls base s.lookActs
  rw [turn_eq]
  generalize perform id s.lookActs w = w₁ at hperform ⊢
  rcases s.found with _ | _ | f
  · -- the next event is awaited
    have hnext : (w₁.next id).2.heard id = w₁.heard id ++ (w₁.next id).1.diary :=
      Session.heard_next
    simp only [await]
    generalize w₁.next id = next at hnext ⊢
    obtain ⟨arrival, w₂⟩ := next
    refine Turn.Decides.after hperform hcalls ?_
    cases arrival with
    | event e =>
      rcases hdecision : s.looked.decision? e with _ | o
      · refine Turn.Decides.after hnext ?_ (hlooked.react e)
        intro e' he'
        obtain rfl := Incident.event.inj (List.mem_singleton.mp he')
        exact (hlooked.decision?_eq e').symm.trans hdecision
      · -- nothing is heard after the event
        obtain ⟨notes, hreact⟩ : ∃ notes, s.looked.react id e w₂ =
            .ends o s.looked (perform id (Act.ofNotes notes) w₂) := react_of_decision hdecision
        have hsame : (perform id (Act.ofNotes notes) w₂).heard id = w₂.heard id ++ [] := by
          rw [heard_perform (mild_ofNotes notes), Diary.calls_ofNotes]
        rw [List.append_nil] at hsame
        have hdecides := decides_event ((hlooked.decision?_eq e).symm.trans hdecision)
        simp only [hreact]
        exact ⟨[.event e], hsame.trans hnext, hdecides⟩
    | notYet => exact ⟨[], hlooked, hnext, undecided_nil base⟩
    | rowsFirst =>
      simp only
      split
      · exact ⟨[], hnext, (undecided_nil base).decides⟩
      · exact ⟨[], hlooked, hnext, undecided_nil base⟩
  · exact Turn.Decides.after hperform hcalls (hlooked.react .accept)
  · exact ⟨_, hperform, hcalls.decides⟩

/-- **A conversation**, turn by turn: as long as it goes on, nothing was decided. -/
theorem Minds.converse (h : Minds base s) (id n : Nat) (w : Session) :
    ∃ own, (s.converse id n w).2.2.heard id = w.heard id ++ own ∧
      base.Decides own (s.converse id n w).1 := by
  induction n generalizing s w with
  | zero => exact ⟨[], (List.append_nil _).symm, (undecided_nil base).decides⟩
  | succ n ih =>
    have hturn := h.turn id w
    rw [converse_succ]
    cases heq : s.turn id w with
    | stays s' w' =>
      rw [heq] at hturn
      obtain ⟨own, hminds, hown, hundecided⟩ := hturn
      obtain ⟨more, hmore, hdecides⟩ := ih hminds w'
      refine ⟨own ++ more, ?_, hundecided.decides_append hdecides⟩
      rw [← List.append_assoc, ← hown]
      exact hmore
    | ends o s' w' =>
      rw [heq] at hturn
      exact hturn

theorem minds_appear (h : s.content.Quiet) (w : Session) : Minds s (s.appear w).2.1 := by
  rw [appear_snd]
  exact ⟨rfl, (quiet_appear h).2⟩

theorem heard_appear (h : s.content.Quiet) (w : Session) :
    (s.appear w).2.2.heard (s.appear w).1 =
      w.heard (s.appear w).1 ++ Diary.calls s.appearActs := by
  rw [← Diary.filterMap_calls (s.appear w).1]
  exact read_appear (Entry.reading_incident _) h w

/-- **Leaving a screen and clicking a button that settles or fails are decisive**, whatever the
screen is waiting for. -/
theorem decides_ask (h : s.content.Quiet) (n : Nat) (w : Session) :
    ∃ own, (s.ask n w).2.2.heard (s.appear w).1 = w.heard (s.appear w).1 ++ own ∧
      s.Decides own (s.ask n w).1 := by
  by_cases hdisposed : s.disposed = true
  · rw [ask, if_pos hdisposed]
    exact ⟨[], (List.append_nil _).symm, (undecided_nil s).decides⟩
  · obtain ⟨own, hown, hdecides⟩ := (minds_appear h w).converse (s.appear w).1 n (s.appear w).2.2
    rw [ask, if_neg hdisposed]
    refine ⟨Diary.calls s.appearActs ++ own, ?_, (undecided_calls s _).decides_append hdecides⟩
    rw [← List.append_assoc, ← heard_appear h]
    exact hown

end Screen

end Interview
