import Interview.Proofs.Controls.Screens
import Interview.Proofs.Run.Moves
import Interview.Sitting
import Interview.TwoTier
/-
No control outlives its question.

Only screens hold controls, and whoever asks a question gets rid of it: a step disposes its
question before it looks at the outcome, a tier is released before the next one is made, and
a form that is asked as one question is itself conducted step by step. So between two
questions no control is in use. This file follows that through the four functions that ask
(`Keeps`), by induction on the bound that they share. The bound may run out anywhere, which
is the case of an interview that is dropped while it is under way, and nothing is different
then: what is held is given up on the way out.

What is assumed of a form is that its questions are sound and come without a control, and that
making them touches none. Every question of the library is of that kind.
-/

set_option autoImplicit false

namespace Interview

/-! ## Sound questions and forms -/

/-- One session comes of another without a control being touched. -/
def Session.Aside (w w' : Session) : Prop :=
  w'.devices.length = w.devices.length ∧
    ∃ es : List Entry, (∀ e ∈ es, e.isNeutral = true) ∧ w'.entries = es ++ w.entries

theorem Session.aside_refl (w : Session) : w.Aside w :=
  ⟨rfl, [], fun _ he => absurd he List.not_mem_nil, rfl⟩

theorem Session.Aside.emit {w w' : Session} (h : w.Aside w') {es : List Entry}
    (hes : ∀ e ∈ es, e.isNeutral = true) : w.Aside (w'.emit es) := by
  obtain ⟨hdevices, es', hes', hentries⟩ := h
  refine ⟨hdevices, es.reverse ++ es', fun e he => ?_, ?_⟩
  · rcases List.mem_append.mp he with he | he
    · exact hes e (List.mem_reverse.mp he)
    · exact hes' e he
  · rw [List.append_assoc, ← hentries]
    rfl

theorem Session.Aside.report {w w' : Session} (h : w.Aside w') (o : Options) (r : Report) :
    w.Aside (w'.report o r) :=
  h.emit fun _ => Entry.isNeutral_of_mem_report

theorem Session.Uses.aside {w w' : Session} {active : Option Nat} (h : w.Uses active)
    (haside : w.Aside w') : w'.Uses active := by
  obtain ⟨hdevices, es, hes, hentries⟩ := haside
  have hemit : (w.emit es.reverse).Uses active :=
    h.emit fun e he => hes e (List.mem_reverse.mp he)
  refine hemit.congr ?_ hdevices
  rw [hentries, Session.emit, List.reverse_reverse]

/-- The control that a question holds. -/
def Question.held : Question → Option Nat
  | .screen s => s.control
  | .mapped _ _ inner => inner.held
  | .watched _ _ inner => inner.held
  | _ => none

mutual

/-- **A question that gets rid of its control.** -/
inductive Question.Sound : Question → Prop
  | screen {s : Screen} (sound : s.Sound) : Question.Sound (.screen s)
  | deck (id copy : Nat) (disposed : Bool) : Question.Sound (.deck id copy disposed)
  | mapped {f : Json → Json} {inverse : Option (Json → Json)} {inner : Question}
    (sound : Question.Sound inner) : Question.Sound (.mapped f inverse inner)
  | twoTier {keys : Option Json → Session → Question × Session}
    {items : Json → Session → Question × Session} {recent : Option Json}
    {steps : Option (Nat × Nat)} (fresh_keys : ∀ recent, Fresh (keys recent))
    (fresh_items : ∀ key, Fresh (items key)) : Question.Sound (.twoTier keys items recent steps)
  | nested {form : Form} {initial recent : Draft} {options : Options} (sound : Form.Sound form) :
    Question.Sound (.nested form initial recent options)
  | watched {label : String} {type : AnswerType} {inner : Question}
    (sound : Question.Sound inner) : Question.Sound (.watched label type inner)
  | failing (cause : Failure) : Question.Sound (.failing cause)
  | unanswered : Question.Sound .unanswered

/-- What makes questions that are sound and hold no control yet, and touches no control. -/
inductive Fresh : (Session → Question × Session) → Prop
  | intro {make : Session → Question × Session} (sound : ∀ w, Question.Sound (make w).1)
    (idle : ∀ w, (make w).1.held = none) (aside : ∀ w, Session.Aside w (make w).2) : Fresh make

/-- A form whose fields make fresh questions. -/
inductive Form.Sound : Form → Prop
  | intro {form : Form} (fresh : ∀ f ∈ form.fields, ∀ c make, f.offer c = .ask make → Fresh make) :
    Form.Sound form

end

theorem Fresh.sound {make : Session → Question × Session} (h : Fresh make) (w : Session) :
    (make w).1.Sound := by
  cases h with
  | intro sound _ _ => exact sound w

/-- In a session without a control in use, a fresh question is made without one. -/
theorem Fresh.uses {make : Session → Question × Session} (h : Fresh make) {w : Session}
    (hw : w.Uses none) : (make w).2.Uses (make w).1.held := by
  cases h with
  | intro _ idle aside =>
      rw [idle]
      exact hw.aside (aside w)

theorem Form.Sound.fresh {form : Form} (h : form.Sound) {f : Field} (hf : f ∈ form.fields)
    {c : Context} {make : Session → Question × Session} (hmake : f.offer c = .ask make) :
    Fresh make := by
  cases h with
  | intro fresh => exact fresh f hf c make hmake

/-! ## Before and after asking -/

/-- A sound question in a session in which its control, if it has one, is in use. -/
def Held (x : Question × Session) : Prop :=
  x.1.Sound ∧ x.2.Uses x.1.held

namespace Question.Sound

/-- A question that is told of an earlier attempt keeps what it holds. -/
theorem restore (a : Attempt Json) : ∀ {q : Question} {w : Session}, q.Sound → w.Uses q.held →
    Held (q.restore a w)
  | .screen _, _, .screen hs, hw => ⟨.screen (hs.restore a), hw⟩
  | .deck id copy disposed, _, _, hw => ⟨.deck id copy disposed, hw.congr rfl rfl⟩
  | .mapped _ none _, _, h, hw => ⟨h, hw⟩
  | .mapped _ (some g) _, _, .mapped hinner, hw => by
      obtain ⟨hsound, huses⟩ := restore (a.map g) hinner hw
      exact ⟨.mapped hsound, huses⟩
  | .twoTier .., _, .twoTier hkeys hitems, hw => ⟨.twoTier hkeys hitems, hw⟩
  | .nested form initial recent options, w, .nested hform, hw => by
      obtain ⟨d, hd⟩ := restore_nested form initial recent options a w
      rw [hd]
      exact ⟨.nested hform, hw⟩
  | .watched label type inner, w, .watched hinner, hw => by
      have hemit : (w.emit [.used label (.restored ⟨type.shown a.value, a.error⟩)]).Uses
          inner.held := hw.emit fun e he => List.mem_singleton.mp he ▸ rfl
      obtain ⟨hsound, huses⟩ := restore a hinner hemit
      exact ⟨.watched hsound, huses⟩
  | .failing _, _, h, hw => ⟨h, hw⟩
  | .unanswered, _, h, hw => ⟨h, hw⟩

/-- A question that is told its place keeps what it holds. -/
theorem place (current total : Nat) : ∀ {q : Question} {w : Session}, q.Sound → w.Uses q.held →
    Held (q.place current total w)
  | .screen _, _, .screen hs, hw => by
      obtain ⟨hsound, huses⟩ := hs.place hw current total
      exact ⟨.screen hsound, huses⟩
  | .deck id copy disposed, _, _, hw => ⟨.deck id copy disposed, hw.congr rfl rfl⟩
  | .mapped .., _, .mapped hinner, hw => by
      obtain ⟨hsound, huses⟩ := place current total hinner hw
      exact ⟨.mapped hsound, huses⟩
  | .twoTier .., _, .twoTier hkeys hitems, hw => ⟨.twoTier hkeys hitems, hw⟩
  | .nested .., _, h, hw => ⟨h, hw⟩
  | .watched label type inner, w, .watched hinner, hw => by
      have hemit : (w.emit [.used label (.placed current total)]).Uses inner.held :=
        hw.emit fun e he => List.mem_singleton.mp he ▸ rfl
      obtain ⟨hsound, huses⟩ := place current total hinner hemit
      exact ⟨.watched hsound, huses⟩
  | .failing _, _, h, hw => ⟨h, hw⟩
  | .unanswered, _, h, hw => ⟨h, hw⟩

theorem uses_dispose_deck (id copy : Nat) (disposed : Bool) {w : Session} (hw : w.Uses none) :
    ((Question.deck id copy disposed).dispose w).2.Uses none := by
  unfold Question.dispose
  split
  · exact hw
  · exact hw.congr rfl rfl

/-- **Disposing a question** leaves no control in use. -/
theorem dispose : ∀ {q : Question} {w : Session}, q.Sound → w.Uses q.held →
    (q.dispose w).2.Uses none
  | .screen _, _, .screen hs, hw => hs.dispose hw
  | .deck id copy disposed, _, _, hw => uses_dispose_deck id copy disposed hw
  | .mapped .., _, .mapped hinner, hw => by
      have huses := dispose hinner hw
      exact huses
  | .twoTier .., _, _, hw => hw
  | .nested .., _, _, hw => hw
  | .watched label type inner, w, .watched hinner, hw => by
      have hemit : (w.emit [.used label .disposed]).Uses inner.held :=
        hw.emit fun e he => List.mem_singleton.mp he ▸ rfl
      have huses := dispose hinner hemit
      exact huses
  | .failing _, _, _, hw => hw
  | .unanswered, _, _, hw => hw

/-- **Dropping a question** leaves no control in use. -/
theorem drop : ∀ {q : Question} {w : Session}, q.Sound → w.Uses q.held → (q.drop w).Uses none
  | .screen _, _, .screen hs, hw => hs.dispose hw
  | .deck .., _, _, hw => hw
  | .mapped .., _, .mapped hinner, hw => by
      have huses := drop hinner hw
      exact huses
  | .twoTier .., _, _, hw => hw
  | .nested .., _, _, hw => hw
  | .watched .., _, .watched hinner, hw => by
      have huses := drop hinner hw
      exact huses
  | .failing _, _, _, hw => hw
  | .unanswered, _, _, hw => hw

/-- A tier that is released leaves no control in use. -/
theorem release {α : Type} {q : Question} {w : Session} (h : q.Sound) (hw : w.Uses q.held)
    (o : Outcome α) : (releaseTier o q w).Uses none := by
  unfold releaseTier
  split
  · exact h.drop hw
  · exact h.dispose hw

end Question.Sound

/-- A question that is prepared for a step keeps what it holds. -/
theorem Held.prepareQuestion {q : Question} {w : Session} (hq : q.Sound) (hw : w.Uses q.held)
    (f : Field) (attempt : Option (Attempt Json)) (current total : Nat) :
    Held (prepareQuestion f attempt current total q w) := by
  unfold Interview.prepareQuestion
  simp only
  split
  · obtain ⟨hsound, huses⟩ := hq.restore _ hw
    exact hsound.place current total huses
  · exact hq.place current total hw

/-- A tier that is prepared keeps what it holds. -/
theorem Held.prepareTier {q : Question} {w : Session} (hq : q.Sound) (hw : w.Uses q.held)
    (steps : Option (Nat × Nat)) : Held (prepareTier steps q w) := by
  unfold Interview.prepareTier
  split
  · exact hq.place _ _ hw
  · exact ⟨hq, hw⟩

/-! ## Settling and searching -/

/-- **Weighing an answer** only notes things. -/
theorem Session.aside_weigh (w : Session) (f : Field) (v : Json) (d : Draft) :
    w.Aside (weigh f v d w).2 := by
  have hnoted : ∀ notes : List Note, w.Aside (w.emit (notes.map Entry.noted)) := fun _ =>
    w.aside_refl.emit fun _ => Entry.isNeutral_of_mem_noted
  unfold weigh
  split
  · exact w.aside_refl
  · split
    · exact w.aside_refl
    · simp only
      split
      · exact hnoted _
      · split
        · exact hnoted _
        · exact hnoted _
        · exact hnoted _

theorem Run.aside_settleAnswer (r : Run) (o : Options) (place : Nat) (f : Field) (answer : Json)
    (w : Session) : w.Aside (r.settleAnswer o place f answer w).2 := by
  unfold settleAnswer
  split
  · exact w.aside_refl
  · rename_i v _
    have hweighed := w.aside_weigh f v r.draft
    split
    · rename_i heq
      rwa [heq] at hweighed
    · rename_i heq
      rwa [heq] at hweighed
    · rename_i heq
      rw [heq] at hweighed
      exact hweighed.report o _
    · -- the answer was accepted, and is stored or not
      rename_i heq
      rw [heq] at hweighed
      split
      · exact hweighed
      · exact hweighed.report o _

theorem Run.aside_settleBack (r : Run) (o : Options) (form : Form) (place : Nat) (f : Field)
    (w : Session) : w.Aside (r.settleBack o form place f w).2 := by
  unfold settleBack
  split
  · exact w.aside_refl.report o _
  · simp only
    split
    · exact w.aside_refl.report o _
    · exact w.aside_refl.report o _

/-- **Settling an outcome touches no control.** -/
theorem Run.aside_settle (r : Run) (o : Options) (form : Form) (place : Nat) (f : Field)
    (outcome : Outcome (Reply Json)) (w : Session) :
    w.Aside (r.settle o form place f outcome w).2 := by
  unfold settle
  split
  · exact r.aside_settleAnswer o place f _ w
  · exact r.aside_settleBack o form place f w
  · exact w.aside_refl.report o _
  · exact w.aside_refl
  · exact w.aside_refl
  · exact w.aside_refl

/-- What is reported in the course of a search is not about controls. -/
theorem Run.isNeutral_of_mem_seekFrom {o : Options} : ∀ {fields : List Field} {r : Run} {i : Nat}
    {e : Entry}, e ∈ (r.seekFrom o i fields).1 → e.isNeutral = true := by
  intro fields
  induction fields with
  | nil => exact fun he => absurd he List.not_mem_nil
  | cons f rest ih =>
      intro r i e he
      rw [seekFrom] at he
      split at he
      · exact ih he
      · split at he
        · rcases List.mem_append.mp he with he | he
          · exact Entry.isNeutral_of_mem_report he
          · exact ih he
        · -- the field was consulted, which is noted, and reported if it has no question
          simp only at he
          split at he
          · rcases List.mem_append.mp he with he | he
            · rcases List.mem_append.mp he with he | he
              · exact Entry.isNeutral_of_mem_noted he
              · exact Entry.isNeutral_of_mem_report he
            · exact ih he
          · exact Entry.isNeutral_of_mem_noted he
          · exact Entry.isNeutral_of_mem_noted he

/-- A step presents its question with what the question holds in use. -/
theorem Run.held_present {make : Session → Question × Session} (hmake : Fresh make) {w : Session}
    (hw : w.Uses none) (r : Run) (o : Options) (form : Form) (place : Nat) (f : Field)
    (attempt : Option (Attempt Json)) : Held (r.present o form place f attempt make w) := by
  obtain ⟨hsound, huses⟩ := Held.prepareQuestion (hmake.sound w) (hmake.uses hw) f attempt
    r.current (r.total form place)
  exact ⟨hsound, huses.report o _⟩

/-! ## Asking -/

/-- **With this bound, whatever is asked keeps what it holds, and whatever is conducted leaves no
control in use.** -/
structure Keeps (n : Nat) : Prop where
  ask : ∀ {q : Question} {w : Session}, q.Sound → w.Uses q.held → Held (q.ask n w).2
  askTiers : ∀ {keys : Option Json → Session → Question × Session}
    {items : Json → Session → Question × Session}, (∀ recent, Fresh (keys recent)) →
    (∀ key, Fresh (items key)) → ∀ (recent : Option Json) (steps : Option (Nat × Nat))
    {w : Session}, w.Uses none → (askTiers n keys items recent steps w).2.2.Uses none
  conductForm : ∀ {form : Form}, form.Sound → ∀ (o : Options) (initial recent : Draft)
    {w : Session}, w.Uses none → (conductForm n form o initial recent w).2.Uses none
  conduct : ∀ {form : Form}, form.Sound → ∀ (o : Options) (r : Run) {w : Session},
    w.Uses none → (conduct n form o r w).2.Uses none

namespace Keeps

variable {n : Nat}

/-- Nothing is asked within no turns at all. -/
theorem zero : Keeps 0 where
  ask hq hw := ⟨hq, hw⟩
  askTiers _ _ _ _ _ hw := hw
  conductForm _ _ _ _ _ hw := hw
  conduct _ _ _ _ hw := hw

theorem ask_succ (h : Keeps n) : ∀ {q : Question} {w : Session}, q.Sound → w.Uses q.held →
    Held (q.ask (n + 1) w).2
  | .screen _, _, .screen hs, hw => by
      obtain ⟨hsound, huses⟩ := hs.ask hw n
      exact ⟨.screen hsound, huses⟩
  | .deck id copy disposed, _, _, hw => ⟨.deck id copy disposed, hw.draw id copy⟩
  | .mapped .., _, .mapped hinner, hw => by
      obtain ⟨hsound, huses⟩ := h.ask hinner hw
      exact ⟨.mapped hsound, huses⟩
  | .twoTier _ _ recent steps, _, .twoTier hkeys hitems, hw =>
      ⟨.twoTier hkeys hitems, h.askTiers hkeys hitems recent steps hw⟩
  | .nested _ initial recent options, _, .nested hform, hw =>
      ⟨.nested hform, h.conductForm hform options initial recent hw⟩
  | .watched label type inner, w, .watched hinner, hw => by
      have hemit : (w.emit [.used label .asked]).Uses inner.held :=
        hw.emit fun e he => List.mem_singleton.mp he ▸ rfl
      obtain ⟨hsound, huses⟩ := h.ask hinner hemit
      refine ⟨.watched hsound, huses.emit fun e he => ?_⟩
      unfold replyEntries at he
      split at he
      · exact List.mem_singleton.mp he ▸ rfl
      · exact absurd he List.not_mem_nil
  | .failing cause, _, _, hw => ⟨.failing cause, hw⟩
  | .unanswered, _, _, hw => ⟨.unanswered, hw⟩

/-- A tier is made, asked and released. -/
theorem tier (h : Keeps n) {make : Session → Question × Session} (hmake : Fresh make)
    (steps : Option (Nat × Nat)) {w : Session} (hw : w.Uses none) :
    let q := prepareTier steps (make w).1 (make w).2
    let asked := q.1.ask n q.2
    (releaseTier asked.1 asked.2.1 asked.2.2).Uses none := by
  obtain ⟨hsound, huses⟩ := Held.prepareTier (hmake.sound w) (hmake.uses hw) steps
  obtain ⟨hsound', huses'⟩ := h.ask hsound huses
  exact hsound'.release huses' _

theorem askTiers_succ (h : Keeps n) {keys : Option Json → Session → Question × Session}
    {items : Json → Session → Question × Session} (hkeys : ∀ recent, Fresh (keys recent))
    (hitems : ∀ key, Fresh (items key)) (recent : Option Json) (steps : Option (Nat × Nat))
    {w : Session} (hw : w.Uses none) :
    (Interview.askTiers (n + 1) keys items recent steps w).2.2.Uses none := by
  have hfirst := h.tier (hkeys recent) steps hw
  rw [Interview.askTiers]
  simp only
  split
  · rename_i key _
    have hsecond := h.tier (hitems key) steps hfirst
    split
    · exact hsecond
    · -- the user went back from the items, and the keys are asked again
      exact h.askTiers hkeys hitems (some key) steps hsecond
    · exact hsecond
  · exact hfirst

theorem conductForm_succ (h : Keeps n) {form : Form} (hform : form.Sound) (o : Options)
    (initial recent : Draft) {w : Session} (hw : w.Uses none) :
    (Interview.conductForm (n + 1) form o initial recent w).2.Uses none := by
  rw [Interview.conductForm]
  split
  · exact hw
  · exact h.conduct hform o _ hw

/-- One turn of a run: the question of the step is gone before the outcome is looked at. -/
theorem conduct_succ (h : Keeps n) {form : Form} (hform : form.Sound) (o : Options) (r : Run)
    {w : Session} (hw : w.Uses none) : (Interview.conduct (n + 1) form o r w).2.Uses none := by
  rw [Interview.conduct]
  have hsearch : (w.emit (r.seek o form).1).Uses none :=
    hw.emit fun _ he => Run.isNeutral_of_mem_seekFrom he
  rcases hseek : r.seek o form with ⟨entries, run, _ | e | ⟨place, f, attempt, make⟩⟩
  · -- nothing is left to ask
    rw [hseek] at hsearch
    simp only [Run.conclude]
    split
    · exact hsearch
    · exact hsearch.report o _
  · rw [hseek] at hsearch
    exact hsearch
  · rw [hseek] at hsearch
    have hmake : Fresh make := by
      obtain ⟨hf, hoffer⟩ := Run.offer_of_seek_eq hseek
      exact hform.fresh (List.mem_of_getElem? hf) hoffer
    obtain ⟨hsound, huses⟩ := Run.held_present hmake hsearch run o form place f attempt
    obtain ⟨hsound', huses'⟩ := h.ask hsound huses
    -- disposing the question frees its control, whatever the outcome is
    have hsettled := (hsound'.dispose huses').aside (Run.aside_settle run o form place f
      ((run.present o form place f attempt make (w.emit entries)).1.ask n
        (run.present o form place f attempt make (w.emit entries)).2).1 _)
    simp only
    split
    · rename_i heq
      rwa [heq] at hsettled
    · rename_i heq
      rw [heq] at hsettled
      exact h.conduct hform o _ hsettled

end Keeps

/-- **Asking keeps what a question holds, and conducting leaves nothing in use**, whatever the bound
is. The four functions call one another with a smaller bound, so the induction is on it. -/
theorem keeps (n : Nat) : Keeps n := by
  induction n with
  | zero => exact .zero
  | succ n ih =>
      exact {
        ask := ih.ask_succ
        askTiers := ih.askTiers_succ
        conductForm := ih.conductForm_succ
        conduct := ih.conduct_succ }

end Interview
