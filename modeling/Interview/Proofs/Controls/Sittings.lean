import Interview.Flows.TailForm
import Interview.Proofs.Controls.Questions
/-
Every control of a sitting is disposed once, and no two are in use at a time.

The statement is about the transcript alone, so it does not matter how the sitting ends: the
user may fill the form or leave it, a collaborator may fail, and the sitting may be dropped
while something is awaited or after any number of turns.

The questions of the library are sound by construction. A screen has no control before it is
asked, copies have none, a form that is asked as one question is sound with its fields, and a
list that is loaded is sound if what its supply notes is not about controls.
-/

set_option autoImplicit false

namespace Interview

/-! ## Making questions -/

theorem Session.Aside.trans {w₁ w₂ w₃ : Session} (h : w₁.Aside w₂) (h' : w₂.Aside w₃) :
    w₁.Aside w₃ := by
  obtain ⟨hdevices, es, hes, hentries⟩ := h
  obtain ⟨hdevices', es', hes', hentries'⟩ := h'
  refine ⟨hdevices'.trans hdevices, es' ++ es, fun e he => ?_, ?_⟩
  · rcases List.mem_append.mp he with he | he
    · exact hes' e he
    · exact hes e he
  · rw [hentries', hentries, List.append_assoc]

/-- What a question is when it was made and not asked yet. -/
def Question.IsFresh (w : Session) (x : Question × Session) : Prop :=
  x.1.Sound ∧ x.1.held = none ∧ w.Aside x.2

/-- A copy of a sound question is fresh. -/
theorem Question.Sound.copy : ∀ {q : Question} (w : Session), q.Sound →
    Question.IsFresh w (q.copy w)
  | .screen _, w, .screen hs => ⟨.screen hs.copy, rfl, w.aside_refl⟩
  | .deck .., _, _ => ⟨.deck .., rfl, rfl, [], fun _ he => absurd he List.not_mem_nil, rfl⟩
  | .mapped .., w, .mapped hinner => by
      obtain ⟨hsound, hheld, haside⟩ := copy w hinner
      exact ⟨.mapped hsound, hheld, haside⟩
  | .twoTier .., w, h => ⟨h, rfl, w.aside_refl⟩
  | .nested .., w, h => ⟨h, rfl, w.aside_refl⟩
  | .watched label _ _, w, .watched hinner => by
      have hemit : w.Aside (w.emit [.used label .copied]) :=
        w.aside_refl.emit fun e he => List.mem_singleton.mp he ▸ rfl
      obtain ⟨hsound, hheld, haside⟩ := copy (w.emit [.used label .copied]) hinner
      exact ⟨.watched hsound, hheld, hemit.trans haside⟩
  | .failing _, w, h => ⟨h, rfl, w.aside_refl⟩
  | .unanswered, w, h => ⟨h, rfl, w.aside_refl⟩

theorem Question.Sound.fresh_copy {q : Question} (h : q.Sound) : Fresh q.copy :=
  .intro (fun w => (h.copy w).1) (fun w => (h.copy w).2.1) fun w => (h.copy w).2.2

/-- A question that holds no control is fresh as it is. -/
theorem Question.Sound.fresh_self {q : Question} (h : q.Sound) (hheld : q.held = none) :
    Fresh fun w => (q, w) :=
  .intro (fun _ => h) (fun _ => hheld) Session.aside_refl

/-- A two-tier question is sound if the loads of its items are quiet. -/
theorem Question.sound_lookup (w : Wording) (title : String) (keys : List Item)
    {load : Json → Load} (h : ∀ key, (load key).Quiet) :
    (Question.lookup w title keys load).Sound := by
  refine .twoTier (fun recent => ?_) fun key => ?_
  · have hscreen : (keyScreen w title keys recent).Sound :=
      Screen.sound_of_quiet (PickList.quiet_of_idle trivial rfl) rfl
    exact (Question.Sound.screen hscreen).fresh_self rfl
  · have hscreen : (itemScreen w title keys load key).Sound :=
      Screen.sound_of_quiet (PickList.quiet_of_idle (h key) rfl) rfl
    exact (Question.Sound.screen hscreen).fresh_self rfl

/-! ## Making forms -/

/-- Every question that the field offers is fresh. -/
def Field.Sound (f : Field) : Prop :=
  ∀ c make, f.offer c = .ask make → Fresh make

theorem Field.sound_asking (path : Path) (type : AnswerType) {q : Question} (h : q.Sound) :
    (Field.asking path type q).Sound := by
  intro c make hoffer
  rw [Field.asking, Offer.ask.injEq] at hoffer
  exact hoffer ▸ h.fresh_copy

namespace Form

theorem sound_iff {form : Form} : form.Sound ↔ ∀ f ∈ form.fields, f.Sound :=
  ⟨fun h _ hf _ _ hoffer => h.fresh hf hoffer, fun h => .intro h⟩

theorem sound_empty : Form.empty.Sound :=
  sound_iff.mpr fun _ hf => absurd hf List.not_mem_nil

theorem Sound.bind {form : Form} (h : form.Sound) {f : Field} (hf : f.Sound) :
    (form.bind f).Sound := by
  refine sound_iff.mpr fun g hg => ?_
  rcases mem_fields_bind hg with rfl | hg
  · exact hf
  · exact sound_iff.mp h g hg

/-- **A form that is asked as one question** is a sound field, if its own fields are sound. -/
theorem Sound.asField {form : Form} (h : form.Sound) (path : Path) : (form.asField path).Sound := by
  intro c make hoffer
  simp only [Form.asField] at hoffer
  split at hoffer
  · rw [Offer.ask.injEq] at hoffer
    exact hoffer ▸ (Question.Sound.nested h).fresh_self rfl
  · exact absurd hoffer (by simp)

end Form

/-- A lookup of log groups notes at most a line of the log. -/
theorem LogGroups.quiet_load (g : LogGroups) (region : String) : (g.load region).Quiet := by
  refine ⟨fun e he => absurd he List.not_mem_nil, fun b hb e he => ?_⟩
  rw [List.mem_singleton.mp hb] at he
  simp only at he
  split at he
  · exact List.mem_singleton.mp he ▸ rfl
  · exact absurd he List.not_mem_nil

/-- The form of a live-tail request is sound, whatever the validator of its pattern is. -/
theorem TailRequest.sound_form (w : Wording) (groups : LogGroups) (v : Validator) :
    (TailRequest.form w groups v).Sound := by
  have hgroup : (groups.question w).Sound :=
    Question.sound_lookup w _ _ fun _ => groups.quiet_load _
  have hpattern : (FilterPattern.question w v).Sound :=
    .screen (Screen.sound_of_quiet trivial rfl)
  have hstart : (TailRequest.startQuestion w).Sound :=
    .screen (Screen.sound_of_quiet (PickList.quiet_of_idle trivial rfl) rfl)
  exact ((Form.sound_empty.bind (Field.sound_asking _ _ hgroup)).bind
    (Field.sound_asking _ _ hpattern)).bind (Field.sound_asking _ _ hstart)

/-! ## Sittings -/

/-- **Every control is disposed once, and one control lives at a time.** Whatever the form, the host
and the end of the sitting are, every control that was made is disposed exactly once, nothing
happens to a control after its disposal, and a control is made only when all earlier ones were
disposed. No control is in use afterwards, so sittings may follow one another. -/
theorem Sitting.controlsDisposed_of_conduct {α : Type} (n : Nat) (read : Json → Option α)
    {s : Sitting} (hform : s.form.Sound) {w : Session} (hw : w.Uses none) :
    ControlsDisposed (s.conduct n read w).2.2.transcript ∧ (s.conduct n read w).2.2.Uses none := by
  have huses : (s.conduct n read w).2.2.Uses none := by
    unfold Sitting.conduct
    split
    · exact (keeps n).conductForm hform s.options s.initial .empty hw
    · exact hw
  exact ⟨Books.controlsDisposed huses, huses⟩

/-- The sitting for a form with the form of a live-tail request as its only question. -/
def TailRequest.nestedSitting : Sitting :=
  let request := TailRequest.form .english .sample FilterPattern.validator
  .new (Form.empty.bind (request.asField (.ofText "request"))) .empty .default

/-- A user who picks a region, goes back from its log groups, picks the region again, goes back from
the pattern, and then leaves. -/
def Session.wandering : Session :=
  .new (.rehearsal [[.accept], [.button 0], [.accept], [.accept], [.changed "ERROR", .button 0]])

/-- Every control that the user met is disposed, though the sitting ends inside the nested form. -/
theorem controlsDisposed_of_wandering :
    TailRequest.nestedSitting.form.Sound ∧ Session.wandering.Uses none ∧
    ControlsDisposed
      (TailRequest.nestedSitting.conduct 20 some Session.wandering).2.2.transcript := by
  have hform : TailRequest.nestedSitting.form.Sound :=
    Form.sound_empty.bind ((TailRequest.sound_form _ _ _).asField _)
  have hw : Session.wandering.Uses none := Session.uses_new _
  exact ⟨hform, hw, (Sitting.controlsDisposed_of_conduct 20 some hform hw).1⟩

end Interview
