import Interview.Proofs.Ending.Screens
import Interview.Proofs.Ending.Waiting
/-
Questions come to an end.

A question of a rehearsal is shown on a screen or answered from a deck, or it is made of others. It
comes to an end because whatever it is made of does, and because asking the two tiers in turn uses
the replies up: who goes back from the items has given a reply.

Between its making and its asking a question is told of an earlier attempt and of its place. That
makes another question of it, so that an induction on what a question is made of would not fit.
Therefore `Question.Prepared` says which questions are the same but for such preparations, and what
is shown holds for all of them at once.
-/

set_option autoImplicit false

namespace Interview

/-! ## Questions of a rehearsal -/

mutual

/-- **A question of a rehearsal that was not asked yet.** `forms` says whether there may be forms in
it, and `P` holds of all fields of those. -/
inductive Question.Unasked (P : Field → Prop) : Bool → Question → Prop
  | screen {forms : Bool} {s : Screen} (control : s.control = none)
    (waits : s.content.waits = false) : Question.Unasked P forms (.screen s)
  | deck (forms : Bool) (id copy : Nat) (disposed : Bool) :
    Question.Unasked P forms (.deck id copy disposed)
  | mapped {forms : Bool} {f : Json → Json} {inverse : Option (Json → Json)} {inner : Question}
    (unasked : Question.Unasked P forms inner) : Question.Unasked P forms (.mapped f inverse inner)
  | twoTier {forms : Bool} {keys : Option Json → Session → Question × Session}
    {items : Json → Session → Question × Session} {recent : Option Json}
    {steps : Option (Nat × Nat)} (makes_keys : ∀ recent, MakesUnasked P forms (keys recent))
    (makes_items : ∀ key, MakesUnasked P forms (items key)) :
    Question.Unasked P forms (.twoTier keys items recent steps)
  | nested {form : Form} {initial recent : Draft} {options : Options}
    (rehearsable : Form.Rehearsable P form) :
    Question.Unasked P true (.nested form initial recent options)
  | watched {forms : Bool} {label : String} {type : AnswerType} {inner : Question}
    (unasked : Question.Unasked P forms inner) : Question.Unasked P forms (.watched label type inner)
  | failing (forms : Bool) (cause : Failure) : Question.Unasked P forms (.failing cause)

/-- What makes such questions, and prompts for nothing. -/
inductive MakesUnasked (P : Field → Prop) : Bool → (Session → Question × Session) → Prop
  | intro {forms : Bool} {make : Session → Question × Session}
    (unasked : ∀ w, Question.Unasked P forms (make w).1)
    (undrawn : ∀ w, Session.Undrawn w (make w).2) : MakesUnasked P forms make

/-- **A form of a rehearsal.** A field with a check asks for no form. -/
inductive Form.Rehearsable (P : Field → Prop) : Form → Prop
  | intro {form : Form} (holds : ∀ f ∈ form.fields, P f)
    (makes : ∀ f ∈ form.fields, ∀ c make, f.offer c = .ask make →
      MakesUnasked P f.check.isNone make) : Form.Rehearsable P form

end

/-! ## Preparing -/

/-- The second question is the first one, told of attempts and of its place. -/
inductive Question.Prepared : Question → Question → Prop
  | screen {s s' : Screen} (control : s'.control = none) (waits : s'.content.waits = false) :
    Prepared (.screen s) (.screen s')
  | deck {id copy : Nat} {disposed : Bool} : Prepared (.deck id copy disposed)
    (.deck id copy disposed)
  | mapped {f : Json → Json} {inverse : Option (Json → Json)} {inner inner' : Question}
    (prepared : Prepared inner inner') : Prepared (.mapped f inverse inner) (.mapped f inverse inner')
  | twoTier {keys : Option Json → Session → Question × Session}
    {items : Json → Session → Question × Session} {recent recent' : Option Json}
    {steps steps' : Option (Nat × Nat)} :
    Prepared (.twoTier keys items recent steps) (.twoTier keys items recent' steps')
  | nested {form : Form} {initial recent recent' : Draft} {options : Options} :
    Prepared (.nested form initial recent options) (.nested form initial recent' options)
  | watched {label : String} {type : AnswerType} {inner inner' : Question}
    (prepared : Prepared inner inner') : Prepared (.watched label type inner)
      (.watched label type inner')
  | failing {cause : Failure} : Prepared (.failing cause) (.failing cause)

/-- A question that was not asked yet is prepared as it is. -/
theorem Question.Unasked.prepared {P : Field → Prop} {forms : Bool} :
    ∀ {q : Question}, q.Unasked P forms → q.Prepared q
  | _, .screen control waits => .screen control waits
  | _, .deck .. => .deck
  | _, .mapped unasked => .mapped unasked.prepared
  | _, .twoTier .. => .twoTier
  | _, .nested _ => .nested
  | _, .watched unasked => .watched unasked.prepared
  | _, .failing .. => .failing

namespace Question.Prepared

variable {q q' : Question}

/-- Being told of an attempt. -/
theorem restore (h : q.Prepared q') (a : Attempt Json) (w : Session) :
    q.Prepared (q'.restore a w).1 ∧ w.Undrawn (q'.restore a w).2 := by
  induction h generalizing a w with
  | @screen s s' control waits =>
      refine ⟨.screen control ?_, w.undrawn_refl⟩
      rcases hs : s'.content with t | l
      · simp only [Screen.restore, hs]
        rfl
      · simp only [Screen.restore, hs]
        rfl
  | deck => exact ⟨.deck, Session.undrawn_onDeck _ (f := fun d => d.restore a) (fun _ => rfl) w⟩
  | @mapped f inverse inner inner' prepared ih =>
      rcases inverse with _ | g
      · exact ⟨.mapped prepared, w.undrawn_refl⟩
      · obtain ⟨hprepared, hundrawn⟩ := ih (a.map g) w
        exact ⟨.mapped hprepared, hundrawn⟩
  | twoTier => exact ⟨.twoTier, w.undrawn_refl⟩
  | @nested form initial recent recent' options =>
      obtain ⟨d, hd⟩ := restore_nested form initial recent' options a w
      rw [hd]
      exact ⟨.nested, w.undrawn_refl⟩
  | @watched label type inner inner' prepared ih =>
      obtain ⟨hprepared, hundrawn⟩ :=
        ih a (w.emit [.used label (.restored ⟨type.shown a.value, a.error⟩)])
      exact ⟨.watched hprepared, (Session.undrawn_emit _ w).trans hundrawn⟩
  | failing => exact ⟨.failing, w.undrawn_refl⟩

/-- Being told of the place. -/
theorem place (h : q.Prepared q') (current total : Nat) (w : Session) :
    q.Prepared (q'.place current total w).1 ∧ w.Undrawn (q'.place current total w).2 := by
  induction h generalizing w with
  | @screen s s' control waits =>
      have hplace : s'.place current total w =
          ({ s' with steps := some (current, total) }, w) := by
        simp only [Screen.place, control]
        split
        · exact absurd ‹none = some _› (by simp)
        · rfl
      simp only [Question.place, hplace]
      exact ⟨.screen control waits, w.undrawn_refl⟩
  | deck =>
      exact ⟨.deck,
        Session.undrawn_onDeck _ (f := fun d => d.place current total) (fun _ => rfl) w⟩
  | mapped prepared ih =>
      obtain ⟨hprepared, hundrawn⟩ := ih w
      exact ⟨.mapped hprepared, hundrawn⟩
  | twoTier => exact ⟨.twoTier, w.undrawn_refl⟩
  | nested => exact ⟨.nested, w.undrawn_refl⟩
  | @watched label type inner inner' prepared ih =>
      obtain ⟨hprepared, hundrawn⟩ := ih (w.emit [.used label (.placed current total)])
      exact ⟨.watched hprepared, (Session.undrawn_emit _ w).trans hundrawn⟩
  | failing => exact ⟨.failing, w.undrawn_refl⟩

/-- Being prepared for a step. -/
theorem prepareQuestion (h : q.Prepared q') (f : Field) (attempt : Option (Attempt Json))
    (current total : Nat) (w : Session) :
    q.Prepared (prepareQuestion f attempt current total q' w).1 ∧
      w.Undrawn (prepareQuestion f attempt current total q' w).2 := by
  unfold Interview.prepareQuestion
  rcases attempt.bind f.type.attempt? with _ | a
  · exact h.place current total w
  · obtain ⟨hrestored, hundrawn⟩ := h.restore a w
    obtain ⟨hplaced, hundrawn'⟩ := hrestored.place current total (q'.restore a w).2
    exact ⟨hplaced, hundrawn.trans hundrawn'⟩

/-- Being prepared as a tier. -/
theorem prepareTier (h : q.Prepared q') (steps : Option (Nat × Nat)) (w : Session) :
    q.Prepared (prepareTier steps q' w).1 ∧ w.Undrawn (prepareTier steps q' w).2 := by
  unfold Interview.prepareTier
  split
  · exact h.place _ _ w
  · exact ⟨h, w.undrawn_refl⟩

end Question.Prepared

/-! ## Letting go -/

theorem Screen.undrawn_dispose (s : Screen) (w : Session) : w.Undrawn (s.dispose w).2 := by
  unfold dispose
  split
  · exact w.undrawn_refl
  · split
    · exact Session.undrawn_call _ _ w
    · exact w.undrawn_refl

namespace Question

theorem undrawn_dispose : ∀ (q : Question) (w : Session), w.Undrawn (q.dispose w).2
  | .screen s, w => s.undrawn_dispose w
  | .deck id copy disposed, w => by
      unfold dispose
      split
      · exact w.undrawn_refl
      · exact Session.undrawn_onDeck id (f := fun d => d.dispose copy) (fun _ => rfl) w
  | .mapped _ _ inner, w => inner.undrawn_dispose w
  | .twoTier .., w => w.undrawn_refl
  | .nested .., w => w.undrawn_refl
  | .watched label _ inner, w =>
      (Session.undrawn_emit [.used label .disposed] w).trans (inner.undrawn_dispose _)
  | .failing _, w => w.undrawn_refl
  | .unanswered, w => w.undrawn_refl

theorem undrawn_drop : ∀ (q : Question) (w : Session), w.Undrawn (q.drop w)
  | .screen s, w => s.undrawn_dispose w
  | .deck .., w => w.undrawn_refl
  | .mapped _ _ inner, w => inner.undrawn_drop w
  | .twoTier .., w => w.undrawn_refl
  | .nested .., w => w.undrawn_refl
  | .watched _ _ inner, w => inner.undrawn_drop w
  | .failing _, w => w.undrawn_refl
  | .unanswered, w => w.undrawn_refl

theorem undrawn_release {α : Type} (out : Outcome α) (q : Question) (w : Session) :
    w.Undrawn (releaseTier out q w) := by
  unfold releaseTier
  split
  · exact q.undrawn_drop w
  · exact q.undrawn_dispose w

/-! ## Asking -/

/-- **Asking the question in this session comes to an end**, and costs no more than it may. -/
def Ends (P : Field → Prop) (forms : Bool) (q : Question) (w : Session) : Prop :=
  ∃ out q' w', Comes (fun n => q.ask n w) (out, q', w') ∧
    Costs (AwaitsCheck P (q.WaitsFor w)) forms out w w'

end Question

/-- What makes questions that come to an end, however they are prepared. -/
structure EndsMade (P : Field → Prop) (forms : Bool) (make : Session → Question × Session) :
    Prop where
  undrawn (w : Session) : w.Undrawn (make w).2
  prepared (w : Session) : (make w).1.Prepared (make w).1
  ends (w : Session) (q : Question) (h : (make w).1.Prepared q) (w' : Session)
    (hw' : w'.Rehearsed) : q.Ends P forms w'

variable {P : Field → Prop} {forms : Bool} {w : Session}

namespace Question

theorem ends_screen {s : Screen} (hcontrol : s.control = none) (hwaits : s.content.waits = false)
    (hw : w.Rehearsed) : (Question.screen s).Ends P forms w := by
  obtain ⟨out, s', w', hcomes, hcosts⟩ := Screen.comes_ask hcontrol hwaits hw _ forms
  refine ⟨out, .screen s', w', hcomes.next fun n hn => ?_, hcosts⟩
  rw [ask, hn]

theorem ends_deck (id copy : Nat) (disposed : Bool) (hw : w.Rehearsed) :
    (Question.deck id copy disposed).Ends P forms w :=
  ⟨_, _, _, (Comes.const ()).next fun _ _ => by rw [ask], .draw hw id copy⟩

theorem ends_failing (cause : Failure) (hw : w.Rehearsed) :
    (Question.failing cause).Ends P forms w := by
  refine ⟨.failed (.collaborator cause), .failing cause, w, (Comes.const ()).next fun n _ => ?_, ?_⟩
  · rw [ask]
  · exact .of_undrawn hw w.undrawn_refl rfl (by simp) (by simp)

theorem Ends.mapped {q : Question} (h : q.Ends P forms w) (f : Json → Json)
    (inverse : Option (Json → Json)) : (Question.mapped f inverse q).Ends P forms w := by
  obtain ⟨out, q', w', hcomes, hcosts⟩ := h
  refine ⟨out.map (Reply.map f), .mapped f inverse q', w', hcomes.next fun n hn => ?_,
    (hcosts.map f).mono (AwaitsCheck.imp .mapped)⟩
  rw [ask, hn]

theorem Ends.watched {q : Question} {label : String} {type : AnswerType}
    (h : q.Ends P forms (w.emit [.used label .asked])) :
    (Question.watched label type q).Ends P forms w := by
  obtain ⟨out, q', w', hcomes, hcosts⟩ := h
  have hcosts := (hcosts.after (Session.undrawn_emit _ w)).followed
    (Session.undrawn_emit (replyEntries label type out) w')
  refine ⟨out, .watched label type q', w'.emit (replyEntries label type out),
    hcomes.next fun n hn => ?_, hcosts.mono (AwaitsCheck.imp .watched)⟩
  rw [ask, hn]

end Question

/-! ## The two tiers -/

theorem EndsMade.comes_askTier {make : Session → Question × Session}
    (h : EndsMade P forms make) (steps : Option (Nat × Nat)) (hw : w.Rehearsed) :
    ∃ out w', Comes (fun n => askTier make steps n w) (out, w') ∧
      Costs (AwaitsCheck P ((prepareTier steps (make w).1 (make w).2).1.WaitsFor
        (prepareTier steps (make w).1 (make w).2).2)) forms out w w' := by
  obtain ⟨hprepared, hundrawn⟩ := (h.prepared w).prepareTier steps (make w).2
  have hbefore := (h.undrawn w).trans hundrawn
  obtain ⟨out, q', w', hcomes, hcosts⟩ := h.ends w _ hprepared _ (hbefore.rehearsed hw)
  exact ⟨out, releaseTier out q' w', hcomes.askTier,
    (hcosts.after hbefore).followed (Question.undrawn_release out q' w')⟩

/-- **Asking the two tiers in turn comes to an end.** Whoever goes back from the items has given a
reply, so the induction is on the replies that are left. -/
theorem comes_askTiers {keys : Option Json → Session → Question × Session}
    {items : Json → Session → Question × Session}
    (hkeys : ∀ recent, EndsMade P forms (keys recent))
    (hitems : ∀ key, EndsMade P forms (items key)) (recent : Option Json)
    (steps : Option (Nat × Nat)) (hw : w.Rehearsed) :
    ∃ out recent' w', Comes (fun n => askTiers n keys items recent steps w) (out, recent', w') ∧
      Costs (AwaitsCheck P (TiersWaitFor keys items steps recent w)) forms out w w' := by
  induction hsupply : w.supply using Nat.strongRecOn generalizing w recent with
  | ind supply ih =>
      obtain ⟨out₁, w₁, hcomes₁, hcosts₁⟩ := (hkeys recent).comes_askTier steps hw
      by_cases hkey : ∃ key, out₁ = .done (.value key)
      · obtain ⟨key, rfl⟩ := hkey
        obtain ⟨out₂, w₂, hcomes₂, hcosts₂⟩ :=
          (hitems key).comes_askTier steps hcosts₁.rehearsed
        have hcosts : Costs (AwaitsCheck P (TiersWaitFor keys items steps recent w)) forms out₂ w
            w₂ :=
          (hcosts₁.andThen rfl hcosts₂).mono (AwaitsCheck.imp (.item hcomes₁))
        rcases out₂.excess_cases with ⟨item, rfl⟩ | rfl | hends
        · refine ⟨_, some key, w₂, hcomes₁.next₂ hcomes₂ fun n hn hn' => ?_,
            hcosts.map (choiceAnswer key)⟩
          simp only [askTiers_succ, hn, hn']
          rfl
        · -- back to the keys
          obtain ⟨out, recent', w', hcomes, hrest⟩ :=
            ih _ (hsupply ▸ hcosts.back rfl) (some key) hcosts.rehearsed rfl
          refine ⟨out, recent', w', (hcomes₁.and hcomes₂).next₂ hcomes fun n hn hn' => ?_,
            hcosts.andThen rfl (hrest.mono (AwaitsCheck.imp (.back hcomes₁ hcomes₂)))⟩
          obtain ⟨hn₁, hn₂⟩ := Prod.mk.inj hn
          simp only [askTiers_succ, hn₁, hn₂, hn']
        · refine ⟨out₂, recent, w₂, hcomes₁.next₂ hcomes₂ fun n hn hn' => ?_, hcosts⟩
          simp only [askTiers_succ, hn, hn']
          split
          · simp [Outcome.excess] at hends
          · simp [Outcome.excess] at hends
          · rfl
      · refine ⟨out₁, recent, w₁, hcomes₁.next fun n hn => ?_,
          hcosts₁.mono (AwaitsCheck.imp .key)⟩
        simp only [askTiers_succ, hn]
        split
        · exact absurd ⟨_, rfl⟩ hkey
        · rfl

theorem Question.ends_twoTier {keys : Option Json → Session → Question × Session}
    {items : Json → Session → Question × Session}
    (hkeys : ∀ recent, EndsMade P forms (keys recent))
    (hitems : ∀ key, EndsMade P forms (items key)) (recent : Option Json)
    (steps : Option (Nat × Nat)) (hw : w.Rehearsed) :
    (Question.twoTier keys items recent steps).Ends P forms w := by
  obtain ⟨out, recent', w', hcomes, hcosts⟩ := comes_askTiers hkeys hitems recent steps hw
  refine ⟨out, .twoTier keys items recent' steps, w', hcomes.next fun n hn => ?_,
    hcosts.mono (AwaitsCheck.imp .twoTier)⟩
  rw [ask, hn]

end Interview
