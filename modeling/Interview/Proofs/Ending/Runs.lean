import Interview.Proofs.Ending.Questions
import Interview.Proofs.Run.Inner
import Mathlib.Data.List.Perm.Subperm
/-
Runs come to an end.

A run over written replies cannot go on for ever. Going back and refusing an answer use up a reply,
and as long as none is used up, answers are only added, of which there is room for one at every
field. A form inside the form may be answered without a prompt, when all that it asks for is there;
that is why the fields have to be counted as well as the replies, and why a field with a check must
not ask for a form: its answer could be refused again and again.

`Form.ends_of_conductForm` puts this together: the run ends, or waits for ever at a check that never
answers, and there were no more prompts than written replies and one.
-/

set_option autoImplicit false

namespace Interview

variable {hang : Prop} {P : Field → Prop} {forms : Bool} {o : Options} {w w' w₁ : Session}

/-! ## Costs of a run -/

namespace Costs

variable {out out' : Outcome (Reply Json)}

/-- A run that ends the interview after an outcome. -/
theorem toEnd (h : Costs hang forms out w w') (hexcess : out'.excess = 1)
    (hfinished : out' ≠ .exhausted) (hhangs : out' = .suspended → hang) :
    Costs hang true out' w w' where
  rehearsed := h.rehearsed
  supply_le := h.supply_le
  prompted_le := by
    have hle := h.prompted_le
    have hone : out.excess ≤ 1 := by
      rcases out.excess_cases with ⟨v, rfl⟩ | rfl | hends
      · exact Nat.zero_le 1
      · exact Nat.zero_le 1
      · exact Nat.le_of_eq hends
    omega
  back hback := absurd hexcess (by simp [hback, Outcome.excess])
  value hforms := absurd hforms (by simp)
  finished := hfinished
  hangs := hhangs

/-- A form that asked for nothing. -/
theorem of_completed (hw : w.Rehearsed) (hsame : w.Undrawn w') (v : Json) :
    Costs hang true (.done (.value v)) w w' where
  rehearsed := hsame.rehearsed hw
  supply_le := Nat.le_of_eq hsame.supply_eq
  prompted_le := by
    rw [hsame.supply_eq, hsame.prompted_eq]
    exact Nat.le_add_right _ _
  back := by simp
  value hforms := absurd hforms (by simp)
  finished := by simp
  hangs := by simp

/-- **A run that ends with a step costs what the step did.** -/
theorem of_ends {form : Form} {r : Run} {i : Nat} {f : Field} {told : List Report}
    {ended : Outcome Ending} (h : Costs hang forms out w w')
    (hhang : ∀ answer v, out = .done (.value answer) → f.type.encode answer = .ok v →
      f.HangsOn v r.draft → hang)
    (hsettles : Run.Settles o form r i f out told (.ends ended)) :
    Costs hang true (ended.map Ending.reply) w w' := by
  cases hsettles with
  | unstored => exact h.toEnd rfl (by simp [Outcome.map]) (by simp [Outcome.map])
  | waits encoded hangs =>
      exact h.toEnd rfl (by simp [Outcome.map]) fun _ => hhang _ _ rfl encoded hangs
  | stuck => exact h.toEnd rfl (by simp [Outcome.map]) (by simp [Outcome.map])
  | left => exact { h with value := fun hforms => absurd hforms (by simp) }
  | cancelled => exact h.toEnd rfl (by simp [Outcome.map, Ending.reply]) (by simp [Outcome.map])
  | failed => exact h.toEnd rfl (by simp [Outcome.map]) (by simp [Outcome.map])
  | suspended => exact h.toEnd rfl (by simp [Outcome.map]) fun _ => h.hangs rfl
  | exhausted => exact absurd rfl h.finished

end Costs

/-! ## Steps -/

namespace Run

variable {form : Form} {r r' : Run} {i : Nat} {f : Field}

/-- The answered fields are different ones. -/
structure Distinct (form : Form) (r : Run) : Prop where
  nodup : r.history.Nodup
  lt : ∀ j ∈ r.history, j < form.fields.length

theorem Distinct.length_le (h : r.Distinct form) : r.history.length ≤ form.fields.length := by
  have hsubset : r.history ⊆ List.range form.fields.length :=
    fun j hj => List.mem_range.mpr (h.lt j hj)
  simpa using (h.nodup.subperm hsubset).length_le

theorem Distinct.congr (h : r.Distinct form) (hhistory : r'.history = r.history) :
    r'.Distinct form :=
  ⟨hhistory ▸ h.nodup, hhistory ▸ h.lt⟩

theorem Distinct.start {initial recent : Draft} (h : Run.start form initial recent = .ok r) :
    r.Distinct form := by
  obtain rfl := start_eq_ok h
  exact ⟨List.nodup_nil, fun j hj => absurd hj List.not_mem_nil⟩

/-- **What is left of a run**, replies first and then open fields. -/
def left (form : Form) (r : Run) (w : Session) : Nat :=
  w.supply * (form.fields.length + 1) + (form.fields.length - r.history.length)

/-- A reply was used up. -/
theorem left_lt_of_supply (h : w'.supply < w.supply) : r'.left form w' < r.left form w := by
  have hmul := Nat.mul_le_mul_right (form.fields.length + 1) h
  rw [Nat.succ_mul] at hmul
  unfold left
  omega

/-- An answer was added. -/
theorem left_lt_of_history (h : w'.supply ≤ w.supply)
    (hroom : r.history.length < form.fields.length)
    (hhistory : r'.history.length = r.history.length + 1) : r'.left form w' < r.left form w := by
  have hmul := Nat.mul_le_mul_right (form.fields.length + 1) h
  unfold left
  omega

/-- Going back only takes answers away. -/
theorem history_sublist_of_goBack {policy : Policy} {e : Nat} {path : Path}
    (h : r.goBack policy form e path = .ok r') : r'.history.Sublist r.history := by
  obtain ⟨c, -, rfl⟩ := exists_rewind_of_goBack h
  exact List.filter_sublist

/-- **How a step leads on**: with the answers still different ones, and with less left. -/
theorem left_of_goesOn {out : Outcome (Reply Json)} {told : List Report} (hr : r.Distinct form)
    (hf : form.fields[i]? = some f) (hi : i ∉ r.history)
    (hcosts : Costs hang f.check.isNone out w w')
    (hsettles : Settles o form r i f out told (.goesOn r')) :
    r'.Distinct form ∧ r'.left form w' < r.left form w ∧ out.excess = 0 := by
  cases hsettles with
  | answered accepted =>
      obtain ⟨draft, recent, -, -, rfl⟩ := accept_eq_ok accepted
      obtain ⟨hlt, -⟩ := List.getElem?_eq_some_iff.mp hf
      have hdistinct : Distinct form { r with draft, recent, history := r.history ++ [i] } := by
        refine ⟨List.nodup_append.mpr ⟨hr.nodup, List.pairwise_singleton _ i, ?_⟩, fun j hj => ?_⟩
        · rintro j hj k hk rfl
          exact hi (List.mem_singleton.mp hk ▸ hj)
        · rcases List.mem_append.mp hj with hj | hj
          · exact hr.lt j hj
          · exact List.mem_singleton.mp hj ▸ hlt
      have hlength := hdistinct.length_le
      simp only [List.length_append, List.length_singleton] at hlength
      exact ⟨hdistinct, left_lt_of_history hcosts.supply_le hlength (by simp), rfl⟩
  | rejected check =>
      have hforms : f.check.isNone = false := by
        cases hcheck : f.check with
        | none => simp [hcheck] at check
        | some c => rfl
      exact ⟨hr.congr rfl, left_lt_of_supply (hcosts.value hforms _ rfl), rfl⟩
  | back lands back =>
      have hsublist : r'.history.Sublist r.history := history_sublist_of_goBack back
      exact ⟨⟨hr.nodup.sublist hsublist, fun j hj => hr.lt j (hsublist.subset hj)⟩,
        left_lt_of_supply (hcosts.back rfl), rfl⟩

/-- The question of a step is presented without a prompt, and asking it comes to an end. -/
theorem ends_present {make : Session → Question × Session} (hmake : EndsMade P forms make)
    (hw : w.Rehearsed) (o : Options) (form : Form) (r : Run) (i : Nat) (f : Field)
    (attempt : Option (Attempt Json)) :
    w.Undrawn (r.present o form i f attempt make w).2 ∧
      (r.present o form i f attempt make w).1.Ends P forms
        (r.present o form i f attempt make w).2 := by
  obtain ⟨hprepared, hundrawn⟩ :=
    (hmake.prepared w).prepareQuestion f attempt r.current (r.total form i) (make w).2
  have hpresented : w.Undrawn (r.present o form i f attempt make w).2 :=
    ((hmake.undrawn w).trans hundrawn).trans (Session.undrawn_emit _ _)
  exact ⟨hpresented, hmake.ends w _ hprepared _ (hpresented.rehearsed hw)⟩

/-- **A run comes to an end.** The induction is on what is left of it. -/
theorem comes_conduct (hfields : ∀ f ∈ form.fields, P f ∧
      ∀ c make, f.offer c = .ask make → EndsMade P f.check.isNone make)
    (hr : r.Distinct form) (hw : w.Rehearsed) :
    ∃ out w', Comes (fun n => conduct n form o r w) (out, w') ∧
      Costs (AwaitsCheck P (r.WaitsFor form o w)) true (out.map Ending.reply) w w' := by
  induction hleft : r.left form w using Nat.strongRecOn generalizing r w with
  | ind left ih =>
      rcases hseek : r.seek o form with ⟨entries, run, _ | e | ⟨i, f, attempt, make⟩⟩
      · -- nothing is left to ask
        refine ⟨(run.conclude o form (w.emit entries)).1, (run.conclude o form (w.emit entries)).2,
          (Comes.const ()).next fun n _ => by rw [conduct, hseek], ?_⟩
        unfold conclude
        split
        · exact .of_undrawn hw (Session.undrawn_emit entries w) rfl (by simp [Outcome.map])
            (by simp [Outcome.map])
        · exact .of_completed hw
            ((Session.undrawn_emit entries w).trans (Session.undrawn_emit _ _)) _
      · refine ⟨.failed e, w.emit entries, (Comes.const ()).next fun n _ => by rw [conduct, hseek], ?_⟩
        exact .of_undrawn hw (Session.undrawn_emit entries w) rfl (by simp [Outcome.map])
          (by simp [Outcome.map])
      · obtain ⟨hf, ⟨hhistory, -, -⟩, hopen, -, hoffer⟩ := kept_of_seek hseek
        obtain ⟨hP, hends⟩ := hfields f (List.mem_of_getElem? hf)
        rcases hpresent : run.present o form i f attempt make (w.emit entries) with ⟨q, w₀⟩
        obtain ⟨hbefore, hquestion⟩ := ends_present (hends _ make hoffer)
          ((Session.undrawn_emit entries w).rehearsed hw) o form run i f attempt
        rw [hpresent] at hbefore hquestion
        obtain ⟨out, q', w₁, hcomes, hcosts⟩ := hquestion
        obtain ⟨notes, told, hsettled, hsettles⟩ :=
          settles_settle o form run i f out (q'.dispose w₁).2
        -- the question goes, and its outcome is settled, without a further prompt
        have hafter : w₁.Undrawn (run.settle o form i f out (q'.dispose w₁).2).2 := by
          rw [hsettled]
          exact ((q'.undrawn_dispose w₁).trans (Session.undrawn_emit _ _)).trans
            (Session.undrawn_emit _ _)
        have hstep : Costs (AwaitsCheck P (r.WaitsFor form o w)) f.check.isNone out w
            (run.settle o form i f out (q'.dispose w₁).2).2 :=
          ((hcosts.after ((Session.undrawn_emit entries w).trans hbefore)).followed hafter).mono
            (AwaitsCheck.imp (.inside hseek hpresent))
        rcases hcourse : run.settle o form i f out (q'.dispose w₁).2 with ⟨ended | r', w₂⟩
        · rw [hcourse] at hstep hsettles
          have hhang : ∀ answer v, out = .done (.value answer) → f.type.encode answer = .ok v →
              f.HangsOn v run.draft → AwaitsCheck P (r.WaitsFor form o w) := by
            rintro answer v rfl hencode hhangs
            exact ⟨f, v, run.draft, hP, .check hseek hpresent hcomes hencode hhangs⟩
          refine ⟨ended, w₂, hcomes.next fun n hn => ?_, hstep.of_ends hhang hsettles⟩
          simp only [conduct, hseek, hpresent, hn, hcourse]
        · rw [hcourse] at hstep hsettles
          have hnew : i ∉ run.history := (isClosed_eq_false_iff.mp hopen).2.1
          obtain ⟨hdistinct, hlt, hexcess⟩ :=
            left_of_goesOn (hr.congr hhistory) hf hnew hstep hsettles
          have hle : r'.left form w₂ < left := by
            rw [← hleft]
            unfold Run.left at hlt ⊢
            rwa [hhistory] at hlt
          obtain ⟨last, w', hrest, hcosts'⟩ := ih _ hle hdistinct hstep.rehearsed rfl
          refine ⟨last, w', hcomes.next₂ hrest fun n hn hn' => ?_,
            hstep.andThen hexcess
              (hcosts'.mono (AwaitsCheck.imp (.later hseek hpresent hcomes hcourse)))⟩
          simp only [conduct, hseek, hpresent, hn, hcourse, hn']

end Run

/-- **A form comes to an end** if its questions do. -/
theorem Form.comes_conductForm {form : Form} (hfields : ∀ f ∈ form.fields, P f ∧
      ∀ c make, f.offer c = .ask make → EndsMade P f.check.isNone make)
    (initial recent : Draft) (hw : w.Rehearsed) :
    ∃ out w', Comes (fun n => conductForm n form o initial recent w) (out, w') ∧
      Costs (AwaitsCheck P (form.WaitsFor o initial recent w)) true (out.map Ending.reply) w w' := by
  rcases hstart : Run.start form initial recent with e | first
  · refine ⟨.failed e, w, (Comes.const ()).next fun n _ => by rw [conductForm, hstart], ?_⟩
    exact .of_undrawn hw w.undrawn_refl rfl (by simp [Outcome.map]) (by simp [Outcome.map])
  · obtain ⟨out, w', hcomes, hcosts⟩ :=
      Run.comes_conduct (o := o) hfields (Run.Distinct.start hstart) hw
    refine ⟨out, w', hcomes.next fun n hn => ?_,
      hcosts.mono (AwaitsCheck.imp fun hwaits => ⟨first, hstart, hwaits⟩)⟩
    rw [conductForm, hstart]
    exact hn

theorem Question.ends_nested {form : Form} (hfields : ∀ f ∈ form.fields, P f ∧
      ∀ c make, f.offer c = .ask make → EndsMade P f.check.isNone make)
    (initial recent : Draft) (options : Options) (hw : w.Rehearsed) :
    (Question.nested form initial recent options).Ends P true w := by
  obtain ⟨out, w', hcomes, hcosts⟩ :=
    Form.comes_conductForm (o := options) hfields initial recent hw
  refine ⟨out.map Ending.reply, .nested form initial (recentAfter recent out) options, w',
    hcomes.next fun n hn => ?_,
    hcosts.mono (AwaitsCheck.imp Form.WaitsFor.nested)⟩
  rw [ask, hn]

/-! ## Rehearsals -/

mutual

/-- **Questions of a rehearsal come to an end**, however they are prepared. The induction is on what
they are made of. -/
theorem Question.Unasked.ends : ∀ {forms : Bool} {q : Question}, q.Unasked P forms →
    ∀ {q' : Question}, q.Prepared q' → ∀ {w : Session}, w.Rehearsed →
      q'.Ends P forms w
  | _, _, .screen .., _, hprepared, _, hw => by
      cases hprepared with
      | screen control waits => exact Question.ends_screen control waits hw
  | _, _, .deck .., _, hprepared, _, hw => by
      cases hprepared with
      | deck => exact Question.ends_deck _ _ _ hw
  | _, _, .mapped unasked, _, hprepared, _, hw => by
      cases hprepared with
      | mapped prepared => exact (unasked.ends prepared hw).mapped _ _
  | _, _, .twoTier makes_keys makes_items, _, hprepared, _, hw => by
      cases hprepared with
      | twoTier =>
          exact Question.ends_twoTier (fun recent => (makes_keys recent).endsMade)
            (fun key => (makes_items key).endsMade) _ _ hw
  | _, _, .nested rehearsable, _, hprepared, _, hw => by
      cases hprepared with
      | nested => exact Question.ends_nested (fun f hf => rehearsable.endsMade hf) _ _ _ hw
  | _, _, .watched unasked, _, hprepared, w, hw => by
      cases hprepared with
      | watched prepared =>
          exact Question.Ends.watched
            (unasked.ends prepared ((Session.undrawn_emit _ w).rehearsed hw))
  | _, _, .failing .., _, hprepared, _, hw => by
      cases hprepared with
      | failing => exact Question.ends_failing _ hw

theorem MakesUnasked.endsMade : ∀ {forms : Bool} {make : Session → Question × Session},
    MakesUnasked P forms make → EndsMade P forms make
  | _, _, .intro unasked undrawn =>
      ⟨undrawn, fun w => (unasked w).prepared, fun w _ h _ hw' => (unasked w).ends h hw'⟩

theorem Form.Rehearsable.endsMade : ∀ {form : Form}, form.Rehearsable P →
    ∀ {f : Field}, f ∈ form.fields → P f ∧
      ∀ c make, f.offer c = .ask make → EndsMade P f.check.isNone make
  | _, .intro holds makes, f, hf =>
      ⟨holds f hf, fun c make h => (makes f hf c make h).endsMade⟩

end

/-! ## Forms of a rehearsal -/

/-- A copy of a question was not asked yet. -/
theorem Question.Unasked.copy {forms : Bool} : ∀ {q : Question}, q.Unasked P forms →
    ∀ w : Session, (q.copy w).1.Unasked P forms ∧ w.Undrawn (q.copy w).2
  | .screen s, _, w => by
      refine ⟨.screen rfl ?_, w.undrawn_refl⟩
      rcases hs : s.content with t | l
      · simp only [Screen.copy, hs]
        rfl
      · simp only [Screen.copy, hs]
        rfl
  | .deck id _ _, _, w =>
      ⟨.deck .., Session.undrawn_onDeck id (f := Deck.copy) (fun _ => rfl) w⟩
  | .mapped _ _ _, .mapped unasked, w => by
      obtain ⟨hunasked, hundrawn⟩ := unasked.copy w
      exact ⟨.mapped hunasked, hundrawn⟩
  | .twoTier .., h, w => ⟨h, w.undrawn_refl⟩
  | .nested .., h, w => ⟨h, w.undrawn_refl⟩
  | .watched label _ _, .watched unasked, w => by
      obtain ⟨hunasked, hundrawn⟩ := unasked.copy (w.emit [.used label .copied])
      exact ⟨.watched hunasked, (Session.undrawn_emit _ w).trans hundrawn⟩
  | .failing _, h, w => ⟨h, w.undrawn_refl⟩

/-- A field that asks the same question every time. -/
theorem MakesUnasked.asking {forms : Bool} {path : Path} {type : AnswerType} {q : Question}
    (h : q.Unasked P forms) (c : Context) (make : Session → Question × Session)
    (hmake : (Field.asking path type q).offer c = .ask make) : MakesUnasked P forms make := by
  obtain rfl := Offer.ask.inj hmake
  exact .intro (fun w => (h.copy w).1) fun w => (h.copy w).2

/-- The field of a form. -/
theorem MakesUnasked.asField {path : Path} {inner : Form} (h : inner.Rehearsable P) (c : Context)
    (make : Session → Question × Session) (hmake : (Form.asField path inner).offer c = .ask make) :
    MakesUnasked P true make := by
  obtain ⟨s, -, rfl⟩ := Form.offer_asField_eq_ask hmake
  exact .intro (fun _ => .nested h) fun w => w.undrawn_refl

/-- A form whose questions were not asked yet, throughout. -/
theorem Form.Throughout.rehearsable {Q : Form → Prop} {form : Form}
    (h : form.Throughout Q fun f => P f ∧
      ∀ c make, f.offer c = .ask make → MakesUnasked P f.check.isNone make)
    (hforms : ∀ path inner, P (Form.asField path inner)) : form.Rehearsable P := by
  induction h with
  | of own fields inside ih =>
      refine .intro (fun f hf => ?_) fun f hf c make hmake => ?_
      · rcases fields f hf with ⟨-, hholds, -⟩ | ⟨path, inner, rfl⟩
        · exact hholds
        · exact hforms path inner
      · rcases fields f hf with ⟨-, -, hmakes⟩ | ⟨path, inner, rfl⟩
        · exact hmakes c make hmake
        · exact MakesUnasked.asField (ih path inner hf) c make hmake

/-! ## The end of a run -/

/-- **Every rehearsal ends.** With enough turns the run of a form comes to an outcome, or it waits
for ever, and that exactly if it comes to a check that does not answer: the check of the field whose
question was just answered, for this answer and the draft as it is then. Until the end there were no
more prompts than there were written replies, and one. -/
theorem Form.ends_of_conductForm {form : Form} (hform : form.Rehearsable P) (o : Options)
    (initial recent : Draft) {w : Session} (hw : w.Rehearsed) :
    ∃ out w', Comes (fun n => conductForm n form o initial recent w) (out, w') ∧
      ((∃ e, out = .done e) ∨ (∃ e, out = .failed e) ∨ out = .suspended) ∧
      (out = .suspended ↔
        ∃ f v d, P f ∧ f.HangsOn v d ∧ form.WaitsFor o initial recent w f v d) ∧
      w'.prompted ≤ w.prompted + (1 + w.supply) := by
  obtain ⟨out, w', hcomes, hcosts⟩ := Form.comes_conductForm (o := o)
    (fun f hf => hform.endsMade hf) initial recent hw
  refine ⟨out, w', hcomes, ?_, ⟨?_, ?_⟩, ?_⟩
  · rcases out with e | e | _ | _
    · exact Or.inl ⟨e, rfl⟩
    · exact Or.inr (Or.inl ⟨e, rfl⟩)
    · exact Or.inr (Or.inr rfl)
    · exact absurd rfl hcosts.finished
  · rintro rfl
    obtain ⟨f, v, d, hf, hwaits⟩ := hcosts.hangs rfl
    exact ⟨f, v, d, hf, hwaits.hangsOn, hwaits⟩
  · rintro ⟨f, v, d, -, -, hwaits⟩
    obtain ⟨w'', hsuspended⟩ := hwaits.comes
    exact (Prod.mk.inj (hcomes.unique hsuspended)).1
  · have hle := hcosts.prompted_le
    have hexcess : (out.map Ending.reply).excess ≤ 1 := by
      rcases (out.map Ending.reply).excess_cases with ⟨v, h⟩ | h | h
      · rw [h]
        exact Nat.zero_le 1
      · rw [h]
        exact Nat.zero_le 1
      · exact Nat.le_of_eq h
    omega

/-- The excursion has nine replies written down, so it ends after ten prompts at the latest. No field
of it has a check, so it does not wait for ever. -/
theorem ends_of_excursion :
    Form.excursion.Rehearsable (fun f => f.check = none) ∧ Session.excursion.Rehearsed ∧
    ∃ out w', Comes (fun n => conductForm n .excursion .default .excursion .empty .excursion)
        (out, w') ∧
      ((∃ e, out = .done e) ∨ ∃ e, out = .failed e) ∧ w'.prompted ≤ 10 := by
  have hform : Form.excursion.Rehearsable (fun f => f.check = none) := by
    refine Form.Throughout.rehearsable (Q := fun _ => True) ?_ fun _ _ => rfl
    exact Form.throughout_excursion_of_decks trivial trivial fun path id =>
      ⟨rfl, MakesUnasked.asking (.deck ..)⟩
  have hsession : Session.excursion.Rehearsed := ⟨[], rfl⟩
  obtain ⟨out, w', hcomes, hends, hsuspended, hprompted⟩ :=
    Form.ends_of_conductForm hform .default .excursion .empty hsession
  refine ⟨hform, hsession, out, w', hcomes, ?_, hprompted⟩
  rcases hends with hdone | hfailed | hwaits
  · exact Or.inl hdone
  · exact Or.inr hfailed
  · obtain ⟨f, v, d, hcheck, ⟨check, answer, hsome, -⟩, -⟩ := hsuspended.mp hwaits
    exact absurd (hcheck.symm.trans hsome) (by simp)

end Interview
