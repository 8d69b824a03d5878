import Interview.Conduct
import Interview.Proofs.Ending.Supplies
/-
Waiting for ever.

Only a check can keep an interview waiting: that of a field, for an answer that was just given and
the draft as it is at that moment. `Run.WaitsFor` follows a run to that check, step by step, and into
the forms that are asked inside it. What it is compared with is the outcome: an interview that waits
for a check comes to no other outcome than being suspended (`Form.WaitsFor.comes`).
-/

set_option autoImplicit false

namespace Interview

/-! ## One turn of two tiers -/

/-- A tier is made, asked and let go. -/
def askTier (make : Session → Question × Session) (steps : Option (Nat × Nat)) (n : Nat)
    (w : Session) : Outcome (Reply Json) × Session :=
  let q := prepareTier steps (make w).1 (make w).2
  ((q.1.ask n q.2).1, releaseTier (q.1.ask n q.2).1 (q.1.ask n q.2).2.1 (q.1.ask n q.2).2.2)

theorem Comes.askTier {make : Session → Question × Session} {steps : Option (Nat × Nat)}
    {w w' : Session} {out : Outcome (Reply Json)} {q' : Question}
    (h : Comes (fun n => (prepareTier steps (make w).1 (make w).2).1.ask n
      (prepareTier steps (make w).1 (make w).2).2) (out, q', w')) :
    Comes (fun n => askTier make steps n w) (out, releaseTier out q' w') := by
  obtain ⟨N, hN⟩ := h
  refine ⟨N, fun n hn => ?_⟩
  simp only [Interview.askTier, hN n hn]

/-- The two tiers, one turn. -/
theorem askTiers_succ (n : Nat) (keys : Option Json → Session → Question × Session)
    (items : Json → Session → Question × Session) (recent : Option Json)
    (steps : Option (Nat × Nat)) (w : Session) :
    askTiers (n + 1) keys items recent steps w =
      let first := askTier (keys recent) steps n w
      match first.1 with
      | .done (.value key) =>
        let second := askTier (items key) steps n first.2
        match second.1 with
        | .done (.value item) => (.done (.value (choiceAnswer key item)), some key, second.2)
        | .done .back => askTiers n keys items (some key) steps second.2
        | o => (o, recent, second.2)
      | o => (o, recent, first.2) :=
  askTiers.eq_2 keys items recent steps w n

/-! ## The check that is waited for -/

mutual

/-- **Asking the question comes to wait** for the check of a field, given an answer as it is stored
and the draft at that moment. -/
inductive Question.WaitsFor : Question → Session → Field → Json → Draft → Prop
  | mapped {g : Json → Json} {inverse : Option (Json → Json)} {inner : Question} {w : Session}
    {f : Field} {v : Json} {d : Draft} (inside : Question.WaitsFor inner w f v d) :
    Question.WaitsFor (.mapped g inverse inner) w f v d
  | watched {label : String} {type : AnswerType} {inner : Question} {w : Session} {f : Field}
    {v : Json} {d : Draft}
    (inside : Question.WaitsFor inner (w.emit [.used label .asked]) f v d) :
    Question.WaitsFor (.watched label type inner) w f v d
  | twoTier {keys : Option Json → Session → Question × Session}
    {items : Json → Session → Question × Session} {recent : Option Json}
    {steps : Option (Nat × Nat)} {w : Session} {f : Field} {v : Json} {d : Draft}
    (inside : TiersWaitFor keys items steps recent w f v d) :
    Question.WaitsFor (.twoTier keys items recent steps) w f v d
  | nested {form : Form} {initial recent : Draft} {options : Options} {r : Run} {w : Session}
    {f : Field} {v : Json} {d : Draft} (start : Run.start form initial recent = .ok r)
    (inside : Run.WaitsFor form options r w f v d) :
    Question.WaitsFor (.nested form initial recent options) w f v d

/-- Asking the two tiers in turn comes to wait for a check: in the first tier, in the second one, or
after going back from the second to the first. -/
inductive TiersWaitFor : (Option Json → Session → Question × Session) →
    (Json → Session → Question × Session) → Option (Nat × Nat) → Option Json → Session →
    Field → Json → Draft → Prop
  | key {keys : Option Json → Session → Question × Session}
    {items : Json → Session → Question × Session} {steps : Option (Nat × Nat)}
    {recent : Option Json} {w : Session} {f : Field} {v : Json} {d : Draft}
    (inside : Question.WaitsFor (prepareTier steps (keys recent w).1 (keys recent w).2).1
      (prepareTier steps (keys recent w).1 (keys recent w).2).2 f v d) :
    TiersWaitFor keys items steps recent w f v d
  | item {keys : Option Json → Session → Question × Session}
    {items : Json → Session → Question × Session} {steps : Option (Nat × Nat)}
    {recent : Option Json} {w w₁ : Session} {key : Json} {f : Field} {v : Json} {d : Draft}
    (picked : Comes (fun n => askTier (keys recent) steps n w) (.done (.value key), w₁))
    (inside : Question.WaitsFor (prepareTier steps (items key w₁).1 (items key w₁).2).1
      (prepareTier steps (items key w₁).1 (items key w₁).2).2 f v d) :
    TiersWaitFor keys items steps recent w f v d
  | back {keys : Option Json → Session → Question × Session}
    {items : Json → Session → Question × Session} {steps : Option (Nat × Nat)}
    {recent : Option Json} {w w₁ w₂ : Session} {key : Json} {f : Field} {v : Json} {d : Draft}
    (picked : Comes (fun n => askTier (keys recent) steps n w) (.done (.value key), w₁))
    (left : Comes (fun n => askTier (items key) steps n w₁) (.done .back, w₂))
    (later : TiersWaitFor keys items steps (some key) w₂ f v d) :
    TiersWaitFor keys items steps recent w f v d

/-- **A run comes to wait** for the check of a field: for the check of the answer that the question
of its next step came to, inside that question, or after the step. -/
inductive Run.WaitsFor : Form → Options → Run → Session → Field → Json → Draft → Prop
  | check {form : Form} {o : Options} {r run : Run} {w w₁ w₂ : Session} {entries : List Entry}
    {i : Nat} {f : Field} {attempt : Option (Attempt Json)} {make : Session → Question × Session}
    {q q' : Question} {answer v : Json}
    (sought : r.seek o form = (entries, run, .step i f attempt make))
    (presented : run.present o form i f attempt make (w.emit entries) = (q, w₁))
    (asked : Comes (fun n => q.ask n w₁) (.done (.value answer), q', w₂))
    (encoded : f.type.encode answer = .ok v) (hangs : f.HangsOn v run.draft) :
    Run.WaitsFor form o r w f v run.draft
  | inside {form : Form} {o : Options} {r run : Run} {w w₁ : Session} {entries : List Entry}
    {i : Nat} {g : Field} {attempt : Option (Attempt Json)} {make : Session → Question × Session}
    {q : Question} {f : Field} {v : Json} {d : Draft}
    (sought : r.seek o form = (entries, run, .step i g attempt make))
    (presented : run.present o form i g attempt make (w.emit entries) = (q, w₁))
    (inside : Question.WaitsFor q w₁ f v d) : Run.WaitsFor form o r w f v d
  | later {form : Form} {o : Options} {r run r' : Run} {w w₁ w₂ w₃ : Session}
    {entries : List Entry} {i : Nat} {g : Field} {attempt : Option (Attempt Json)}
    {make : Session → Question × Session} {q q' : Question} {out : Outcome (Reply Json)}
    {f : Field} {v : Json} {d : Draft}
    (sought : r.seek o form = (entries, run, .step i g attempt make))
    (presented : run.present o form i g attempt make (w.emit entries) = (q, w₁))
    (asked : Comes (fun n => q.ask n w₁) (out, q', w₂))
    (settled : run.settle o form i g out (q'.dispose w₂).2 = (.goesOn r', w₃))
    (later : Run.WaitsFor form o r' w₃ f v d) : Run.WaitsFor form o r w f v d

end

/-- Running the form comes to wait for the check of a field. -/
def Form.WaitsFor (form : Form) (o : Options) (initial recent : Draft) (w : Session) (f : Field)
    (v : Json) (d : Draft) : Prop :=
  ∃ r, Run.start form initial recent = .ok r ∧ Run.WaitsFor form o r w f v d

/-- A form that waits for a check makes the question that it is asked as wait for it. -/
theorem Form.WaitsFor.nested {form : Form} {o : Options} {initial recent : Draft} {w : Session}
    {f : Field} {v : Json} {d : Draft} (h : form.WaitsFor o initial recent w f v d) :
    (Question.nested form initial recent o).WaitsFor w f v d := by
  obtain ⟨r, hstart, hwaits⟩ := h
  exact .nested hstart hwaits

/-- The check of some field with `P` is waited for. -/
def AwaitsCheck (P : Field → Prop) (waits : Field → Json → Draft → Prop) : Prop :=
  ∃ f v d, P f ∧ waits f v d

theorem AwaitsCheck.imp {P : Field → Prop} {waits waits' : Field → Json → Draft → Prop}
    (h : ∀ {f v d}, waits f v d → waits' f v d) (hwaits : AwaitsCheck P waits) :
    AwaitsCheck P waits' := by
  obtain ⟨f, v, d, hf, hfor⟩ := hwaits
  exact ⟨f, v, d, hf, h hfor⟩

/-! ## What waiting comes to

The inductions are on the way to the check, and on the questions, tiers and runs of it at once. -/

variable {w : Session} {f : Field} {v : Json} {d : Draft}

mutual

theorem Question.WaitsFor.hangsOn {q : Question} {w : Session} {f : Field} {v : Json} {d : Draft} :
    q.WaitsFor w f v d → f.HangsOn v d
  | .mapped inside => inside.hangsOn
  | .watched inside => inside.hangsOn
  | .twoTier inside => inside.hangsOn
  | .nested _ inside => inside.hangsOn

theorem TiersWaitFor.hangsOn {keys : Option Json → Session → Question × Session}
    {items : Json → Session → Question × Session} {steps : Option (Nat × Nat)}
    {recent : Option Json} {w : Session} {f : Field} {v : Json} {d : Draft} :
    TiersWaitFor keys items steps recent w f v d → f.HangsOn v d
  | .key inside => inside.hangsOn
  | .item _ inside => inside.hangsOn
  | .back _ _ later => later.hangsOn

/-- A check that a run waits for does not answer. -/
theorem Run.WaitsFor.hangsOn {form : Form} {o : Options} {r : Run} {w : Session} {f : Field}
    {v : Json} {d : Draft} : r.WaitsFor form o w f v d → f.HangsOn v d
  | .check _ _ _ _ hangs => hangs
  | .inside _ _ inside => inside.hangsOn
  | .later _ _ _ _ later => later.hangsOn

end

/-- An answer whose check never answers suspends the run. -/
theorem Field.HangsOn.settle (h : f.HangsOn v d) {r : Run} (hd : r.draft = d) {answer : Json}
    (hencode : f.type.encode answer = .ok v) (o : Options) (form : Form) (i : Nat) (w : Session) :
    ∃ w', r.settle o form i f (.done (.value answer)) w = (.ends .suspended, w') := by
  obtain ⟨check, a, hcheck, ha, hnever⟩ := h
  refine ⟨w.emit ((check a d).notes.map Entry.noted), ?_⟩
  simp only [Run.settle, Run.settleAnswer, hencode, weigh, hcheck, ha, hd, hnever, if_true]

mutual

theorem Question.WaitsFor.comes {q : Question} {w : Session} {f : Field} {v : Json} {d : Draft} :
    q.WaitsFor w f v d → ∃ q' w', Comes (fun n => q.ask n w) (.suspended, q', w')
  | @Question.WaitsFor.mapped g inverse inner w _ _ _ inside => by
      obtain ⟨q', w', hcomes⟩ := inside.comes
      refine ⟨.mapped g inverse q', w', hcomes.next fun n hn => ?_⟩
      rw [Question.ask, hn]
      rfl
  | @Question.WaitsFor.watched label type inner w _ _ _ inside => by
      obtain ⟨q', w', hcomes⟩ := inside.comes
      refine ⟨.watched label type q', w'.emit [], hcomes.next fun n hn => ?_⟩
      rw [Question.ask, hn]
      rfl
  | @Question.WaitsFor.twoTier keys items recent steps w _ _ _ inside => by
      obtain ⟨recent', w', hcomes⟩ := inside.comes
      refine ⟨.twoTier keys items recent' steps, w', hcomes.next fun n hn => ?_⟩
      rw [Question.ask, hn]
  | @Question.WaitsFor.nested form initial recent options r w _ _ _ start inside => by
      obtain ⟨w', hcomes⟩ := inside.comes
      have hform : Comes (fun n => conductForm n form options initial recent w) (.suspended, w') :=
        hcomes.next fun n hn => by rw [conductForm, start]; exact hn
      refine ⟨.nested form initial recent options, w', hform.next fun n hn => ?_⟩
      rw [Question.ask, hn]
      rfl

theorem TiersWaitFor.comes {keys : Option Json → Session → Question × Session}
    {items : Json → Session → Question × Session} {steps : Option (Nat × Nat)}
    {recent : Option Json} {w : Session} {f : Field} {v : Json} {d : Draft} :
    TiersWaitFor keys items steps recent w f v d → ∃ recent' w',
      Comes (fun n => askTiers n keys items recent steps w) (.suspended, recent', w')
  | .key inside => by
      obtain ⟨q', w', hcomes⟩ := inside.comes
      refine ⟨recent, q'.drop w', hcomes.askTier.next fun n hn => ?_⟩
      simp only [askTiers_succ, hn]
      rfl
  | .item picked inside => by
      obtain ⟨q', w', hcomes⟩ := inside.comes
      refine ⟨recent, q'.drop w', picked.next₂ hcomes.askTier fun n hn hn' => ?_⟩
      simp only [askTiers_succ, hn, hn']
      rfl
  | .back picked left later => by
      -- both tiers were asked, and the next turn starts with the key that was picked
      obtain ⟨recent', w', hcomes⟩ := later.comes
      refine ⟨recent', w', (picked.and left).next₂ hcomes fun n hn hn' => ?_⟩
      obtain ⟨hn₁, hn₂⟩ := Prod.mk.inj hn
      simp only [askTiers_succ, hn₁, hn₂, hn']

/-- A run that waits for a check is suspended. -/
theorem Run.WaitsFor.comes {form : Form} {o : Options} {r : Run} {w : Session} {f : Field}
    {v : Json} {d : Draft} : r.WaitsFor form o w f v d →
      ∃ w', Comes (fun n => conduct n form o r w) (.suspended, w')
  | @Run.WaitsFor.check form o r run w w₁ w₂ _ i f _ _ q q' _ v sought presented asked encoded
      hangs => by
      -- the question comes to an answer, and only then does the run stop
      obtain ⟨w', hsettle⟩ := hangs.settle rfl encoded o form i (q'.dispose w₂).2
      refine ⟨w', asked.next fun n hn => ?_⟩
      simp only [conduct, sought, presented, hn, hsettle]
  | .inside sought presented inside => by
      obtain ⟨q', w', hcomes⟩ := inside.comes
      refine ⟨(q'.dispose w').2, hcomes.next fun n hn => ?_⟩
      simp only [conduct, sought, presented, hn, Run.settle]
  | .later sought presented asked settled later => by
      obtain ⟨w', hcomes⟩ := later.comes
      refine ⟨w', asked.next₂ hcomes fun n hn hn' => ?_⟩
      simp only [conduct, sought, presented, hn, settled, hn']

end

variable {form : Form} {o : Options} {initial recent : Draft}

theorem Form.WaitsFor.hangsOn (h : form.WaitsFor o initial recent w f v d) : f.HangsOn v d := by
  obtain ⟨r, -, hwaits⟩ := h
  exact hwaits.hangsOn

/-- **A form that waits for a check is suspended.** -/
theorem Form.WaitsFor.comes (h : form.WaitsFor o initial recent w f v d) :
    ∃ w', Comes (fun n => conductForm n form o initial recent w) (.suspended, w') := by
  obtain ⟨r, hstart, hwaits⟩ := h
  obtain ⟨w', hcomes⟩ := hwaits.comes
  refine ⟨w', hcomes.next fun n hn => ?_⟩
  rw [conductForm, hstart]
  exact hn

end Interview
