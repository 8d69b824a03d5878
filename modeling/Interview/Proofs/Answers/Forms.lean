import Interview.Proofs.Answers.Screens
import Interview.Proofs.Run.ForwardPass
import Interview.Sitting
/-
Forms that always come to an end.

If every field of a form asks screens that answer, and no check fails, then nothing in a run
can fail: an answer is stored because nothing stands in its way, and going back succeeds
because it only undoes what was stored. The run also stops, because every visit uses up at least
one script and a user without scripts leaves (`turns`). A question in two tiers is no exception:
each time one of its tiers is asked, that takes a script.

What the run completes with is the draft of a pass (`Pass`), made with answers that fit their
fields and were accepted by their checks. So whatever is to be said about the result has to be
said about a single pass only, and the visits that were taken back do not come into it.
-/

set_option autoImplicit false

namespace Interview

open Control (Event)

/-! ## Questions that answer -/

/-- How many turns suffice before users with these scripts. -/
def Run.turns : List (List Event) → Nat
  | [] => 6
  | events :: rest => 2 * events.length + 6 + turns rest

/-- The turns that one control may need are among them. -/
theorem Run.head_lt_turns (scripts : List (List Event)) :
    2 * (scripts.headD []).length + 5 < turns scripts := by
  rcases scripts with _ | ⟨events, rest⟩
  · simp only [List.headD_nil, List.length_nil, turns]
    omega
  · simp only [List.headD_cons, turns]
    omega

/-- Every script adds turns of its own. -/
theorem Run.turns_tail_lt {scripts : List (List Event)} (h : scripts ≠ []) :
    turns scripts.tail + 5 < turns scripts := by
  rcases scripts with _ | ⟨events, rest⟩
  · exact absurd rfl h
  · simp only [List.tail_cons, turns]
    omega

theorem Run.turns_le_of_suffix {scripts rest : List (List Event)} (h : rest <:+ scripts) :
    turns rest ≤ turns scripts := by
  obtain ⟨used, rfl⟩ := h
  induction used with
  | nil => exact Nat.le_refl _
  | cons events used ih =>
      rw [List.cons_append, turns]
      omega

/-- A question whose answers have a property: a screen that answers, perhaps with its answers
transformed, or two screens of which the second asks for an item under the answer of the first. -/
def Question.Answers (R : Json → Prop) : Question → Prop
  | .screen s => s.Answers R
  | .mapped f _ (.screen s) => s.Answers fun v => R (f v)
  | .twoTier keys items _ _ => ∃ K : Json → Prop,
      (∀ recent w, ∃ s, keys recent w = (.screen s, w) ∧ s.Answers K) ∧
      ∀ key w, K key → ∃ s, items key w = (.screen s, w) ∧
        s.Answers fun item => R (choiceAnswer key item)
  | _ => False

namespace Question

variable {R : Json → Prop} {w : Session} {scripts : List (List Event)}

theorem Answers.copy : ∀ {q : Question}, q.Answers R →
    (q.copy w).1.Answers R ∧ (q.copy w).2 = w
  | .screen _, h => ⟨Screen.Answers.copy h, rfl⟩
  | .mapped _ _ (.screen _), h => ⟨Screen.Answers.copy h, rfl⟩
  | .twoTier .., h => ⟨h, rfl⟩

theorem Answers.restore (a : Attempt Json) : ∀ {q : Question}, q.Answers R →
    (q.restore a w).1.Answers R ∧ (q.restore a w).2 = w
  | .screen _, h => ⟨Screen.Answers.restore h a, rfl⟩
  | .mapped _ none (.screen _), h => ⟨h, rfl⟩
  | .mapped _ (some g) (.screen _), h => ⟨Screen.Answers.restore h (a.map g), rfl⟩
  | .twoTier .., h => ⟨h, rfl⟩

theorem Answers.place (current total : Nat) : ∀ {q : Question}, q.Answers R →
    (q.place current total w).1.Answers R ∧ (q.place current total w).2 = w
  | .screen _, h => Screen.Answers.place h current total w
  | .mapped _ _ (.screen _), h => Screen.Answers.place h current total w
  | .twoTier .., h => ⟨h, rfl⟩

/-- Disposing a question leaves the host alone. -/
theorem host_dispose : ∀ (q : Question) (w : Session), (q.dispose w).2.host = w.host
  | .screen s, w => by
      show (s.dispose w).2.host = w.host
      unfold Screen.dispose
      split
      · rfl
      · split
        · rfl
        · rfl
  | .deck .., _ => by
      unfold Question.dispose
      split
      · rfl
      · rfl
  | .mapped _ _ inner, w => host_dispose inner w
  | .twoTier .., _ => rfl
  | .nested .., _ => rfl
  | .watched label _ inner, w => host_dispose inner (w.emit [.used label .disposed])
  | .failing _, _ => rfl
  | .unanswered, _ => rfl

/-- Dropping a question leaves the host alone as well. -/
theorem host_drop : ∀ (q : Question) (w : Session), (q.drop w).host = w.host
  | .screen s, w => host_dispose (.screen s) w
  | .deck .., _ => rfl
  | .mapped _ _ inner, w => host_drop inner w
  | .twoTier .., _ => rfl
  | .nested .., _ => rfl
  | .watched _ _ inner, w => host_drop inner w
  | .failing _, _ => rfl
  | .unanswered, _ => rfl

/-! ### Being asked -/

/-- What being asked comes to, when the host has these scripts: the turns run out, because they were
too few, or there is a reply that fits, and some scripts are used up. A user without scripts
leaves. -/
def Asked (R : Json → Prop) (scripts : List (List Event)) (n : Nat)
    (x : Outcome (Reply Json) × Session) : Prop :=
  (x.1 = .exhausted ∧ n + 1 < Run.turns scripts) ∨
    ∃ r, x.1 = .done r ∧ r.Fits R ∧ (scripts = [] → r = .cancel) ∧
      ∃ rest, rest <:+ scripts.tail ∧ x.2.host = .rehearsal rest

/-- A question that is one screen, with a few turns spent on the way to it. -/
theorem Asked.of_screen {n m : Nat} {x : Outcome (Reply Json) × Session}
    (h : Screen.Asked R scripts n x) (hm : m ≤ n + 2) : Asked R scripts m x := by
  rcases h with ⟨hexhausted, hle⟩ | ⟨r, hdone, hr, hgone, hhost⟩
  · have hturns := Run.head_lt_turns scripts
    exact Or.inl ⟨hexhausted, by omega⟩
  · exact Or.inr ⟨r, hdone, hr, hgone, scripts.tail, List.suffix_refl _, hhost⟩

/-- A question is asked as a tier: placed before and released afterwards. -/
def askAsTier (n : Nat) (steps : Option (Nat × Nat)) (x : Question × Session) :
    Outcome (Reply Json) × Session :=
  let (q, w) := prepareTier steps x.1 x.2
  let (o, q, w) := q.ask n w
  (o, releaseTier o q w)

/-- The tiers are asked one after the other, and again when the second is left by going back. -/
theorem askTiers_succ (n : Nat) (keys : Option Json → Session → Question × Session)
    (items : Json → Session → Question × Session) (recent : Option Json)
    (steps : Option (Nat × Nat)) (w : Session) :
    askTiers (n + 1) keys items recent steps w =
      match askAsTier n steps (keys recent w) with
      | (.done (.value key), w) =>
        match askAsTier n steps (items key w) with
        | (.done (.value item), w) => (.done (.value (choiceAnswer key item)), some key, w)
        | (.done .back, w) => askTiers n keys items (some key) steps w
        | (o, w) => (o, recent, w)
      | (o, w) => (o, recent, w) := by
  rw [askTiers]
  simp only [askAsTier]
  split
  · rename_i hfirst
    simp only [hfirst]
    split
    · rename_i hsecond
      simp only [hsecond]
    · rename_i hsecond
      simp only [hsecond]
    · rename_i o hvalue hback
      split
      · rename_i heq
        exact absurd (Prod.mk.inj heq).1 (hvalue _)
      · rename_i heq
        exact absurd (Prod.mk.inj heq).1 hback
      · rename_i heq
        obtain ⟨rfl, rfl⟩ := Prod.mk.inj heq
        rfl
  · rename_i o hvalue
    split
    · rename_i heq
      exact absurd (Prod.mk.inj heq).1 (hvalue _)
    · rename_i heq
      obtain ⟨rfl, rfl⟩ := Prod.mk.inj heq
      rfl

/-- A screen that answers does so as a tier. -/
theorem askAsTier_screen {s : Screen} (h : s.Answers R) (hw : w.host = .rehearsal scripts)
    (n : Nat) (steps : Option (Nat × Nat)) :
    Screen.Asked R scripts (n - 1) (askAsTier n steps (.screen s, w)) := by
  obtain ⟨s', hprepared, hs'⟩ : ∃ s' : Screen, prepareTier steps (.screen s) w = (.screen s', w) ∧
      s'.Answers R := by
    rcases steps with _ | ⟨current, total⟩
    · exact ⟨s, rfl, h⟩
    · obtain ⟨hplaced, hsame⟩ := h.place current total w
      refine ⟨(s.place current total w).1, ?_, hplaced⟩
      show (Question.screen (s.place current total w).1, (s.place current total w).2) = _
      rw [hsame]
  have hrelease : ∀ (o : Outcome (Reply Json)) (q : Question) (w : Session),
      (releaseTier o q w).host = w.host := by
    intro o q w
    unfold releaseTier
    split
    · exact host_drop q w
    · exact host_dispose q w
  rw [askAsTier, hprepared]
  rcases n with _ | n
  · exact Or.inl ⟨rfl, Nat.zero_le _⟩
  · rcases hs'.ask hw n with hexhausted | ⟨r, hdone, hr, hgone, hhost⟩
    · exact Or.inl hexhausted
    · exact Or.inr ⟨r, hdone, hr, hgone, (hrelease _ _ _).trans hhost⟩

/-- **Two tiers that answer** come to an item under the key that was picked last, or they are left.
The induction is on the bound; before the tiers are asked again, a script was used up for each. -/
theorem asked_of_tiers {keys : Option Json → Session → Question × Session}
    {items : Json → Session → Question × Session} {K : Json → Prop} (steps : Option (Nat × Nat))
    (hkeys : ∀ recent w, ∃ s, keys recent w = (.screen s, w) ∧ s.Answers K)
    (hitems : ∀ key w, K key → ∃ s, items key w = (.screen s, w) ∧
      s.Answers fun item => R (choiceAnswer key item)) (n : Nat) (recent : Option Json)
    (hw : w.host = .rehearsal scripts) :
    Asked R scripts (n + 1) ((askTiers n keys items recent steps w).1,
      (askTiers n keys items recent steps w).2.2) := by
  induction n generalizing recent w scripts with
  | zero =>
      have hturns := Run.head_lt_turns scripts
      exact Or.inl ⟨by rw [askTiers], by omega⟩
  | succ n ih =>
      obtain ⟨s, hs, hanswers⟩ := hkeys recent w
      have hfirst := askAsTier_screen hanswers hw n steps
      rw [askTiers_succ, hs]
      generalize askAsTier n steps (.screen s, w) = x at hfirst
      obtain ⟨o, w₁⟩ := x
      have hturns := Run.head_lt_turns scripts
      rcases hfirst with ⟨hexhausted, hle⟩ | ⟨r, hdone, hr, hgone, hhost⟩
      · simp only at hexhausted
        subst hexhausted
        exact Or.inl ⟨rfl, by omega⟩
      · simp only at hdone hhost
        subst hdone
        rcases r with key | _ | _
        · -- a key was picked, so there was a script to use up
          have hne : scripts ≠ [] := fun hempty => absurd (hgone hempty) (by simp)
          obtain ⟨s', hs', hanswers'⟩ := hitems key w₁ hr
          have hsecond := askAsTier_screen hanswers' hhost n steps
          simp only [hs']
          generalize askAsTier n steps (.screen s', w₁) = y at hsecond
          obtain ⟨o', w₂⟩ := y
          have htail := Run.turns_tail_lt hne
          have hturns' := Run.head_lt_turns scripts.tail
          rcases hsecond with ⟨hexhausted, hle⟩ | ⟨r', hdone', hr', -, hhost'⟩
          · simp only at hexhausted
            subst hexhausted
            exact Or.inl ⟨rfl, by omega⟩
          · simp only at hdone' hhost'
            subst hdone'
            have hused : scripts.tail.tail <:+ scripts.tail := List.tail_suffix _
            rcases r' with item | _ | _
            · exact Or.inr ⟨_, rfl, hr', fun hempty => absurd hempty hne, _, hused, hhost'⟩
            · -- back to the keys, with fewer scripts
              rcases ih (some key) hhost' with ⟨hexhausted, hlt⟩ | ⟨r, hdone, hr, -, rest, hsub, hrest⟩
              · have hle := Run.turns_le_of_suffix hused
                exact Or.inl ⟨hexhausted, by omega⟩
              · exact Or.inr ⟨r, hdone, hr, fun hempty => absurd hempty hne, rest,
                  hsub.trans ((List.tail_suffix _).trans hused), hrest⟩
            · exact Or.inr ⟨_, rfl, trivial, fun _ => rfl, _, hused, hhost'⟩
        · exact Or.inr ⟨_, rfl, trivial, hgone, _, List.suffix_refl _, hhost⟩
        · exact Or.inr ⟨_, rfl, trivial, hgone, _, List.suffix_refl _, hhost⟩

/-- **Asking** comes to a reply that fits. -/
theorem Answers.ask (hw : w.host = .rehearsal scripts) :
    ∀ {q : Question} (n : Nat), q.Answers R →
      Asked R scripts n ((q.ask n w).1, (q.ask n w).2.2)
  | _, 0, _ => by
      have hturns := Run.head_lt_turns scripts
      exact Or.inl ⟨rfl, by omega⟩
  | .screen _, n + 1, h => .of_screen (Screen.Answers.ask h hw n) (by omega)
  | .mapped _ _ (.screen _), 1, _ => by
      have hturns := Run.head_lt_turns scripts
      exact Or.inl ⟨rfl, by omega⟩
  | .mapped f inverse (.screen s), n + 2, h => by
      have hask : (Question.ask (n + 2) (.mapped f inverse (.screen s)) w).1 =
          (s.ask n w).1.map (Reply.map f) := rfl
      refine .of_screen (n := n) ?_ (Nat.le_refl _)
      rcases Screen.Answers.ask h hw n with ⟨hexhausted, hle⟩ | ⟨r, hdone, hr, hgone, hhost⟩
      · refine Or.inl ⟨?_, hle⟩
        rw [hask, hexhausted]
        rfl
      · refine Or.inr ⟨r.map f, ?_, ?_, fun hempty => ?_, hhost⟩
        · rw [hask, hdone]
          rfl
        · rcases r with v | _ | _
          · exact hr
          · trivial
          · trivial
        · rw [hgone hempty]
          rfl
  | .twoTier _ _ recent steps, n + 1, h => by
      obtain ⟨K, hkeys, hitems⟩ := h
      exact asked_of_tiers steps hkeys hitems n recent hw

end Question

/-! ## Fields that answer -/

/-- The check of the field accepts an answer. -/
def Field.Accepts (f : Field) (d : Draft) (v : Json) : Prop :=
  ∃ w, (weigh f v d w).1 = .accepted

/-- A field whose questions answer with what `R` says, and whose answers are stored as they are,
unless they are refused. -/
structure Field.Answers (R : Draft → Json → Prop) (f : Field) : Prop where
  offer : ∀ c, f.offer c = .decline ∨ ∃ make, f.offer c = .ask make ∧
    ∀ w, (make w).1.Answers (R c.draft) ∧ (make w).2.host = w.host
  encode : ∀ v, f.type.encode v = .ok v
  check : ∀ v d w, R d v →
    (weigh f v d w).1 = .accepted ∨ ∃ message, (weigh f v d w).1 = .rejected message

theorem host_weigh (f : Field) (v : Json) (d : Draft) (w : Session) :
    (weigh f v d w).2.host = w.host := by
  unfold weigh
  split
  · rfl
  · split
    · rfl
    · simp only
      split
      · rfl
      · split
        · rfl
        · rfl
        · rfl

/-- A field without a check accepts everything. -/
theorem weigh_of_check_eq_none {f : Field} (h : f.check = none) (v : Json) (d : Draft)
    (w : Session) : (weigh f v d w).1 = .accepted := by
  rw [weigh, h]

namespace Field

/-- A field that asks one question answers, if the question does and the check does not fail. -/
theorem answers_of_offer {R : Draft → Json → Prop} {f : Field} {q : Question} {shape : Shape}
    (htype : f.type = .shaped shape) (hoffer : ∀ c, f.offer c = .ask q.copy)
    (hq : ∀ d, q.Answers (R d))
    (hcheck : ∀ v d w, R d v →
      (weigh f v d w).1 = .accepted ∨ ∃ message, (weigh f v d w).1 = .rejected message) :
    f.Answers R where
  offer c := by
    refine Or.inr ⟨q.copy, hoffer c, fun w => ?_⟩
    have hcopy : (q.copy w).1.Answers (R c.draft) ∧ (q.copy w).2 = w := (hq c.draft).copy
    exact ⟨hcopy.1, congrArg Session.host hcopy.2⟩
  encode _ := by
    rw [htype]
    rfl
  check := hcheck

/-- The same without a check. -/
theorem answers_of_check_eq_none {R : Draft → Json → Prop} {f : Field} {q : Question}
    {shape : Shape} (htype : f.type = .shaped shape) (hoffer : ∀ c, f.offer c = .ask q.copy)
    (hcheck : f.check = none) (hq : ∀ d, q.Answers (R d)) : f.Answers R :=
  answers_of_offer htype hoffer hq fun v d w _ => Or.inl (weigh_of_check_eq_none hcheck v d w)

end Field

/-- A question that is prepared still answers, and nothing has happened. -/
theorem Question.Answers.prepare {R : Json → Prop} {q : Question} (h : q.Answers R) (f : Field)
    (attempt : Option (Attempt Json)) (current total : Nat) (w : Session) :
    (prepareQuestion f attempt current total q w).1.Answers R ∧
      (prepareQuestion f attempt current total q w).2 = w := by
  unfold prepareQuestion
  rcases attempt.bind f.type.attempt? with _ | a
  · exact h.place current total
  · have hrestore : (q.restore a w).1.Answers R ∧ (q.restore a w).2 = w := h.restore a
    simp only [hrestore.2]
    exact hrestore.1.place current total

/-- A form of fields that answer. -/
structure Form.Answers (form : Form) (o : Options) (R : Nat → Draft → Json → Prop) : Prop where
  separate : form.Separate
  skips : form.SkipsByDraft o
  fields : ∀ i (f : Field), form.fields[i]? = some f → f.Answers (R i)

/-- An answer that fits its field and was accepted. -/
def Form.Given (form : Form) (R : Nat → Draft → Json → Prop) (i : Nat) (d : Draft) (v : Json) :
    Prop :=
  ∃ f, form.fields[i]? = some f ∧ R i d v ∧ f.Accepts d v

namespace Run

variable {form : Form} {initial : Draft} {o : Options} {r r' : Run} {k n : Nat}
variable {R : Nat → Draft → Json → Prop} {w : Session} {scripts : List (List Event)}

/-! ## One visit -/

/-- A search in a form of fields that answer does not fail. -/
theorem seek_ne_failed (h : form.Answers o R) (r : Run) :
    ∀ (fields : List Field) i, (∀ f ∈ fields, f ∈ form.fields) →
      ∀ e, (r.seekFrom o i fields).2.2 ≠ .failed e := by
  intro fields
  induction fields generalizing r with
  | nil => exact fun _ _ _ => by simp [seekFrom]
  | cons f rest ih =>
      intro i hsub e
      have hrest : ∀ f ∈ rest, f ∈ form.fields := fun g hg => hsub g (List.mem_cons_of_mem _ hg)
      obtain ⟨j, hj⟩ := List.mem_iff_getElem?.mp (hsub f List.mem_cons_self)
      rw [seekFrom]
      split
      · exact ih r (i + 1) hrest e
      · split
        · exact ih (r.skip i) (i + 1) hrest e
        · rcases (h.fields j f hj).offer ⟨f.path, r.draft, r.attemptAt i f, o⟩ with
            hdecline | ⟨make, hask, -⟩
          · simp only [hdecline]
            exact ih ((r.withoutRetry i).skip i) (i + 1) hrest e
          · simp only [hask]
            simp

/-- **The outcome of a visit** is a reply that fits, unless the turns ran out. -/
theorem asked_of_visit? (h : form.Answers o R) (hw : w.host = .rehearsal scripts) {v : Visit}
    (hv : r.visit? n form o w = some v) :
    Question.Asked (R v.place v.run.draft) scripts n (v.outcome, v.session) := by
  unfold visit? at hv
  split at hv
  · rename_i entries run place field attempt make hseek
    rw [Option.some.injEq] at hv
    subst hv
    obtain ⟨hf, hoffer⟩ := offer_of_seek_eq hseek
    rcases (h.fields place field hf).offer ⟨field.path, run.draft, attempt, o⟩ with
      hdecline | ⟨make', hask, hmake⟩
    · rw [hoffer] at hdecline
      exact absurd hdecline (by simp)
    · rw [hoffer, Offer.ask.injEq] at hask
      subst hask
      obtain ⟨hanswers, hhost⟩ := hmake (w.emit entries)
      obtain ⟨hprepared, hsame⟩ := hanswers.prepare field attempt run.current
        (run.total form place) (make (w.emit entries)).2
      have hpresent : (run.present o form place field attempt make (w.emit entries)).2.host =
          .rehearsal scripts := by
        show (prepareQuestion field attempt run.current (run.total form place)
          (make (w.emit entries)).1 (make (w.emit entries)).2).2.host = _
        rw [hsame]
        exact hhost.trans hw
      rcases hprepared.ask hpresent n with hexhausted | ⟨reply, hdone, hr, hgone, rest, hsub, hhost'⟩
      · exact Or.inl hexhausted
      · exact Or.inr ⟨reply, hdone, hr, hgone, rest, hsub,
          (Question.host_dispose _ _).trans hhost'⟩
  · exact absurd hv (by simp)

/-- Nothing stands in the way of an answer, neither in the draft nor among the answers to offer
again. -/
structure Ready (form : Form) (r : Run) : Prop where
  draft : ∀ f ∈ form.fields, r.draft.Admits f.path
  recent : ∀ f ∈ form.fields, r.recent.Admits f.path

/-- Searching leaves both drafts alone. -/
theorem Ready.shows (h : r.Ready form) {v : Visit} (hv : r.Shows o form v) : v.run.Ready form := by
  obtain ⟨entries, make, hseek⟩ := hv
  have hfound : FoundWith o form (fun _ r => r.Ready form) (r.seek o form).2.1
      (r.seek o form).2.2 :=
    seek_keeps (fun _ _ _ h => ⟨h.draft, h.recent⟩) (fun _ _ _ _ h _ => h)
      (fun _ _ _ _ _ h _ _ => ⟨h.draft, h.recent⟩) h
  rw [hseek] at hfound
  exact hfound.2.1

theorem Ready.accept (hform : form.Separate) (h : r.Ready form) {f : Field}
    (hf : form.fields[k]? = some f) (v : Json) :
    ∃ r', r.accept k f.path v = .ok r' ∧ r'.Ready form := by
  have hmem := List.mem_of_getElem? hf
  obtain ⟨r', hok⟩ := exists_accept_eq_ok (h.draft f hmem) (h.recent f hmem) k v
  refine ⟨r', hok, ?_⟩
  obtain ⟨draft, recent, hdraft, hrecent, rfl⟩ := accept_eq_ok hok
  exact {
    draft := hform.forall_path hf h.draft fun _ hq hpq => hq.set hpq hdraft
    recent := hform.forall_path hf h.recent fun _ hq hpq => hq.set hpq hrecent }

theorem Ready.goBack (hform : form.Separate) (h : r.Ready form) (horder : r.InOrder form initial k)
    {hs : List Nat} {e : Nat} (he : r.history = hs ++ [e]) {f : Field}
    (hf : form.fields[e]? = some f) (policy : Policy) :
    ∃ r', r.goBack policy form e f.path = .ok r' ∧ r'.Ready form := by
  obtain ⟨draft, recent, hok, -, hdraft, hrecent⟩ := horder.goBack
    (P := fun d => ∀ g ∈ form.fields, d.Admits g.path)
    (Q := fun d => ∀ g ∈ form.fields, d.Admits g.path) hform he policy hf
    (fun _ hd => hform.forall_path hf h.draft fun _ hq hpq => admits_reset hq hpq hd)
    (fun _ _ _ _ _ hg _ hd hreset => hform.forall_path hg hd fun _ hq hpq =>
      admits_reset hq hpq hreset)
    (fun _ _ _ _ _ hd g hg => (hd g hg).remove) h.recent
  exact ⟨_, hok, hdraft, hrecent⟩

/-- What a settled reply leads to: an end without failure, or a run that goes on like the one
before. -/
def SettledWell (o : Options) (form : Form) (initial : Draft) (R : Nat → Draft → Json → Prop)
    (host : Host) (x : Course × Session) : Prop :=
  x.1 = .ends (.done .back) ∨ x.1 = .ends (.done .cancelled) ∨
    ∃ r k, x.1 = .goesOn r ∧ r.OnPass o form initial (form.Given R) k ∧ r.Ready form ∧
      x.2.host = host

/-- **Settling a reply that fits** does not fail. -/
theorem settledWell (h : form.Answers o R) (hneat : initial.Neat) {v : Visit}
    (hf : form.fields[v.place]? = some v.field)
    (hpass : v.run.OnPass o form initial (form.Given R) v.place)
    (hopen : v.run.isClosed v.place v.field = false)
    (hasks : v.field.declines o v.run.draft none = false) (hready : v.run.Ready form)
    {reply : Reply Json} (houtcome : v.outcome = .done reply)
    (hfits : reply.Fits (R v.place v.run.draft)) :
    SettledWell o form initial R v.session.host (v.settled o form) := by
  have hfield := h.fields v.place v.field hf
  unfold Visit.settled settle
  rw [houtcome]
  rcases reply with answer | _ | _
  · -- an answer is accepted or refused, since it fits
    simp only [settleAnswer, hfield.encode]
    have hhost := host_weigh v.field answer v.run.draft v.session
    rcases hfield.check answer v.run.draft v.session hfits with haccepted | ⟨message, hrejected⟩
    · rcases hweigh : weigh v.field answer v.run.draft v.session with ⟨weighed, w'⟩
      rw [hweigh] at haccepted hhost
      simp only at haccepted
      obtain ⟨r', hok, hready'⟩ := hready.accept h.separate hf answer
      simp only [haccepted, hok]
      refine Or.inr (Or.inr ⟨r', v.place + 1, rfl, ?_, hready', hhost⟩)
      refine hpass.accept h.separate hf hopen hasks ⟨v.field, hf, hfits, v.session, ?_⟩ hok
      rw [hweigh, haccepted]
    · rcases hweigh : weigh v.field answer v.run.draft v.session with ⟨weighed, w'⟩
      rw [hweigh] at hrejected hhost
      simp only at hrejected
      simp only [hrejected]
      exact Or.inr (Or.inr ⟨_, v.place, rfl, hpass.reject answer message v.place,
        ⟨hready.draft, hready.recent⟩, hhost⟩)
  · -- going back lands on the last answer, or leaves the run
    simp only [settleBack]
    rw [landing?_eq_getLast? hpass.1.history_lt]
    rcases hlast : v.run.history.getLast? with _ | e
    · exact Or.inl rfl
    · obtain ⟨hs, g, hsplit, hg, htarget⟩ := hpass.1.exists_landing hf hlast
      obtain ⟨r', hok, hready'⟩ := hready.goBack h.separate hpass.1 hsplit hg o.policy
      simp only [htarget, hok]
      have hpass' := (hpass.goBack h.separate (hneat.opensTidy form) hsplit hg hok).1
      exact Or.inr (Or.inr ⟨r', e, rfl, hpass', hready', rfl⟩)
  · exact Or.inr (Or.inl rfl)

/-- **What a visit leads to** before users with these scripts. If the run goes on, there was a
script to use up. -/
theorem settled_of_visit? (h : form.Answers o R) (hneat : initial.Neat)
    (hpass : r.OnPass o form initial (form.Given R) k) (hready : r.Ready form)
    (hw : w.host = .rehearsal scripts) {v : Visit} (hvisit : r.visit? n form o w = some v) :
    ((v.settled o form).1 = .ends .exhausted ∧ n + 1 < turns scripts) ∨
      (v.settled o form).1 = .ends (.done .back) ∨ (v.settled o form).1 = .ends (.done .cancelled) ∨
      ∃ r k, (v.settled o form).1 = .goesOn r ∧ r.OnPass o form initial (form.Given R) k ∧
        r.Ready form ∧ scripts ≠ [] ∧
        ∃ rest, rest <:+ scripts.tail ∧ (v.settled o form).2.host = .rehearsal rest := by
  have hshows := shows_of_visit?_eq_some hvisit
  obtain ⟨hf, hopen, hasks, hv⟩ := hpass.shows h.skips hshows
  have hends : ∀ {outcome e}, v.outcome = outcome → v.run.settle o form v.place v.field outcome
      v.session = (.ends e, v.session) → (v.settled o form).1 = .ends e := by
    intro outcome e houtcome hsettle
    rw [Visit.settled, houtcome, hsettle]
  rcases asked_of_visit? h hw hvisit with
    ⟨hexhausted, hlt⟩ | ⟨reply, hdone, hfits, hgone, rest, hsub, hhost⟩
  · -- the turns ran out while the question was asked
    exact Or.inl ⟨hends hexhausted rfl, hlt⟩
  · rcases settledWell h hneat hf hv hopen hasks (hready.shows hshows) hdone hfits with
      hback | hcancelled | ⟨r', k', hgoes, hpass', hready', hhost'⟩
    · exact Or.inr (Or.inl hback)
    · exact Or.inr (Or.inr (Or.inl hcancelled))
    · refine Or.inr (Or.inr (Or.inr ⟨r', k', hgoes, hpass', hready', ?_, rest, hsub,
        hhost'.trans hhost⟩))
      -- a user without scripts leaves, and then the run does not go on
      intro hempty
      have houtcome : v.outcome = .done .cancel := hgone hempty ▸ hdone
      unfold Visit.settled settle at hgoes
      rw [houtcome] at hgoes
      exact absurd hgoes (by simp)

/-! ## Whole runs -/

/-- What a run of a form of fields that answer comes to: it ends with the user having left, or with
the draft of a pass, unless its turns run out, which are then too few. -/
def EndsWell (o : Options) (form : Form) (initial : Draft) (R : Nat → Draft → Json → Prop)
    (scripts : List (List Event)) (n : Nat) (outcome : Outcome Ending) : Prop :=
  (outcome = .exhausted ∧ n < turns scripts) ∨ outcome = .done .back ∨
    outcome = .done .cancelled ∨
    ∃ d hs, outcome = .done (.completed d) ∧
      Pass o form initial (form.Given R) form.fields.length hs d

/-- **A run on its pass ends well**, if a finished pass has all that is required. The induction is
on the bound, with fewer scripts after every visit. -/
theorem OnPass.endsWell (h : form.Answers o R) (hneat : initial.Neat)
    (hrequired : ∀ hs d, Pass o form initial (form.Given R) form.fields.length hs d →
      ∀ p ∈ form.required, d.contains p = true)
    (hpass : r.OnPass o form initial (form.Given R) k) (hready : r.Ready form)
    (hw : w.host = .rehearsal scripts) :
    EndsWell o form initial R scripts n (conduct n form o r w).1 := by
  induction n generalizing r k w scripts with
  | zero =>
      have hturns := head_lt_turns scripts
      exact Or.inl ⟨rfl, by omega⟩
  | succ n ih =>
      rcases hvisit : r.visit? n form o w with _ | v
      · rcases conduct_of_visit?_eq_none hvisit with
          ⟨entries, last, e, hseek, -⟩ | ⟨entries, last, hseek, heq⟩
        · -- the search cannot have failed
          have hfailed := seek_ne_failed h r form.fields 0 (fun _ hf => hf) e
          rw [seek] at hseek
          rw [hseek] at hfailed
          exact absurd rfl hfailed
        · -- nothing is left to ask, and the finished pass has all that is required
          have hdone := hpass.nothing h.skips hseek
          have hmissing : last.missing? form = none := by
            refine List.find?_eq_none.mpr fun p hp => ?_
            rw [hrequired _ _ hdone p hp]
            simp
          rw [heq, conclude, hmissing]
          exact Or.inr (Or.inr (Or.inr ⟨_, _, rfl, hdone⟩))
      · have hsettled := settled_of_visit? h hneat hpass hready hw hvisit
        rw [conduct_of_visit?_eq_some hvisit]
        generalize v.settled o form = settled at hsettled ⊢
        obtain ⟨course, w'⟩ := settled
        simp only at hsettled
        rcases hsettled with
          ⟨rfl, hlt⟩ | rfl | rfl | ⟨r', k', rfl, hpass', hready', hne, rest, hsub, hhost⟩
        · exact Or.inl ⟨rfl, hlt⟩
        · exact Or.inr (Or.inl rfl)
        · exact Or.inr (Or.inr (Or.inl rfl))
        · rcases ih hpass' hready' hhost with ⟨hexhausted, hlt⟩ | hended
          · have hle := turns_le_of_suffix hsub
            have htail := turns_tail_lt hne
            exact Or.inl ⟨hexhausted, by omega⟩
          · exact Or.inr hended

end Run

/-- **A form of fields that answer ends well** from a neat start with nothing in the way. -/
theorem Form.Answers.endsWell {form : Form} {o : Options} {R : Nat → Draft → Json → Prop}
    (h : form.Answers o R) {initial recent : Draft} {first : Run}
    (hstart : Run.start form initial recent = .ok first) (hneat : initial.Neat)
    (hready : first.Ready form)
    (hrequired : ∀ hs d, Pass o form initial (form.Given R) form.fields.length hs d →
      ∀ p ∈ form.required, d.contains p = true)
    {w : Session} {scripts : List (List Event)} (hw : w.host = .rehearsal scripts) (n : Nat) :
    Run.EndsWell o form initial R scripts n (conductForm (n + 1) form o initial recent w).1 := by
  rw [conductForm, hstart]
  exact (Run.OnPass.start hstart).endsWell h hneat hrequired hready hw

/-! ## Starts and sittings -/

/-- The empty draft fills no field. -/
theorem Field.isFilled_empty (f : Field) : f.isFilled .empty = false := by
  have hnone : Draft.empty.get? f.path = none := by
    rw [Draft.get?, Draft.empty, Members.at?_empty]
    rfl
  rw [isFilled, hnone]

/-- Nothing stands in the way in the empty draft. -/
theorem Draft.admits_empty {p : Path} (h : p.isRoot = false) : Draft.empty.Admits p := by
  refine Members.admits_empty fun hnil => ?_
  rw [Path.isRoot, hnil] at h
  exact absurd h (by decide)

/-- A run of a separate form that starts with empty drafts has nothing in its way. -/
theorem Form.Separate.ready_of_empty {form : Form} (h : form.Separate) {first : Run}
    (hstart : Run.start form .empty .empty = .ok first) : first.Ready form := by
  rw [Run.start_eq_ok hstart]
  exact {
    draft := fun f hf => Draft.admits_empty (h.not_root f hf)
    recent := fun f hf => Draft.admits_empty (h.not_root f hf) }

/-- What a new sitting comes to is what its run comes to, with the response read. -/
theorem Sitting.conduct_new {α : Type} (n : Nat) (read : Json → Option α) (form : Form)
    (initial : Draft) (o : Options) (session : Session) :
    ((Sitting.new form initial o).conduct n read session).1 =
      (conductForm n form o initial .empty session).1.bind (respond read) :=
  rfl

end Interview
