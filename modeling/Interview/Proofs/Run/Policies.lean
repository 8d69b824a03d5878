import Mathlib
import Interview.Proofs.Run.Recollection
/-
The policy decides about what is offered again, and about nothing else.

Going back clears later answers, and the policy says which. But when the user goes back, the fields
after the one that the run lands on have no answers any more: they were taken back when the user
came past them on the way, or never given. So whatever the policy clears there is nothing that the
draft has, and the only trace is in the answers to offer again. A start with null in the place of a
field is the exception: the null reads as absent, but clearing the field takes it away.

Two runs of a form under different policies are compared here turn by turn. They differ in the
answers to offer again and agree in all the rest, and this is kept as long as they are given the
same results. What a field offers may depend on the attempt and on the options only in the question
that it makes (`Offer.Alike`), and what that question comes to is one of the results. The rest is to
show that the answers to offer again never decide over the fate of a run, which is where
recollections come in.
-/

set_option autoImplicit false

namespace Interview

/-! ## The same results -/

/-- Two accounts are given the same results, as far as both go. -/
def Account.SameResults (acc acc' : Account) : Prop :=
  acc.results <+: acc'.results ∨ acc'.results <+: acc.results

namespace Account

variable {acc acc' more more' : Account}

@[simp] theorem results_append : results (acc ++ acc') = results acc ++ results acc' := by
  rw [results, leaves_append, List.map_append, results, results]

/-- The same results are the same at the beginning. -/
theorem SameResults.of_append (h : SameResults (acc ++ more) (acc' ++ more')) :
    acc.SameResults acc' := by
  rw [SameResults, results_append, results_append] at h
  rcases h with h | h
  · exact List.prefix_or_prefix_of_prefix ((List.prefix_append _ _).trans h)
      (List.prefix_append _ _)
  · exact List.prefix_or_prefix_of_prefix (List.prefix_append _ _)
      ((List.prefix_append _ _).trans h)

/-- The same results go on the same after the same beginning. -/
theorem SameResults.of_append_left (h : SameResults (acc ++ more) (acc ++ more')) :
    more.SameResults more' := by
  rw [SameResults, results_append, results_append] at h
  exact h.imp (List.prefix_append_right_inj _).mp (List.prefix_append_right_inj _).mp

/-- One result that is the same. -/
theorem sameResults_asked {a a' : List Nat} {out out' : Outcome (Reply Json)}
    (h : SameResults [.asked a out] [.asked a' out']) : out = out' := by
  have hresults : ∀ b o, results [.asked b o] = [o] := fun _ _ => rfl
  rw [SameResults, hresults, hresults] at h
  simpa [eq_comm] using h

@[simp] theorem ofEntries_append (es es' : List Entry) :
    ofEntries (es ++ es') = ofEntries es ++ ofEntries es' := by
  simp only [ofEntries, List.filter_append, List.map_append]

/-- Notes are nothing that an observer is told. -/
@[simp] theorem ofEntries_notes (notes : List Note) : ofEntries (notes.map Entry.noted) = [] := by
  simp [ofEntries, Entry.isReport]

end Account

/-! ## Fields whose offers are alike -/

/-- Two offers that differ in the question at most. -/
inductive Offer.Alike : Offer → Offer → Prop
  | decline : Alike .decline .decline
  | fail (cause : Failure) : Alike (.fail cause) (.fail cause)
  | ask (make make' : Session → Question × Session) : Alike (.ask make) (.ask make')

/-- What the field offers depends on the draft, and on the attempt and the options only in the
question itself. -/
def Field.OffersAlike (f : Field) (o o' : Options) : Prop :=
  ∀ d a a', (f.offer ⟨f.path, d, a, o⟩).Alike (f.offer ⟨f.path, d, a', o'⟩)

theorem Form.offersAlike_asField (path : Path) (inner : Form) (o o' : Options) :
    (asField path inner).OffersAlike o o' := by
  intro d a a'
  rw [offer_asField, offer_asField]
  cases hstart : d.startAt (asField path inner).path with
  | ok s =>
      exact .ask _ _
  | error e =>
      exact .fail _

/-- A field that asks the same question every time offers it whatever the attempt is. -/
theorem Field.offersAlike_asking (path : Path) (type : AnswerType) (q : Question)
    (o o' : Options) : (Field.asking path type q).OffersAlike o o' :=
  fun _ _ _ => .ask _ _

/-- A form in which paths do not overlap and offers are alike, throughout. -/
def Form.Indifferent (o o' : Options) (form : Form) : Prop :=
  form.Throughout Form.Separate fun f => f.OffersAlike o o'

theorem Form.Indifferent.offersAlike {o o' : Options} {form : Form} (h : form.Indifferent o o')
    {f : Field} (hf : f ∈ form.fields) : f.OffersAlike o o' := by
  rcases h.field hf with ⟨-, halike⟩ | ⟨path, inner, rfl, -⟩
  · exact halike
  · exact offersAlike_asField path inner o o'

namespace Run

/-- The run with other answers to offer again. -/
def recalling (r : Run) (recent : Draft) : Run :=
  { r with recent }

end Run

/-- Two courses that are the same up to the answers to offer again. -/
inductive Course.Alike (form : Form) (initial : Draft) : Course → Course → Prop
  | ends (e : Outcome Ending) : Alike form initial (.ends e) (.ends e)
  | goesOn (r : Run) (recent : Draft) (h : form.Recalls initial recent) :
    Alike form initial (.goesOn r) (.goesOn (r.recalling recent))

namespace Run

variable {form : Form} {initial recent : Draft} {o o' : Options} {r : Run} {k : Nat} {f : Field}

@[simp] theorem recalling_draft (r : Run) (d : Draft) : (r.recalling d).draft = r.draft := rfl

/-! ## Searching -/

/-- Two searches that come to the same, up to the attempt and the question. -/
inductive Found.Alike : Found → Found → Prop
  | nothing : Alike .nothing .nothing
  | failed (e : RunError) : Alike (.failed e) (.failed e)
  | step (i : Nat) (f : Field) (attempt attempt' : Option (Attempt Json))
    (make make' : Session → Question × Session) :
    Alike (.step i f attempt make) (.step i f attempt' make')

theorem withoutRetry_recalling (r : Run) (d : Draft) (i : Nat) :
    (r.recalling d).withoutRetry i = (r.withoutRetry i).recalling d := by
  unfold withoutRetry
  simp only [recalling]
  split
  · split
    · rfl
    · rfl
  · rfl

/-- **Searching is the same** whatever the answers to offer again and the policy are. -/
theorem seekFrom_recalling (hobserver : o'.observer = o.observer) {fields : List Field}
    (hfields : ∀ f ∈ fields, f.OffersAlike o o') (r : Run) (d : Draft) (i : Nat) :
    Account.ofEntries ((r.recalling d).seekFrom o' i fields).1 =
        Account.ofEntries (r.seekFrom o i fields).1 ∧
      ((r.recalling d).seekFrom o' i fields).2.1 = (r.seekFrom o i fields).2.1.recalling d ∧
      (r.seekFrom o i fields).2.2.Alike ((r.recalling d).seekFrom o' i fields).2.2 := by
  induction fields generalizing r i with
  | nil => exact ⟨rfl, rfl, .nothing⟩
  | cons f rest ih =>
      have ih := ih fun g hg => hfields g (List.mem_cons_of_mem f hg)
      have hclosed : (r.recalling d).isClosed i f = r.isClosed i f := rfl
      rw [seekFrom, seekFrom, hclosed, recalling_draft]
      split
      · exact ih r (i + 1)
      · split
        · -- the field does not apply
          obtain ⟨htold, hrun, hfound⟩ := ih (r.skip i) (i + 1)
          refine ⟨?_, hrun, hfound⟩
          rw [Account.ofEntries_append, Account.ofEntries_append, hobserver, ← htold]
          rfl
        · have halike := hfields f List.mem_cons_self r.draft (r.attemptAt i f)
            ((r.recalling d).attemptAt i f)
          generalize hx : f.offer ⟨f.path, r.draft, r.attemptAt i f, o⟩ = x at halike
          generalize hy : f.offer ⟨f.path, r.draft, (r.recalling d).attemptAt i f, o'⟩ = y at halike
          cases halike with
          | decline =>
              -- there is no question for it
              obtain ⟨htold, hrun, hfound⟩ := ih ((r.withoutRetry i).skip i) (i + 1)
              simp only [hx, hy, withoutRetry_recalling]
              refine ⟨?_, hrun, hfound⟩
              simp only [Account.ofEntries_append, Account.ofEntries_notes, hobserver, ← htold]
              rfl
          | fail cause =>
              simp only [hx, hy, withoutRetry_recalling, Account.ofEntries_notes, true_and]
              exact ⟨rfl, .failed _⟩
          | ask make make' =>
              simp only [hx, hy, withoutRetry_recalling, Account.ofEntries_notes, true_and]
              exact ⟨rfl, .step _ _ _ _ _ _⟩

/-! ## Settling -/

/-- Weighing an answer notes something at most. -/
theorem exists_weigh_eq (f : Field) (v : Json) (d : Draft) :
    ∃ x es, Account.ofEntries es = [] ∧ ∀ w, weigh f v d w = (x, w.emit es) := by
  unfold weigh
  cases f.check with
  | none => exact ⟨.accepted, [], rfl, fun w => rfl⟩
  | some check =>
      cases f.type.decode? v with
      | none => exact ⟨.failed (.draft (.decode f.path)), [], rfl, fun w => rfl⟩
      | some answer =>
          have hnotes := Account.ofEntries_notes (check answer d).notes
          by_cases hnever : (check answer d).delay.isNever = true
          · exact ⟨.suspended, _, hnotes, fun w => by simp only [hnever, if_true]⟩
          · rcases hverdict : (check answer d).verdict with cause | _ | message
            · exact ⟨.failed (.collaborator cause), _, hnotes, fun w => by
                simp only [hnever, hverdict, Bool.false_eq_true, if_false]⟩
            · exact ⟨.accepted, _, hnotes, fun w => by
                simp only [hnever, hverdict, Bool.false_eq_true, if_false]⟩
            · exact ⟨.rejected message, _, hnotes, fun w => by
                simp only [hnever, hverdict, Bool.false_eq_true, if_false]⟩

/-- **An answer is stored or not** whatever the answers to offer again are. -/
theorem accept_recalling (hform : form.Separate) (h : r.Recollects form initial k)
    (hrecent : form.Recalls initial recent) (hf : form.fields[k]? = some f) {v : Json}
    (hv : f.Recalls initial v) :
    (∃ e, r.accept k f.path v = .error e ∧ (r.recalling recent).accept k f.path v = .error e) ∨
      ∃ r' recent', r.accept k f.path v = .ok r' ∧
        (r.recalling recent).accept k f.path v = .ok (r'.recalling recent') ∧
        form.Recalls initial recent' := by
  have hmem := List.mem_of_getElem? hf
  cases hset : r.draft.set f.path v with
  | error e =>
      refine Or.inl ⟨e, ?_, ?_⟩
      · simp only [accept, hset, bind, Except.bind]
      · simp only [accept, recalling_draft, hset, bind, Except.bind]
  | ok draft =>
      -- what is free in the draft is free at the start, and so in all recollections
      have hadmits := h.draft.bound f hmem (Draft.admits_of_set_eq_ok hset)
      obtain ⟨d, hd⟩ := Draft.exists_set_eq_ok (h.recent.free hmem hadmits) v
      obtain ⟨d', hd'⟩ := Draft.exists_set_eq_ok (hrecent.free hmem hadmits) v
      refine Or.inr ⟨{ r with draft, recent := d, history := r.history ++ [k] }, d', ?_, ?_,
        hrecent.set hform hf hv hd'⟩
      · simp only [accept, hset, hd, bind, Except.bind, pure, Except.pure]
      · simp only [accept, recalling, hset, hd', bind, Except.bind, pure, Except.pure]

/-- The two runs stand to the start alike. -/
theorem Recollects.recalling (h : r.Recollects form initial k)
    (hrecent : form.Recalls initial recent) : (r.recalling recent).Recollects form initial k :=
  ⟨{ h.order with }, h.draft, hrecent, h.retry⟩

/-- What the observer is told by an answer, and where it leads. -/
theorem settleAnswer_recalling (hobserver : o'.observer = o.observer) (hform : form.Separate)
    (h : r.Recollects form initial k) (hrecent : form.Recalls initial recent)
    (hf : form.fields[k]? = some f) {answer : Json}
    (hanswer : ∀ v, f.type.encode answer = .ok v → f.Recalls initial v) (w w' : Session) :
    Account.ofEntries (w'.since ((r.recalling recent).settleAnswer o' k f answer w').2) =
        Account.ofEntries (w.since (r.settleAnswer o k f answer w).2) ∧
      Course.Alike form initial (r.settleAnswer o k f answer w).1
        ((r.recalling recent).settleAnswer o' k f answer w').1 := by
  unfold settleAnswer
  cases henc : f.type.encode answer with
  | error detail => exact ⟨by simp [Account.ofEntries], .ends _⟩
  | ok v =>
      obtain ⟨x, es, hnotes, hweigh⟩ := exists_weigh_eq f v r.draft
      simp only [recalling_draft, hweigh]
      cases x with
      | failed e => exact ⟨by simp [hnotes], .ends _⟩
      | suspended => exact ⟨by simp [hnotes], .ends _⟩
      | rejected message =>
          refine ⟨?_, .goesOn (r.reject k v message) recent hrecent⟩
          simp [Session.report, Session.since_emit_emit, hnotes, hobserver]
      | accepted =>
          rcases accept_recalling hform h hrecent hf (hanswer v henc) with
            ⟨e, hok, hok'⟩ | ⟨r', recent', hok, hok', hrecent'⟩
          · simp only [hok, hok']
            exact ⟨by simp [hnotes], .ends _⟩
          · simp only [hok, hok']
            refine ⟨?_, .goesOn r' recent' hrecent'⟩
            simp [Session.report, Session.since_emit_emit, hnotes, hobserver]

/-- **Going back lands on the same field with the same draft** under every policy. -/
theorem settleBack_recalling (hobserver : o'.observer = o.observer)
    (hform : form.Indifferent o o') (hinitial : form.CanStart initial)
    (h : r.Recollects form initial k) (hrecent : form.Recalls initial recent)
    (hf : form.fields[k]? = some f) (w w' : Session) :
    Account.ofEntries (w'.since ((r.recalling recent).settleBack o' form k f w').2) =
        Account.ofEntries (w.since (r.settleBack o form k f w).2) ∧
      Course.Alike form initial (r.settleBack o form k f w).1
        ((r.recalling recent).settleBack o' form k f w').1 := by
  have hlands : (r.recalling recent).landing? k = r.landing? k := rfl
  unfold settleBack
  rw [hlands]
  cases hlanding : r.landing? k with
  | none =>
      refine ⟨?_, .ends _⟩
      simp only [Session.since_report, hobserver]
  | some e =>
      rw [landing?_eq_getLast? h.order.history_lt] at hlanding
      obtain ⟨hs, g, hsplit, hg, htarget⟩ := h.order.exists_landing hf hlanding
      obtain ⟨d, d₁, hreset, hok, -⟩ := h.goBack hform hinitial hsplit o.policy hg
      obtain ⟨d', d₁', hreset', hok', hr'⟩ := (h.recalling hrecent).goBack hform hinitial hsplit
        o'.policy hg
      -- the draft is what the first reset makes of it, and that is the same
      obtain rfl : d = d' := Except.ok.inj (hreset.symm.trans hreset')
      simp only [htarget, hok, hok', Session.since_report, hobserver, true_and]
      exact .goesOn _ d₁' hr'.recent

/-- **Settling is the same** whatever the answers to offer again and the policy are. -/
theorem settle_recalling (hobserver : o'.observer = o.observer) (hform : form.Indifferent o o')
    (hinitial : form.CanStart initial) (h : r.Recollects form initial k)
    (hrecent : form.Recalls initial recent) (hf : form.fields[k]? = some f)
    {out : Outcome (Reply Json)}
    (hout : ∀ answer v, out = .done (.value answer) → f.type.encode answer = .ok v →
      f.Recalls initial v) (w w' : Session) :
    Account.ofEntries (w'.since ((r.recalling recent).settle o' form k f out w').2) =
        Account.ofEntries (w.since (r.settle o form k f out w).2) ∧
      Course.Alike form initial (r.settle o form k f out w).1
        ((r.recalling recent).settle o' form k f out w').1 := by
  unfold settle
  rcases out with (answer | _ | _) | e | _ | _
  · exact settleAnswer_recalling hobserver hform.own h hrecent hf (fun v => hout answer v rfl) w w'
  · exact settleBack_recalling hobserver hform hinitial h hrecent hf w w'
  · exact ⟨by simp only [Session.since_report, hobserver], .ends _⟩
  · exact ⟨by simp, .ends _⟩
  · exact ⟨by simp, .ends _⟩
  · exact ⟨by simp, .ends _⟩

/-! ## Two runs -/

theorem total_recalling (r : Run) (d : Draft) (form : Form) (place : Nat) :
    (r.recalling d).total form place = r.total form place := by
  have hopen : ∀ (fields : List Field) (i : Nat),
      (r.recalling d).openFrom i fields = r.openFrom i fields := by
    intro fields
    induction fields with
    | nil => exact fun _ => rfl
    | cons f rest ih =>
        intro i
        rw [openFrom, openFrom, ih]
        rfl
  rw [total, total, hopen]
  rfl

theorem announced_recalling (hobserver : o'.observer = o.observer) (r : Run) (d : Draft)
    (a : List Nat) (form : Form) (place : Nat) (path : Path) :
    (r.recalling d).announced a o' form place path = r.announced a o form place path := by
  rw [announced, announced, hobserver, total_recalling]
  rfl

theorem conclude_recalling (hobserver : o'.observer = o.observer) (r : Run) (d : Draft)
    (form : Form) (w w' : Session) :
    ((r.recalling d).conclude o' form w').1 = (r.conclude o form w).1 ∧
      Account.ofEntries (w'.since ((r.recalling d).conclude o' form w').2) =
        Account.ofEntries (w.since (r.conclude o form w).2) := by
  have hmissing : (r.recalling d).missing? form = r.missing? form := rfl
  unfold conclude
  rw [hmissing]
  cases r.missing? form with
  | some p => exact ⟨rfl, by simp⟩
  | none =>
      refine ⟨rfl, ?_⟩
      simp only [Session.since_report, hobserver]
      rfl

/-- What is said of two runs in the induction: given the same results, they have the same account
and come to the same. -/
def Agrees (n : Nat) : Prop :=
  ∀ {a : List Nat} {form : Form} {initial recent : Draft} {o o' : Options} {r : Run} {k : Nat}
    {w w' : Session}, o'.observer = o.observer → form.Indifferent o o' → form.CanStart initial →
    r.Recollects form initial k → form.Recalls initial recent →
    (r.account n a form o w).SameResults ((r.recalling recent).account n a form o' w') →
    r.account n a form o w = (r.recalling recent).account n a form o' w' ∧
      (conduct n form o r w).1 = (conduct n form o' (r.recalling recent) w').1

/-- A run starts alike whatever it is given to offer again. -/
theorem start_recalling (form : Form) (initial recent recent' : Draft) :
    (∃ e, Run.start form initial recent = .error e ∧ Run.start form initial recent' = .error e) ∨
      ∃ r, Run.start form initial recent = .ok r ∧
        Run.start form initial recent' = .ok (r.recalling recent') := by
  unfold Run.start
  split
  · exact Or.inl ⟨_, rfl, rfl⟩
  · exact Or.inr ⟨_, rfl, rfl⟩

end Run

/-- Two forms agree if their runs do. -/
theorem Form.agree_of_sameResults {n : Nat} (ih : ∀ m < n, Run.Agrees m) {a : List Nat}
    {form : Form} {initial recent recent' : Draft} {o o' : Options} {w w' : Session}
    (hobserver : o'.observer = o.observer) (hform : form.Indifferent o o')
    (hinitial : form.CanStart initial) (hrecent : form.Recalls initial recent)
    (hrecent' : form.Recalls initial recent')
    (hresults : (form.account n a o initial recent w).SameResults
      (form.account n a o' initial recent' w')) :
    form.account n a o initial recent w = form.account n a o' initial recent' w' ∧
      (conductForm n form o initial recent w).1 = (conductForm n form o' initial recent' w').1 := by
  rcases n with _ | n
  · exact ⟨by rw [Form.account, Form.account], by rw [conductForm, conductForm]⟩
  · rw [Form.account, Form.account] at *
    rw [conductForm, conductForm]
    rcases Run.start_recalling form initial recent recent' with
      ⟨e, hstart, hstart'⟩ | ⟨r, hstart, hstart'⟩
    · simp only [hstart, hstart', and_self]
    · simp only [hstart, hstart'] at hresults ⊢
      exact ih n (Nat.lt_succ_self n) hobserver hform hinitial
        (.start hform hinitial hrecent hstart) hrecent' hresults

/-- Two courses that are alike have the same account and come to the same, given the same
results. -/
theorem Course.Alike.agree {n : Nat} (ih : Run.Agrees n) {a : List Nat} {form : Form}
    {initial : Draft} {o o' : Options} {course course' : Course} {w w' : Session}
    (hobserver : o'.observer = o.observer) (hform : form.Indifferent o o')
    (hinitial : form.CanStart initial) (h : course.Alike form initial course')
    (hgoes : ∀ r', course = .goesOn r' → ∃ i, r'.Recollects form initial i)
    (hresults : (course.account n a form o w).SameResults (course'.account n a form o' w')) :
    course.account n a form o w = course'.account n a form o' w' ∧
      course.outcome n form o w = course'.outcome n form o' w' := by
  cases h with
  | ends e => exact ⟨rfl, rfl⟩
  | goesOn r' recent' hrecent' =>
      obtain ⟨i, hr'⟩ := hgoes r' rfl
      exact ih hobserver hform hinitial hr' hrecent' hresults

namespace Run

variable {n : Nat} {a : List Nat} {form : Form} {initial recent : Draft} {o o' : Options}
variable {r : Run} {k : Nat} {f : Field}

/-- **The question of a step** has the same account in both runs and comes to the same, given the
same results: a form because its runs agree, and any other question because what it came to is the
result. -/
theorem Recollects.agree_of_sameResults (ih : ∀ m < n, Agrees m)
    (hobserver : o'.observer = o.observer) (hform : form.Indifferent o o')
    (hinitial : form.CanStart initial) (h : r.Recollects form initial k)
    (hf : form.fields[k]? = some f) {attempt attempt' : Option (Attempt Json)}
    {make make' : Session → Question × Session} {q q' : Question} {w w₁ w' w₁' : Session}
    (hoffer : f.offer ⟨f.path, r.draft, attempt, o⟩ = .ask make)
    (hoffer' : f.offer ⟨f.path, r.draft, attempt', o'⟩ = .ask make')
    (hattempt : ∀ path inner s, f = Form.asField path inner → initial.startAt path = .ok s →
      inner.Recalls s (Draft.offered attempt))
    (hattempt' : ∀ path inner s, f = Form.asField path inner → initial.startAt path = .ok s →
      inner.Recalls s (Draft.offered attempt'))
    (hpresent : r.present o form k f attempt make w = (q, w₁))
    (hpresent' : (r.recalling recent).present o' form k f attempt' make' w' = (q', w₁'))
    (hresults : (q.account n a w₁).SameResults (q'.account n a w₁')) :
    q.account n a w₁ = q'.account n a w₁' ∧ (q.ask n w₁).1 = (q'.ask n w₁').1 := by
  rcases n with _ | n
  · exact ⟨by rw [Question.account, Question.account], by rw [Question.ask, Question.ask]⟩
  rcases hform.field (List.mem_of_getElem? hf) with ⟨hleaf, -⟩ | ⟨path, inner, rfl, hinner⟩
  · have hq := isForm_present (hleaf _ make w hoffer) hpresent
    have hq' := isForm_present (hleaf _ make' w' hoffer') hpresent'
    rw [Question.account_of_isForm_eq_false hq, Question.account_of_isForm_eq_false hq'] at *
    have heq := Account.sameResults_asked hresults
    exact ⟨by rw [heq], heq⟩
  · obtain ⟨s, hs, rfl⟩ := Form.offer_asField_eq_ask hoffer
    obtain ⟨s', hs', rfl⟩ := Form.offer_asField_eq_ask hoffer'
    obtain rfl : s = s' := Except.ok.inj (hs.symm.trans hs')
    rw [present_asField, Prod.mk.injEq] at hpresent hpresent'
    obtain ⟨rfl, rfl⟩ := hpresent
    obtain ⟨rfl, rfl⟩ := hpresent'
    have hread : r.draft.get? path = initial.get? path :=
      h.order.answered.kept k _ hf fun hmem => Nat.lt_irrefl k (h.order.history_lt k hmem)
    have hstart : initial.startAt path = .ok s := (Draft.startAt_congr hread).symm.trans hs
    rw [Question.account, Question.account] at *
    obtain ⟨haccount, houtcome⟩ := Form.agree_of_sameResults
      (fun m hm => ih m (Nat.lt_succ_of_lt hm)) hobserver hinner
      ((Draft.plain_of_startAt hinitial.ordered hstart).canStart inner)
      (hattempt path inner s rfl hstart) (hattempt' path inner s rfl hstart) hresults.of_append
    rw [Question.ask, Question.ask]
    exact ⟨by rw [haccount, houtcome], congrArg (Outcome.map Ending.reply) houtcome⟩

/-- The searches of the two runs, side by side. -/
theorem seek_recalling (hobserver : o'.observer = o.observer) (hform : form.Indifferent o o')
    {entries entries' : List Entry} {run run' : Run} {found found' : Found}
    (h : r.seek o form = (entries, run, found))
    (h' : (r.recalling recent).seek o' form = (entries', run', found')) :
    Account.ofEntries entries' = Account.ofEntries entries ∧ run' = run.recalling recent ∧
      found.Alike found' := by
  have hfrom := seekFrom_recalling hobserver (fun f hf => hform.offersAlike hf) r recent 0
  unfold seek at h h'
  rwa [h, h'] at hfrom

/-- **One turn of two runs.** Both show the same step, its question comes to the same, and both take
the same course. -/
theorem Turn.agree (ih : ∀ m ≤ n, Agrees m) (hobserver : o'.observer = o.observer)
    (hform : form.Indifferent o o') (hinitial : form.CanStart initial)
    (hr : r.Recollects form initial k) (hrecent : form.Recalls initial recent)
    {acc acc' : Account} {out out' : Outcome Ending} (h : r.Turn n a form o acc out)
    (h' : (r.recalling recent).Turn n a form o' acc' out') (hresults : acc.SameResults acc') :
    acc = acc' ∧ out = out' := by
  cases h with
  | failed sought =>
      cases h' with
      | failed sought' =>
          obtain ⟨htold, -, hfound⟩ := seek_recalling hobserver hform sought sought'
          cases hfound
          exact ⟨htold.symm, rfl⟩
      | finished sought' => cases (seek_recalling hobserver hform sought sought').2.2
      | step sought' => cases (seek_recalling hobserver hform sought sought').2.2
  | @finished entries run w sought =>
      cases h' with
      | failed sought' => cases (seek_recalling hobserver hform sought sought').2.2
      | @finished entries' run' w' sought' =>
          obtain ⟨htold, rfl, -⟩ := seek_recalling hobserver hform sought sought'
          obtain ⟨hout, hend⟩ := conclude_recalling hobserver run recent form w w'
          exact ⟨by rw [htold, hend], hout.symm⟩
      | step sought' => cases (seek_recalling hobserver hform sought sought').2.2
  | @step entries run place f attempt make q w w₁ w₂ w₃ course sought presented settled =>
      cases h' with
      | failed sought' => cases (seek_recalling hobserver hform sought sought').2.2
      | finished sought' => cases (seek_recalling hobserver hform sought sought').2.2
      | @step entries' run' place' f' attempt' make' q' w' w₁' w₂' w₃' course' sought' presented'
          settled' =>
          obtain ⟨htold, rfl, hfound⟩ := seek_recalling hobserver hform sought sought'
          cases hfound
          obtain ⟨hf, hopen, hrun, hattempt⟩ := hr.shows_of_seek hform sought
          obtain ⟨-, -, -, hattempt'⟩ := (hr.recalling hrecent).shows_of_seek hform sought'
          rw [announced_recalling hobserver, htold] at *
          -- the question comes to the same
          obtain ⟨hquestion, hask⟩ := hrun.agree_of_sameResults
            (fun m hm => ih m (Nat.le_of_lt hm)) hobserver hform hinitial hf
            (offer_of_seek_eq sought).2 (offer_of_seek_eq sought').2 hattempt hattempt' presented
            presented' hresults.of_append_left.of_append.of_append_left
          -- so both runs take the same course
          have hanswer : ∀ answer v, (q.ask n w₁).1 = .done (.value answer) →
              f.type.encode answer = .ok v → f.Recalls initial v := fun answer v hask henc =>
            hrun.answer (fun m _ => Run.remembers _ m) hform hinitial hf (offer_of_seek_eq sought).2
              hattempt presented hask henc
          obtain ⟨hsince, hcourse⟩ := settle_recalling hobserver hform hinitial hrun hrecent hf
            hanswer w₂ w₂'
          rw [settled, hask, settled'] at hsince hcourse
          simp only at hsince hcourse
          rw [← hquestion, hsince] at hresults ⊢
          have hgoes : ∀ r', course = .goesOn r' → ∃ i, r'.Recollects form initial i := by
            rintro r' rfl
            exact hrun.of_settle hform hinitial hf hopen hanswer settled
          obtain ⟨haccount, houtcome⟩ := hcourse.agree (ih n (Nat.le_refl n)) hobserver hform
            hinitial hgoes hresults.of_append_left.of_append_left.of_append_left
          exact ⟨by rw [haccount], houtcome⟩

/-- **Two runs under different policies agree**, given the same results. The induction is on the
bound, over the turns of the runs and the runs inside them. -/
theorem agrees (n : Nat) : Agrees n := by
  induction n using Nat.strong_induction_on with
  | _ n ih =>
    intro a form initial recent o o' r k w w' hobserver hform hinitial hr hrecent hresults
    rcases n with _ | n
    · exact ⟨by rw [Run.account, Run.account], by rw [conduct, conduct]⟩
    · exact (r.turn n a form o w).agree (fun m hm => ih m (Nat.lt_succ_of_le hm)) hobserver hform
        hinitial hr hrecent ((r.recalling recent).turn n a form o' w') hresults

end Run

/-! ## Forms run from the start -/

/-- **The policy changes only what is offered again**, if the start has no null in the place of a
field. Run under two policies and given the same results, a form shows the same steps with the same
numbers for the same drafts, tells the observer the same and comes to the same outcome. -/
theorem Form.account_eq_of_sameResults {form : Form} {observer : Observer}
    {policy policy' : Policy} {initial : Draft} {n : Nat} {w w' : Session}
    (hform : form.Indifferent ⟨observer, policy⟩ ⟨observer, policy'⟩)
    (hinitial : form.CanStart initial)
    (hresults : (form.account n [] ⟨observer, policy⟩ initial .empty w).SameResults
      (form.account n [] ⟨observer, policy'⟩ initial .empty w')) :
    form.account n [] ⟨observer, policy⟩ initial .empty w =
        form.account n [] ⟨observer, policy'⟩ initial .empty w' ∧
      (conductForm n form ⟨observer, policy⟩ initial .empty w).1 =
        (conductForm n form ⟨observer, policy'⟩ initial .empty w').1 :=
  agree_of_sameResults (fun m _ => Run.agrees m) rfl hform hinitial (.empty hform.own initial)
    (.empty hform.own initial) hresults

/-- Under both policies, the user of the excursion sees the same when the handler is there from the
start. -/
theorem excursion_under_both_policies :
    Form.excursion.Indifferent ⟨.recording, .declarationOrder⟩
      ⟨.recording, .declaredDependencies⟩ ∧
    Form.excursion.CanStart .excursion ∧
    (Form.excursion.account 12 [] ⟨.recording, .declarationOrder⟩ .excursion .empty
      .excursion).SameResults
      (Form.excursion.account 12 [] ⟨.recording, .declaredDependencies⟩ .excursion .empty
        .excursion) ∧
    Form.excursion.account 12 [] ⟨.recording, .declarationOrder⟩ .excursion .empty .excursion =
      Form.excursion.account 12 [] ⟨.recording, .declaredDependencies⟩ .excursion .empty
        .excursion ∧
    (conductForm 12 Form.excursion ⟨.recording, .declarationOrder⟩ .excursion .empty
      .excursion).1 =
      (conductForm 12 Form.excursion ⟨.recording, .declaredDependencies⟩ .excursion .empty
        .excursion).1 := by
  have hform : Form.excursion.Indifferent ⟨.recording, .declarationOrder⟩
      ⟨.recording, .declaredDependencies⟩ :=
    Form.throughout_excursion fun path type q => Field.offersAlike_asking path type q _ _
  have hstart := Draft.plain_excursion.canStart Form.excursion
  have hresults : (Form.excursion.account 12 [] ⟨.recording, .declarationOrder⟩ .excursion .empty
      .excursion).SameResults
      (Form.excursion.account 12 [] ⟨.recording, .declaredDependencies⟩ .excursion .empty
        .excursion) :=
    Or.inl ⟨[], by cbv⟩
  exact ⟨hform, hstart, hresults, Form.account_eq_of_sameResults hform hstart hresults⟩

/-! ## Null in the place of a field

`Form.CanStart.not_null` is needed. A null reads as absent, so nothing answers the field, and it can
be offered and passed over like any other. Clearing the field all the same takes the null away, and
nothing puts it back, since the start reads as having nothing there either. So the draft tells
whether the policy cleared a field that was never answered. -/

/-- A form that asks for `b` only as long as `a` is `x`. -/
def Form.wavering : Form :=
  Form.empty
    |>.bind (.asking (.ofText "a") (.shaped .text) (.deck 0 0 false))
    |>.bind { Field.asking (.ofText "b") (.shaped .text) (.deck 1 0 false) with
        condition := fun d => d.text? (.ofText "a") == some "x" }

/-- The user goes back from `b`, to give another answer at `a`. -/
def Session.wavering : Session :=
  { Session.new (.rehearsal []) with
    decks := [
      Deck.new "a" (.shaped .text) [.value (.text "x"), .value (.text "y")],
      Deck.new "b" (.shaped .text) [.back]] }

/-- A start with null in the place of `b`. -/
def Draft.wavering : Draft :=
  ⟨[("b", .null)]⟩

theorem Draft.ordered_wavering : Draft.wavering.toJson.Ordered :=
  ⟨by simp [Draft.wavering, Members.Ascending],
    by simp [Draft.wavering, Json.OrderedMembers, Json.Ordered]⟩

theorem Form.indifferent_wavering (o o' : Options) : Form.wavering.Indifferent o o' := by
  refine .of_fields ⟨by decide, by decide⟩ fun f hf => Or.inl ?_
  rcases Form.mem_fields_bind hf with rfl | hf
  · exact ⟨Field.isLeaf_asking (.ofText "b") (.shaped .text) rfl,
      Field.offersAlike_asking (.ofText "b") (.shaped .text) _ o o'⟩
  · rcases Form.mem_fields_bind hf with rfl | hf
    · exact ⟨Field.isLeaf_asking _ _ rfl, Field.offersAlike_asking _ _ _ o o'⟩
    · exact absurd hf List.not_mem_nil

/-- **With null in the place of a field, the policies part.** Both runs of the wavering form are given
the same results. Going back to `a` clears `b` too in the order of declaration, though it has no
answer, and takes the null away that the other policy leaves. -/
theorem policies_part_of_wavering :
    Form.wavering.Indifferent ⟨.recording, .declarationOrder⟩
      ⟨.recording, .declaredDependencies⟩ ∧
    Draft.wavering.toJson.Ordered ∧
    (Form.wavering.account 8 [] ⟨.recording, .declarationOrder⟩ .wavering .empty
      .wavering).SameResults
      (Form.wavering.account 8 [] ⟨.recording, .declaredDependencies⟩ .wavering .empty
        .wavering) ∧
    (conductForm 8 .wavering ⟨.recording, .declarationOrder⟩ .wavering .empty .wavering).1 =
      .done (.completed ⟨[("a", .text "y")]⟩) ∧
    (conductForm 8 .wavering ⟨.recording, .declaredDependencies⟩ .wavering .empty .wavering).1 =
      .done (.completed ⟨[("a", .text "y"), ("b", .null)]⟩) ∧
    ¬(Form.wavering.account 8 [] ⟨.recording, .declarationOrder⟩ .wavering .empty .wavering =
        Form.wavering.account 8 [] ⟨.recording, .declaredDependencies⟩ .wavering .empty
          .wavering ∧
      (conductForm 8 .wavering ⟨.recording, .declarationOrder⟩ .wavering .empty .wavering).1 =
        (conductForm 8 .wavering ⟨.recording, .declaredDependencies⟩ .wavering .empty
          .wavering).1) := by
  have hcleared : (conductForm 8 .wavering ⟨.recording, .declarationOrder⟩ .wavering .empty
      .wavering).1 = .done (.completed ⟨[("a", .text "y")]⟩) := by
    cbv
  have hleft : (conductForm 8 .wavering ⟨.recording, .declaredDependencies⟩ .wavering .empty
      .wavering).1 = .done (.completed ⟨[("a", .text "y"), ("b", .null)]⟩) := by
    cbv
  refine ⟨Form.indifferent_wavering _ _, Draft.ordered_wavering, Or.inl ⟨[], by cbv⟩, hcleared,
    hleft, ?_⟩
  rintro ⟨-, houtcome⟩
  rw [hcleared, hleft] at houtcome
  simp at houtcome

end Interview
