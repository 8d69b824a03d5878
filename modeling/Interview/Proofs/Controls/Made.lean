import Interview.Proofs.Controls.Questions
import Interview.Proofs.Run.Order
/-
Which controls a run makes.

The only moment at which a control is made is when a screen is asked for the first time. What kind
of control it is and what stands around it is up to the screen, and the user has no part in it. So
the controls that a run has made are known from the screens of its fields, and a field that the
start fills contributes none, because it is never asked.

`Session.Made` says of a session that all its controls are of some description, and every operation
but the making of a control keeps it, whatever the description is.
-/

set_option autoImplicit false

namespace Interview

/-- A description of controls, which may also look at the number of a control. -/
abbrev Described := Nat → Control.Kind → Chrome → Prop

/-- **All controls that were made in the session** are of this description. -/
def Session.Made (K : Described) (w : Session) : Prop :=
  ∀ id kind chrome, Entry.made id kind chrome ∈ w.entries → K id kind chrome

variable {K : Described} {w : Session} {id : Nat}

/-! ## Sessions -/

namespace Session

/-- What adds no control to the transcript keeps the description. -/
theorem Made.of_entries {w' : Session} (h : w.Made K) (es : List Entry)
    (hentries : w'.entries = es ++ w.entries)
    (hes : ∀ id kind chrome, Entry.made id kind chrome ∉ es) : w'.Made K := by
  intro id kind chrome hmem
  rw [hentries] at hmem
  rcases List.mem_append.mp hmem with hmem | hmem
  · exact absurd hmem (hes id kind chrome)
  · exact h id kind chrome hmem

theorem Made.congr {w' : Session} (h : w.Made K) (hentries : w'.entries = w.entries) :
    w'.Made K :=
  h.of_entries [] hentries fun _ _ _ => List.not_mem_nil

theorem Made.emit (h : w.Made K) {es : List Entry} (hes : ∀ e ∈ es, e.isNeutral = true) :
    (w.emit es).Made K := by
  refine h.of_entries es.reverse rfl fun id kind chrome hmem => ?_
  exact absurd (hes _ (List.mem_reverse.mp hmem)) (by simp [Entry.isNeutral])

theorem Made.call (h : w.Made K) (id : Nat) (c : Control.Call) : (w.call id c).Made K :=
  h.of_entries [.called id c] rfl (by simp)

/-- **A control is made**, and it has to be of the description. -/
theorem Made.make (h : w.Made K) {kind : Control.Kind} {chrome : Chrome}
    (hK : ∀ id, K id kind chrome) : (w.make kind chrome).2.Made K := by
  have hentries : (w.make kind chrome).2.entries =
      .made w.devices.length kind chrome :: w.entries := by
    unfold Session.make
    simp only
    split
    · rfl
    · rfl
    · rfl
  intro id kind' chrome' hmem
  rw [hentries] at hmem
  rcases List.mem_cons.mp hmem with heq | hmem
  · rw [Entry.made.injEq] at heq
    obtain ⟨-, rfl, rfl⟩ := heq
    exact hK id
  · exact h id kind' chrome' hmem

theorem Made.hand (h : w.Made K) (id : Nat) (e : Control.Event) (log : List LogLine)
    (t : Terminal) : (w.hand id e log t).2.Made K := by
  refine h.of_entries (log.map Entry.logged ++ [Entry.handed id e]).reverse rfl ?_
  simp

theorem Made.close (h : w.Made K) (id : Nat) (t : Terminal) (asked : Terminal.Content)
    (o : Terminal.Outcome) : (w.close id t asked o).2.Made K := by
  have hline : Made K { w with midLine := Terminal.leavesMidLine asked o } := h.congr rfl
  exact hline.hand id _ _ _

theorem Made.listen (h : w.Made K) (id : Nat) (t : Terminal) (asked : Terminal.Content) :
    (w.listen id t asked).2.Made K := by
  unfold Session.listen
  split
  · rename_i colorful move rest _
    have hmoved : Made K { w with host := .terminal colorful rest } := h.congr rfl
    split
    · exact h.congr rfl
    · exact hmoved.close id t asked _
  · have hleft : Made K { w with unanswered := w.unanswered.or (some t) } := h.congr rfl
    exact hleft.close id t asked _

theorem Made.prompt (h : w.Made K) (id : Nat) (t : Terminal) : (w.prompt id t).2.Made K := by
  have hprint : (w.print t.printed).Made K := h.congr rfl
  unfold Session.prompt
  split
  · exact hprint.hand _ _ _ _
  · exact hprint.listen _ _ _

/-- Asking a control for an event makes no control. -/
theorem Made.next (h : w.Made K) (id : Nat) : (w.next id).2.Made K := by
  unfold Session.next
  split
  · rename_i e rest _
    exact h.of_entries [.handed id e] rfl (by simp)
  · split
    · exact h.hand _ _ _ _
    · exact h
    · exact h.prompt _ _
    · exact h.listen _ _ _
  · exact h.of_entries [.handed id .hide] rfl (by simp)

theorem Made.report (h : w.Made K) (o : Options) (r : Report) : (w.report o r).Made K :=
  h.emit fun _ => Entry.isNeutral_of_mem_report

theorem Made.perform (h : w.Made K) {acts : List Act} (hacts : Mild acts) (id : Nat) :
    (Screen.perform id acts w).Made K := by
  induction acts generalizing w with
  | nil => exact h
  | cons a acts ih =>
      obtain ⟨ha, hrest⟩ := mild_cons.mp hacts
      cases a with
      | call c => exact ih (h.call id c) hrest
      | entry e =>
          refine ih (h.emit fun e' he' => ?_) hrest
          exact List.mem_singleton.mp he' ▸ ha

/-- What happens beside the controls makes none. -/
theorem Made.aside {w' : Session} (h : w.Made K) (haside : w.Aside w') : w'.Made K := by
  obtain ⟨-, es, hes, hentries⟩ := haside
  refine h.of_entries _ hentries fun id kind chrome hmem => ?_
  exact absurd (hes _ hmem) (by simp [Entry.isNeutral])

end Session

/-! ## Screens -/

/-- Contents that are shown on the same kind of control. -/
def Content.Alike : Content → Content → Prop
  | .text t, .text t' => t.password = t'.password
  | .list l, .list l' => l.many = l'.many
  | _, _ => False

theorem Content.alike_refl : ∀ c : Content, c.Alike c
  | .text _ => rfl
  | .list _ => rfl

theorem Content.alike_copy {c : Content} : ∀ {c' : Content}, c.Alike c'.copy → c.Alike c'
  | .text _, h => by
      cases c with
      | text t => exact h
      | list l => exact h
  | .list _, h => by
      cases c with
      | text t => exact h
      | list l => exact h

theorem Content.alike_restore {c : Content} (a : Attempt Json) :
    ∀ {c' : Content}, c.Alike (c'.restore a) → c.Alike c'
  | .text _, h => by
      cases c with
      | text t => exact h
      | list l => exact h
  | .list l', h => by
      have hmany : (l'.restore a).many = l'.many := by
        unfold PickList.restore
        split
        · rfl
        · rfl
        · rfl
      cases c with
      | text t => exact h
      | list l => exact Eq.trans (b := (l'.restore a).many) h hmany

namespace Screen

/-- **A screen whose control is of a description**, whatever it starts from and wherever in the
interview it is asked. It does not have a control yet. -/
structure Makes (K : Described) (s : Screen) : Prop where
  quiet : s.content.Quiet
  control : s.control = none
  described : ∀ (c : Content) (steps : Option (Nat × Nat)) (id : Nat), c.Alike s.content →
    K id c.kind { s with steps }.chrome

variable {s : Screen} {n : Nat}

theorem Makes.copy (h : s.Makes K) : s.copy.Makes K :=
  ⟨h.quiet.copy, rfl, fun c steps id hc => h.described c steps id (Content.alike_copy hc)⟩

theorem Makes.restore (h : s.Makes K) (a : Attempt Json) : (s.restore a).Makes K :=
  ⟨h.quiet.restore a, h.control, fun c steps id hc =>
    h.described c steps id (Content.alike_restore a hc)⟩

theorem Makes.place (h : s.Makes K) (current total : Nat) (w : Session) :
    (s.place current total w).1.Makes K ∧ (s.place current total w).2 = w := by
  have hplace : s.place current total w = ({ s with steps := some (current, total) }, w) := by
    simp only [Screen.place, h.control]
    split
    · exact absurd ‹none = some _› (by simp)
    · rfl
  rw [hplace]
  exact ⟨⟨h.quiet, h.control, h.described⟩, rfl⟩

/-- What a turn leaves: a quiet content, and the same controls. -/
def Turn.Made (K : Described) : Turn → Prop
  | .stays s w => s.content.Quiet ∧ w.Made K
  | .ends _ _ w => w.Made K

theorem made_react (hs : s.content.Quiet) (hw : w.Made K) (id : Nat) (e : Control.Event) :
    (s.react id e w).Made K := by
  have hhandle : Mild (s.handle e).1 ∧ (s.handle e).2.1.content.Quiet := by
    have hhandled := s.handled_handle e
    generalize s.handle e = handled at hhandled ⊢
    cases hhandled with
    | hides | misses => exact ⟨mild_nil, hs⟩
    | clicks => exact ⟨mild_ofNotes _, hs⟩
    | passes => exact hs.handle e
  have hperform := hw.perform hhandle.1 id
  unfold Screen.react
  simp only
  split
  · exact ⟨hhandle.2, hperform⟩
  · exact hperform
  · exact hperform

theorem made_turn (hs : s.content.Quiet) (hw : w.Made K) (id : Nat) : (s.turn id w).Made K := by
  obtain ⟨hmild, hquiet⟩ := hs.look s.wording
  have hlooked := hw.perform hmild id
  have hnext := hlooked.next id
  unfold Screen.turn
  simp only
  split
  · exact hlooked
  · exact made_react hquiet hlooked id .accept
  · split
    · rename_i heq
      rw [heq] at hnext
      exact made_react hquiet hnext id _
    · rename_i heq
      rw [heq] at hnext
      exact ⟨hquiet, hnext⟩
    · rename_i heq
      rw [heq] at hnext
      split
      · exact hnext
      · exact ⟨hquiet, hnext⟩

theorem made_converse (hs : s.content.Quiet) (hw : w.Made K) (id : Nat) :
    (s.converse id n w).2.2.Made K := by
  induction n generalizing s w with
  | zero => exact hw
  | succ n ih =>
      have hturn := made_turn hs hw id
      rw [Screen.converse]
      split
      · rename_i heq
        rw [heq] at hturn
        exact ih hturn.1 hturn.2
      · rename_i heq
        rw [heq] at hturn
        exact hturn

theorem made_dispose (s : Screen) (hw : w.Made K) : (s.dispose w).2.Made K := by
  unfold Screen.dispose
  split
  · exact hw
  · split
    · exact hw.call _ _
    · exact hw

/-- **Asking a screen** makes its control, and no other. -/
theorem Makes.ask (h : s.Makes K) (hw : w.Made K) : (s.ask n w).2.2.Made K := by
  unfold Screen.ask
  split
  · exact hw
  · obtain ⟨hmild, hquiet⟩ := h.quiet.start s.wording s.chrome
    have hmade : (w.make s.content.kind s.chrome).2.Made K :=
      hw.make fun id => h.described s.content s.steps id (Content.alike_refl _)
    unfold Screen.appear
    simp only [h.control]
    exact made_converse hquiet (hmade.perform (mild_cons.mpr ⟨rfl, hmild⟩) _) _

end Screen

/-! ## Fields -/

/-- A question on a screen whose control is of a description. -/
def Question.Makes (K : Described) : Question → Prop
  | .screen s => s.Makes K
  | _ => False

/-- Every question that the field offers is on a screen whose control is of the description. -/
def Field.Makes (K : Described) (f : Field) : Prop :=
  ∀ c make, f.offer c = .ask make → ∀ w, (make w).1.Makes K ∧ w.Aside (make w).2

/-- A field that asks the same question every time. -/
theorem Field.makes_asking (path : Path) (type : AnswerType) {s : Screen} (h : s.Makes K) :
    (Field.asking path type (.screen s)).Makes K := by
  intro c make hoffer w
  rw [Field.asking, Offer.ask.injEq] at hoffer
  rw [← hoffer]
  exact ⟨h.copy, w.aside_refl⟩

namespace Question

variable {q : Question} {n : Nat}

theorem Makes.restore (a : Attempt Json) : ∀ {q : Question}, q.Makes K →
    (q.restore a w).1.Makes K ∧ (q.restore a w).2 = w
  | .screen _, h => ⟨Screen.Makes.restore h a, rfl⟩

theorem Makes.place (current total : Nat) : ∀ {q : Question}, q.Makes K →
    (q.place current total w).1.Makes K ∧ (q.place current total w).2 = w
  | .screen _, h => Screen.Makes.place h current total w

/-- A question is prepared, asked and disposed, which makes no other control than its own. -/
theorem Makes.asked (hq : q.Makes K) (hw : w.Made K) :
    ((q.ask n w).2.1.dispose (q.ask n w).2.2).2.Made K := by
  cases q with
  | screen s =>
      rcases n with _ | n
      · exact s.made_dispose hw
      · exact (s.ask n w).2.1.made_dispose (Screen.Makes.ask hq hw)
  | _ => exact absurd hq id

theorem Makes.prepare (h : q.Makes K) (f : Field) (attempt : Option (Attempt Json))
    (current total : Nat) (w : Session) :
    (prepareQuestion f attempt current total q w).1.Makes K ∧
      (prepareQuestion f attempt current total q w).2 = w := by
  unfold prepareQuestion
  rcases attempt.bind f.type.attempt? with _ | a
  · exact h.place current total
  · have hrestore : (q.restore a w).1.Makes K ∧ (q.restore a w).2 = w := h.restore a
    simp only [hrestore.2]
    exact hrestore.1.place current total

end Question

/-! ## Runs -/

namespace Run

variable {form : Form} {initial : Draft} {o : Options} {r : Run} {k n : Nat}

/-- A visit makes the control of its field. -/
theorem made_of_visit? {v : Visit} (hvisit : r.visit? n form o w = some v)
    (hfield : v.field.Makes K) (hw : w.Made K) : v.session.Made K := by
  unfold visit? at hvisit
  split at hvisit
  · rename_i entries run place field attempt make hseek
    rw [Option.some.injEq] at hvisit
    subst hvisit
    have hsought : (w.emit entries).Made K := hw.emit fun e he => by
      have hneutral := @isNeutral_of_mem_seekFrom o form.fields r 0 e
      rw [seek] at hseek
      rw [hseek] at hneutral
      exact hneutral he
    obtain ⟨hmakes, haside⟩ := hfield _ make (offer_of_seek_eq hseek).2 (w.emit entries)
    obtain ⟨hprepared, hsame⟩ := hmakes.prepare field attempt run.current (run.total form place)
      (make (w.emit entries)).2
    have hpresented : (run.present o form place field attempt make (w.emit entries)).2.Made K := by
      have hmade := hsought.aside haside
      rw [← hsame] at hmade
      exact hmade.report o _
    exact hprepared.asked hpresented
  · exact absurd hvisit (by simp)

/-- **A run makes no other controls than those of the fields that the start leaves open.** The
induction is on the bound. A step is shown where the run has its frontier, and the field there is
not filled from the start. -/
theorem InOrder.made_of_conduct (hform : form.Separate)
    (hfields : ∀ f ∈ form.fields, f.isFilled initial = false → f.Makes K)
    (hr : r.InOrder form initial k) (hw : w.Made K) : (conduct n form o r w).2.Made K := by
  induction n generalizing r k w with
  | zero => exact hw
  | succ n ih =>
      have hneutral : ∀ e ∈ (r.seek o form).1, e.isNeutral = true := fun _ he =>
        isNeutral_of_mem_seekFrom he
      rcases hvisit : r.visit? n form o w with _ | v
      · rcases conduct_of_visit?_eq_none hvisit with
          ⟨entries, last, e, hseek, heq⟩ | ⟨entries, last, hseek, heq⟩
        · rw [hseek] at hneutral
          rw [heq]
          exact hw.emit hneutral
        · rw [hseek] at hneutral
          rw [heq]
          unfold conclude
          split
          · exact hw.emit hneutral
          · exact (hw.emit hneutral).report o _
      · obtain ⟨hf, horder, hopen⟩ := hr.shows (shows_of_visit?_eq_some hvisit)
        have hunfilled := horder.isFilled_initial hf (horder.not_mem_of_isOpen hf hopen).1
        have hsession := made_of_visit? hvisit
          (hfields v.field (List.mem_of_getElem? hf) hunfilled) hw
        have hsettled : (v.settled o form).2.Made K := hsession.aside (aside_settle ..)
        rw [conduct_of_visit?_eq_some hvisit]
        rcases hcourse : v.settled o form with ⟨e | r', w'⟩
        · rw [hcourse] at hsettled
          exact hsettled
        · rw [hcourse] at hsettled
          obtain ⟨k', hr'⟩ := horder.of_goesOn hform hf hopen hcourse
          exact ih hr' hsettled

end Run

/-- The same for a form that is run from the start. -/
theorem Form.made_of_conductForm {form : Form} {o : Options} {initial recent : Draft} {n : Nat}
    (hform : form.Separate)
    (hfields : ∀ f ∈ form.fields, f.isFilled initial = false → f.Makes K) (hw : w.Made K) :
    (conductForm n form o initial recent w).2.Made K := by
  rcases n with _ | n
  · exact hw
  · rw [conductForm]
    rcases hstart : Run.start form initial recent with e | first
    · exact hw
    · exact (Run.InOrder.start hstart).made_of_conduct hform hfields hw

end Interview
