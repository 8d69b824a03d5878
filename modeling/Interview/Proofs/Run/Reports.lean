import Mathlib
import Interview.Proofs.Run.Checked
import Interview.Proofs.Run.Sentences
import Interview.Proofs.Run.Silence
/-
What the observer of a run is told.

What is told in the course of a run is a sentence, or the beginning of one while the run is waiting.
That is shown turn by turn: a search for the next step opens a block, and settling what its question
came to either ends the sentence or leaves the run where the next block begins. What is between the
two is told by the question, and nothing is unless there is a form in it. So the induction is on the
bound, over the turns of a run and over the runs inside it.

The questions of a field may be anything that is no form, or a form that is run with the same
options, with its answers transformed or its uses noted if need be.
-/

set_option autoImplicit false

namespace Interview

variable {o : Options}

/-! ## Searching -/

namespace Run

variable {form : Form} {initial : Draft} {r r' : Run} {i : Nat} {f : Field}

/-- A run of the form from this start, as far as the answers that are held go. -/
structure Fits (r : Run) (form : Form) (initial : Draft) : Prop where
  assumed_eq : r.assumed = filledPlaces form initial
  history_lt : ∀ j ∈ r.history, j < form.fields.length

theorem Fits.start {recent : Draft} (h : Run.start form initial recent = .ok r) :
    r.Fits form initial ∧ r.history = [] := by
  rw [start_eq_ok h]
  exact ⟨⟨rfl, fun _ hj => absurd hj List.not_mem_nil⟩, rfl⟩

/-- A start fails at a required path for which there is no question. -/
theorem exists_of_start_eq_error {recent : Draft} {e : RunError}
    (h : Run.start form initial recent = .error e) : ∃ p ∈ form.required, e = .unbound p := by
  unfold Run.start at h
  split at h
  · rename_i p hp
    exact ⟨p, List.mem_of_find?_eq_some hp, (Except.error.inj h).symm⟩
  · exact absurd h (by simp)

/-- The search after a refusal comes to the same field and tells nothing. -/
def Returns (r : Run) (o : Options) (form : Form) (i : Nat) : Prop :=
  ∃ (notes : List Note) (r' : Run) (f : Field), form.fields[i]? = some f ∧ i ∉ r.history ∧
    ((∃ cause, r.seek o form = (notes.map Entry.noted, r', .failed (.factory f.path cause))) ∨
      ∃ attempt make, r.seek o form = (notes.map Entry.noted, r', .step i f attempt make))

/-- A search tells of the fields that it leaves out. -/
theorem reportsOf_seekFrom (ho : o.observer = .recording) {fields : List Field}
    (hfields : ∀ f ∈ fields, f ∈ form.fields) :
    ∃ skips, form.Skips skips ∧ reportsOf (r.seekFrom o i fields).1 = skips.map .skipped := by
  induction fields generalizing r i with
  | nil => exact ⟨[], fun _ hp => absurd hp List.not_mem_nil, rfl⟩
  | cons f rest ih =>
      have hrest : ∀ g ∈ rest, g ∈ form.fields := fun g hg => hfields g (List.mem_cons_of_mem _ hg)
      -- one more field is left out before the others
      have hskip : ∀ skips, form.Skips skips → form.Skips (f.path :: skips) := by
        intro skips hskips p hp
        rcases List.mem_cons.mp hp with rfl | hp
        · exact ⟨f, hfields f List.mem_cons_self, rfl⟩
        · exact hskips p hp
      rw [seekFrom]
      split
      · exact ih hrest
      · split
        · obtain ⟨skips, hskips, heq⟩ := ih (r := r.skip i) (i := i + 1) hrest
          refine ⟨f.path :: skips, hskip skips hskips, ?_⟩
          simp only [reportsOf_append, Observer.reportsOf_entries ho, heq]
          rfl
        · rcases hoffer : f.offer ⟨f.path, r.draft, r.attemptAt i f, o⟩ with _ | cause | make
          · simp only [hoffer]
            obtain ⟨skips, hskips, heq⟩ :=
              ih (r := (r.withoutRetry i).skip i) (i := i + 1) hrest
            refine ⟨f.path :: skips, hskip skips hskips, ?_⟩
            simp only [reportsOf_append, reportsOf_notes, Observer.reportsOf_entries ho, heq]
            rfl
          · simp only [hoffer]
            exact ⟨[], fun _ hp => absurd hp List.not_mem_nil, reportsOf_notes _⟩
          · simp only [hoffer]
            exact ⟨[], fun _ hp => absurd hp List.not_mem_nil, reportsOf_notes _⟩

/-- A search fails at an open field whose question cannot be made. -/
theorem exists_of_seekFrom_eq_failed {fields : List Field} {entries : List Entry} {e : RunError}
    (hfields : fields = form.fields.drop i)
    (h : r.seekFrom o i fields = (entries, r', .failed e)) :
    ∃ j f cause, form.fields[j]? = some f ∧ j ∉ r.history ∧ e = .factory f.path cause := by
  induction fields generalizing r i entries with
  | nil => exact absurd h (by simp [seekFrom])
  | cons f rest ih =>
      obtain ⟨hf, hrest⟩ := drop_eq_cons hfields
      rw [seekFrom] at h
      split at h
      · exact ih hrest h
      · rename_i hclosed
        split at h
        · rcases hseek : (r.skip i).seekFrom o (i + 1) rest with ⟨entries', r₂, found⟩
          rw [hseek] at h
          simp only [Prod.mk.injEq] at h
          obtain ⟨-, rfl, rfl⟩ := h
          exact ih (r := r.skip i) hrest hseek
        · rcases hoffer : f.offer ⟨f.path, r.draft, r.attemptAt i f, o⟩ with _ | cause | make
          · simp only [hoffer] at h
            rcases hseek : ((r.withoutRetry i).skip i).seekFrom o (i + 1) rest with
              ⟨entries', r₂, found⟩
            rw [hseek] at h
            simp only [Prod.mk.injEq] at h
            obtain ⟨-, rfl, rfl⟩ := h
            obtain ⟨x, hx⟩ := exists_withoutRetry_eq r i
            have hhistory : ((r.withoutRetry i).skip i).history = r.history := by
              rw [hx]
              rfl
            exact hhistory ▸ ih hrest hseek
          · simp only [hoffer, Prod.mk.injEq, Found.failed.injEq] at h
            have hopen : r.isClosed i f = false := by simpa using hclosed
            exact ⟨i, f, cause, hf, (isClosed_eq_false_iff.mp hopen).2.1, h.2.2.symm⟩
          · simp [hoffer] at h

variable {again : Option Nat} {entries : List Entry}

/-- What is told in a search after a refusal is nothing. -/
theorem skips_eq_nil {skips : List Path} {notes : List Note}
    (hskips : reportsOf entries = skips.map .skipped) (hentries : entries = notes.map .noted) :
    skips = [] := by
  rw [hentries, reportsOf_notes] at hskips
  exact List.map_eq_nil_iff.mp hskips.symm

/-- **Where a search comes to a step, it opens a block.** -/
theorem opens_of_seek (ho : o.observer = .recording)
    (hagain : ∀ j, again = some j → r.Returns o form j) {attempt : Option (Attempt Json)}
    {make : Session → Question × Session}
    (h : r.seek o form = (entries, r', .step i f attempt make)) :
    ∃ skips, reportsOf entries = skips.map .skipped ∧ form.Opens r.history again skips i f := by
  obtain ⟨skips, hskips, heq⟩ :=
    reportsOf_seekFrom (r := r) (i := 0) ho fun (f : Field) (hf : f ∈ form.fields) => hf
  rw [show r.seekFrom o 0 form.fields = r.seek o form from rfl, h] at heq
  obtain ⟨hf, ⟨hhistory, -, -⟩, hopen, -⟩ := kept_of_seek h
  refine ⟨skips, heq, hf, ?_, hskips, ?_⟩
  · rw [← hhistory]
    exact (isClosed_eq_false_iff.mp hopen).2.1
  · intro j hj
    obtain ⟨notes, r₂, g, hg, hnew, ⟨cause, hseek⟩ | ⟨attempt', make', hseek⟩⟩ := hagain j hj
    · exact absurd (h.symm.trans hseek) (by simp)
    · have hsame := h.symm.trans hseek
      simp only [Prod.mk.injEq, Found.step.injEq] at hsame
      exact ⟨skips_eq_nil heq hsame.1, hsame.2.2.1⟩

/-- A search that fails does so at the beginning of a block. -/
theorem opens_of_seek_eq_failed (ho : o.observer = .recording)
    (hagain : ∀ j, again = some j → r.Returns o form j) {e : RunError}
    (h : r.seek o form = (entries, r', .failed e)) :
    ∃ skips j f cause, reportsOf entries = skips.map .skipped ∧
      form.Opens r.history again skips j f ∧ e = .factory f.path cause := by
  obtain ⟨skips, hskips, heq⟩ :=
    reportsOf_seekFrom (r := r) (i := 0) ho fun (f : Field) (hf : f ∈ form.fields) => hf
  rw [show r.seekFrom o 0 form.fields = r.seek o form from rfl, h] at heq
  rcases again with _ | j
  · obtain ⟨j, f, cause, hf, hnew, rfl⟩ := exists_of_seekFrom_eq_failed rfl h
    exact ⟨skips, j, f, cause, heq, ⟨hf, hnew, hskips, fun _ hj => absurd hj (by simp)⟩, rfl⟩
  · -- after a refusal it is the same field that fails
    obtain ⟨notes, r₂, g, hg, hnew, ⟨cause, hseek⟩ | ⟨attempt', make', hseek⟩⟩ := hagain j rfl
    · have hsame := h.symm.trans hseek
      simp only [Prod.mk.injEq, Found.failed.injEq] at hsame
      obtain rfl := skips_eq_nil heq hsame.1
      refine ⟨[], j, g, cause, heq, ⟨hg, hnew, hskips, ?_⟩, hsame.2.2⟩
      exact fun _ hj => ⟨rfl, Option.some.inj hj⟩
    · exact absurd (h.symm.trans hseek) (by simp)

/-- A search that finds nothing does not come after a refusal. -/
theorem skips_of_seek_eq_nothing (ho : o.observer = .recording)
    (hagain : ∀ j, again = some j → r.Returns o form j)
    (h : r.seek o form = (entries, r', .nothing)) :
    again = none ∧ ∃ skips, form.Skips skips ∧ reportsOf entries = skips.map .skipped := by
  obtain ⟨skips, hskips, heq⟩ :=
    reportsOf_seekFrom (r := r) (i := 0) ho fun (f : Field) (hf : f ∈ form.fields) => hf
  rw [show r.seekFrom o 0 form.fields = r.seek o form from rfl, h] at heq
  refine ⟨?_, skips, hskips, heq⟩
  rcases again with _ | j
  · rfl
  · obtain ⟨_, _, _, _, _, ⟨_, hseek⟩ | ⟨_, _, hseek⟩⟩ := hagain j rfl
    · exact absurd (h.symm.trans hseek) (by simp)
    · exact absurd (h.symm.trans hseek) (by simp)

/-! ## Settling -/

/-- Clearing clears the fields that the grammar says. -/
theorem Sweeps.cleared_eq {policy : Policy} {c c' : Clearing} (h : r.Sweeps policy form i c c') :
    c'.cleared = form.clearedFrom policy r.assumed i (form.fields.drop i) c.cleared := by
  induction h with
  | done c last => rw [List.drop_eq_nil_of_le last, Form.clearedFrom]
  | @spare i f c c' field stays later ih =>
      obtain ⟨hi, rfl⟩ := List.getElem?_eq_some_iff.mp field
      rw [ih, List.drop_eq_getElem_cons hi, Form.clearedFrom]
      split
      · rfl
      · rename_i hassumed
        rw [stays.resolve_left (by simpa using hassumed), if_neg Bool.false_ne_true]
  | @clear i f c c' d field new stale reset later ih =>
      obtain ⟨hi, rfl⟩ := List.getElem?_eq_some_iff.mp field
      rw [ih, List.drop_eq_getElem_cons hi, Form.clearedFrom, if_neg (by simpa using new),
        if_pos stale]

/-- Going back leaves the answers held that the grammar says. -/
theorem Fits.goBack (h : r.Fits form initial) {policy : Policy} {e : Nat} {path : Path}
    (hback : r.goBack policy form e path = .ok r') :
    r'.Fits form initial ∧ r'.history = form.heldAfter policy initial e r.history := by
  obtain ⟨c, hrewind, rfl⟩ := exists_rewind_of_goBack hback
  obtain ⟨d, -, hsweeps⟩ := rewind_eq_ok_iff.mp hrewind
  have hcleared := hsweeps.cleared_eq
  rw [h.assumed_eq] at hcleared
  refine ⟨⟨h.assumed_eq, fun j hj => h.history_lt j (List.mem_filter.mp hj).1⟩, ?_⟩
  rw [Form.heldAfter, Form.cleared, ← hcleared]

/-- After a refusal the search comes back, as whether there is something to ask depends on the draft
alone. -/
theorem returns_reject (hskips : f.SkipsByDraft o) {attempt : Option (Attempt Json)}
    {make : Session → Question × Session}
    (h : r.seek o form = (entries, r', .step i f attempt make)) (j : Json) (message : String) :
    (r'.reject i j message).Returns o form i := by
  obtain ⟨hf, -, hopen, hasks, -⟩ := kept_of_seek h
  obtain ⟨-, hretry, -⟩ := attempt_of_seekFrom h
  obtain ⟨notes, hseek⟩ := seek_reject_of_closed hf (isClosed_of_seek h) hopen
    (fun a => (hskips _ a attempt).trans hasks) hretry j message
  have hnew : i ∉ (r'.reject i j message).history := (isClosed_eq_false_iff.mp hopen).2.1
  rcases hseek with ⟨last, cause, hseek⟩ | ⟨make', hseek⟩
  · exact ⟨notes, last, f, hf, hnew, Or.inl ⟨cause, hseek⟩⟩
  · exact ⟨notes, r', f, hf, hnew, Or.inr ⟨_, make', hseek⟩⟩

/-- Going back lands on an answered field. -/
theorem Fits.exists_landing (h : r.Fits form initial) {e : Nat} (hlands : r.landing? i = some e) :
    ∃ g, form.fields[e]? = some g ∧ ((form.fields[e]?).map Field.path).getD .root = g.path := by
  have hmem : e ∈ r.history := List.mem_reverse.mp (List.mem_of_find?_eq_some hlands)
  have hg := List.getElem?_eq_getElem (h.history_lt e hmem)
  exact ⟨_, hg, target_eq hg⟩

end Run

/-! ## Blocks -/

namespace Form.Opens

variable {form : Form} {initial : Draft} {r : Run} {i : Nat} {f : Field} {again : Option Nat}
variable {skips : List Path} {inside told : List Report} {out : Outcome (Reply Json)}

/-- A block whose step still waits can be completed, since its question can be told of in full. -/
theorem told_of_waiting (opens : form.Opens r.history again skips i f) (hr : r.Fits form initial)
    (total : Nat)
    (h : ∃ more, (∃ a, Field.Tells o.policy True f (inside ++ more) (.done a)) ∨
      ∃ e, Field.Tells o.policy True f (inside ++ more) (.failed e)) :
    ∃ more, (∃ a, GoesOn o.policy True form initial r.history again
        (opening skips r.history f total ++ inside ++ more) (.done a)) ∨
      ∃ e, GoesOn o.policy True form initial r.history again
        (opening skips r.history f total ++ inside ++ more) (.failed e) := by
  obtain ⟨more, h⟩ := h
  have hregroup : ∀ rest, opening skips r.history f total ++ inside ++ (more ++ rest) =
      opening skips r.history f total ++ (inside ++ more) ++ rest := by
    intro rest
    simp only [List.append_assoc]
  rcases h with ⟨v | _ | _, h⟩ | ⟨e, h⟩
  · refine ⟨more ++ [], Or.inr ⟨.collaborator (.because ""), ?_⟩⟩
    rw [hregroup, List.append_nil]
    exact .unstored opens h (Or.inr ⟨_, rfl⟩)
  · rcases hlands : lastBefore r.history i with _ | e
    · refine ⟨more ++ [.back f.path none], Or.inl ⟨.back, ?_⟩⟩
      rw [hregroup]
      exact .left opens h hlands
    · obtain ⟨g, hg, -⟩ := hr.exists_landing hlands
      let count := (form.heldAfter o.policy initial e r.history).length
      refine ⟨more ++ [.back f.path (some g.path), .completed count],
        Or.inl ⟨.completed .empty, ?_⟩⟩
      rw [hregroup]
      exact .back opens h hlands hg (.at_once _ _ _ _ _)
  · refine ⟨more ++ [.cancelled f.path], Or.inl ⟨.cancelled, ?_⟩⟩
    rw [hregroup]
    exact .cancelled opens h
  · refine ⟨more ++ [], Or.inr ⟨e, ?_⟩⟩
    rw [hregroup, List.append_nil]
    exact .failed opens h

/-- **A block that ends the sentence.** -/
theorem told_of_ends (opens : form.Opens r.history again skips i f) (hr : r.Fits form initial)
    (total : Nat) (hinside : out.Told (Field.Tells o.policy True f) inside)
    {ended : Outcome Ending} (h : Run.Settles o form r i f out told (.ends ended)) :
    ended.Told (GoesOn o.policy True form initial r.history again)
      (opening skips r.history f total ++ inside ++ told) := by
  cases h with
  | unstored cause =>
      rw [List.append_nil]
      exact .unstored opens hinside cause
  | waits _ =>
      rw [List.append_nil]
      exact opens.told_of_waiting hr total ⟨[], Or.inl ⟨_, by rwa [List.append_nil]⟩⟩
  | stuck lands =>
      obtain ⟨g, hg, htarget⟩ := hr.exists_landing lands
      rw [htarget]
      exact .stuck trivial opens hinside lands hg
  | left lands => exact .left opens hinside lands
  | cancelled => exact .cancelled opens hinside
  | failed e =>
      rw [List.append_nil]
      exact .failed opens hinside
  | suspended =>
      rw [List.append_nil]
      exact opens.told_of_waiting hr total hinside
  | exhausted =>
      rw [List.append_nil]
      exact opens.told_of_waiting hr total hinside

/-- **A block after which the sentence goes on.** What is told from there on completes it. -/
theorem told_of_goesOn (opens : form.Opens r.history again skips i f) (hr : r.Fits form initial)
    (total : Nat) (hinside : out.Told (Field.Tells o.policy True f) inside) {r' : Run}
    (h : Run.Settles o form r i f out told (.goesOn r'))
    (hreturns : ∀ j message, (r.reject i j message).Returns o form i) :
    r'.Fits form initial ∧ ∃ again', (∀ j, again' = some j → r'.Returns o form j) ∧
      ∀ rest ended, GoesOn o.policy True form initial r'.history again' rest ended →
        GoesOn o.policy True form initial r.history again
          (opening skips r.history f total ++ inside ++ told ++ rest) ended := by
  have hnone : ∀ {r' : Run} j, (none : Option Nat) = some j → r'.Returns o form j :=
    fun _ hj => absurd hj (by simp)
  cases h with
  | answered accepted =>
      obtain ⟨draft, recent, -, -, rfl⟩ := Run.accept_eq_ok accepted
      refine ⟨⟨hr.assumed_eq, fun j hj => ?_⟩, none, hnone, fun rest ended hrest => ?_⟩
      · rcases List.mem_append.mp hj with hj | hj
        · exact hr.history_lt j hj
        · obtain ⟨hi, -⟩ := List.getElem?_eq_some_iff.mp opens.field
          exact List.mem_singleton.mp hj ▸ hi
      · rw [List.append_assoc]
        exact .answered opens hinside hrest
  | rejected check =>
      refine ⟨⟨hr.assumed_eq, hr.history_lt⟩, some i, ?_, fun rest ended hrest => ?_⟩
      · intro j hj
        exact Option.some.inj hj ▸ hreturns _ _
      · rw [List.append_assoc]
        exact .rejected opens hinside check hrest
  | back lands hback =>
      obtain ⟨hfits, hhistory⟩ := hr.goBack hback
      obtain ⟨g, hg, htarget⟩ := hr.exists_landing lands
      refine ⟨hfits, none, hnone, fun rest ended hrest => ?_⟩
      rw [hhistory] at hrest
      rw [List.append_assoc, htarget]
      exact .back opens hinside lands hg hrest

end Form.Opens

/-! ## Discreet forms -/

mutual

/-- **A question that tells the observer of the run nothing but what a form does**, which is run
with the same options. -/
inductive Question.Discreet (o : Options) : Question → Prop
  | mute {q : Question} (mute : q.Mute) : Question.Discreet o q
  | nested {form : Form} {initial recent : Draft} (discreet : Form.Discreet o form) :
    Question.Discreet o (.nested form initial recent o)
  | mapped {f : Json → Json} {inverse : Option (Json → Json)} {inner : Question}
    (discreet : Question.Discreet o inner) : Question.Discreet o (.mapped f inverse inner)
  | watched {label : String} {type : AnswerType} {inner : Question}
    (discreet : Question.Discreet o inner) : Question.Discreet o (.watched label type inner)

/-- A field that is left out by the draft alone and asks such a question. -/
inductive Field.Discreet (o : Options) : Field → Prop
  | intro {f : Field} (skips : f.SkipsByDraft o)
    (discreet : ∀ c make w, c.options = o → f.offer c = .ask make →
      Question.Discreet o (make w).1)
    (hushed : ∀ c make w, c.options = o → f.offer c = .ask make → Session.Hushed w (make w).2) :
    Field.Discreet o f

/-- A form all of whose fields are such. -/
inductive Form.Discreet (o : Options) : Form → Prop
  | intro {form : Form} (fields : ∀ f ∈ form.fields, Field.Discreet o f) : Form.Discreet o form

end

namespace Question

theorem form?_restore : ∀ (a : Attempt Json) (q : Question) (w : Session),
    (q.restore a w).1.form? = q.form?
  | _, .screen _, _ => rfl
  | _, .deck .., _ => rfl
  | _, .mapped _ none _, _ => rfl
  | a, .mapped _ (some g) inner, w => inner.form?_restore (a.map g) w
  | _, .twoTier .., _ => rfl
  | a, .nested form initial recent options, w => by
      obtain ⟨d, hd⟩ := restore_nested form initial recent options a w
      rw [hd]
      rfl
  | a, .watched _ _ inner, _ => inner.form?_restore a _
  | _, .failing _, _ => rfl
  | _, .unanswered, _ => rfl

theorem form?_place (current total : Nat) : ∀ (q : Question) (w : Session),
    (q.place current total w).1.form? = q.form?
  | .screen _, _ => rfl
  | .deck .., _ => rfl
  | .mapped _ _ inner, w => inner.form?_place current total w
  | .twoTier .., _ => rfl
  | .nested .., _ => rfl
  | .watched _ _ inner, _ => inner.form?_place current total _
  | .failing _, _ => rfl
  | .unanswered, _ => rfl

/-- A mute question asks no form. -/
theorem Mute.form?_eq_none {q : Question} (h : q.Mute) : q.form? = none := by
  induction h with
  | mapped _ ih => exact ih
  | watched _ ih => exact ih
  | _ => rfl

namespace Discreet

theorem restore : ∀ {q : Question}, q.Discreet o → ∀ (a : Attempt Json) (w : Session),
    (q.restore a w).1.Discreet o
  | _, .mute h, a, w => .mute (h.restore a w)
  | .nested form initial recent _, .nested discreet, a, w => by
      obtain ⟨d, hd⟩ := restore_nested form initial recent o a w
      rw [hd]
      exact .nested discreet
  | .mapped _ none _, .mapped discreet, _, _ => .mapped discreet
  | .mapped _ (some g) _, .mapped discreet, a, w => .mapped (discreet.restore (a.map g) w)
  | _, .watched discreet, a, _ => .watched (discreet.restore a _)

theorem place (current total : Nat) : ∀ {q : Question}, q.Discreet o → ∀ w : Session,
    (q.place current total w).1.Discreet o
  | _, .mute h, w => .mute (h.place current total w)
  | _, .nested discreet, _ => .nested discreet
  | _, .mapped discreet, w => .mapped (discreet.place current total w)
  | _, .watched discreet, _ => .watched (discreet.place current total _)

end Discreet

end Question

/-- A discreet question stays so when it is prepared, nothing is told by that, and it asks the same
form. -/
theorem Question.Discreet.prepareQuestion {q : Question} (h : q.Discreet o) (f : Field)
    (attempt : Option (Attempt Json)) (current total : Nat) (w : Session) :
    (prepareQuestion f attempt current total q w).1.Discreet o ∧
      w.Hushed (prepareQuestion f attempt current total q w).2 ∧
      (prepareQuestion f attempt current total q w).1.form? = q.form? := by
  unfold Interview.prepareQuestion
  rcases attempt.bind f.type.attempt? with _ | a
  · exact ⟨h.place _ _ w, q.hushed_place _ _ w, q.form?_place _ _ w⟩
  · refine ⟨(h.restore a w).place _ _ _, ?_, ?_⟩
    · exact (q.hushed_restore a w).trans (Question.hushed_place _ _ _ _)
    · exact (Question.form?_place _ _ _ _).trans (q.form?_restore a w)

theorem Field.Discreet.skipsByDraft {f : Field} (h : f.Discreet o) : f.SkipsByDraft o := by
  obtain ⟨hskips, -, -⟩ := h
  exact hskips

theorem Form.Discreet.field {form : Form} (h : form.Discreet o) {f : Field}
    (hf : f ∈ form.fields) : f.Discreet o := by
  obtain ⟨hfields⟩ := h
  exact hfields f hf

/-- A field that asks a mute question every time, whether it applies or not. -/
theorem Field.discreet_of_offer {f : Field} {q : Question} (h : q.Mute)
    (hoffer : ∀ c, f.offer c = .ask q.copy) : f.Discreet o := by
  refine .intro (fun d a b => ?_) ?_ ?_
  · simp only [Field.declines, hoffer]
  · intro c make w _ hmake
    rw [hoffer, Offer.ask.injEq] at hmake
    subst hmake
    exact .mute (h.copy w)
  · intro c make w _ hmake
    rw [hoffer, Offer.ask.injEq] at hmake
    subst hmake
    exact q.hushed_copy w

/-- The field of a discreet form. -/
theorem Form.Discreet.asField {inner : Form} (h : inner.Discreet o) (path : Path) :
    (Form.asField path inner).Discreet o := by
  refine .intro (fun d a b => ?_) ?_ ?_
  · rw [Form.declines_asField, Form.declines_asField]
  · intro c make w hoptions hmake
    obtain ⟨s, -, rfl⟩ := Form.offer_asField_eq_ask hmake
    subst hoptions
    exact .nested h
  · intro c make w _ hmake
    obtain ⟨s, -, rfl⟩ := Form.offer_asField_eq_ask hmake
    exact w.hushed_refl

theorem Form.discreet_empty : Form.empty.Discreet o :=
  .intro fun _ hf => absurd hf List.not_mem_nil

theorem Form.Discreet.bind {form : Form} {f : Field} (h : form.Discreet o) (hf : f.Discreet o) :
    (form.bind f).Discreet o := by
  refine .intro fun g hg => ?_
  rcases Form.mem_fields_bind hg with rfl | hg
  · exact hf
  · exact h.field hg

/-! ## Asking and conducting -/

/-- What is said of runs in the induction: what is told completes what was told before. -/
def Run.Speaks (o : Options) (n : Nat) : Prop :=
  ∀ {form : Form} {initial : Draft} {r : Run} {again : Option Nat} {w : Session},
    form.Discreet o → r.Fits form initial → (∀ j, again = some j → r.Returns o form j) →
      ∃ told, (conduct n form o r w).2.reports = w.reports ++ told ∧
        (conduct n form o r w).1.Told (Form.GoesOn o.policy True form initial r.history again) told

/-- What is told of a form that is run from the start. -/
theorem Form.told_of_speaks {n : Nat} (ih : ∀ m < n, Run.Speaks o m) {form : Form}
    (hform : form.Discreet o) (initial recent : Draft) (w : Session) :
    ∃ told, (conductForm n form o initial recent w).2.reports = w.reports ++ told ∧
      (conductForm n form o initial recent w).1.Told (Form.Tells o.policy True form initial)
        told := by
  rcases n with _ | n
  · refine ⟨[], (List.append_nil _).symm, [.completed 0], Or.inl ⟨.completed .empty, ?_⟩⟩
    exact .run (.at_once _ _ _ _ [])
  · rw [conductForm]
    rcases hstart : Run.start form initial recent with e | first
    · obtain ⟨p, hp, rfl⟩ := Run.exists_of_start_eq_error hstart
      exact ⟨[], (List.append_nil _).symm, .unbound hp⟩
    · obtain ⟨hfits, hhistory⟩ := Run.Fits.start hstart
      obtain ⟨told, hreports, htold⟩ := ih n (Nat.lt_succ_self n) (w := w) hform hfits
        fun j (hj : none = some j) => absurd hj (by simp)
      rw [hhistory] at htold
      exact ⟨told, hreports, htold.imp fun _ _ h => .run h⟩

/-- **What is told while a discreet question is asked.** The induction goes through what is made of
the answers of a form. -/
theorem Question.Discreet.told_of_ask {n : Nat} (ih : ∀ m < n, Run.Speaks o m) {q : Question}
    (h : q.Discreet o) (w : Session) :
    ∃ inside, (q.ask n w).2.2.reports = w.reports ++ inside ∧
      (q.ask n w).1.Told (q.Tells o.policy True) inside := by
  induction n generalizing q w with
  | zero => exact ⟨[], (List.append_nil _).symm, q.told_nil _ _⟩
  | succ n ih' =>
      have hinner := @ih' fun m hm => ih m (Nat.lt_succ_of_lt hm)
      cases h with
      | mute mute =>
          refine ⟨[], ?_, Question.told_of_no_form mute.form?_eq_none _⟩
          rw [List.append_nil]
          exact mute.hushed_ask (n + 1) w
      | @nested form initial recent discreet =>
          obtain ⟨told, hreports, htold⟩ := Form.told_of_speaks (n := n)
            (fun m hm => ih m (Nat.lt_succ_of_lt hm)) discreet initial recent w
          rw [Question.ask]
          refine ⟨told, hreports, htold.map Ending.reply fun told out h => ?_⟩
          have hreply : out.map Ending.reply = out.map fun e => e.reply.map id := by
            rcases out with (_ | _ | _) | _ | _ | _ <;> rfl
          rw [hreply]
          exact .form rfl h id
      | @mapped f inverse inner discreet =>
          obtain ⟨inside, hreports, htold⟩ := hinner discreet w
          rw [Question.ask]
          exact ⟨inside, hreports, htold.map (Reply.map f) fun _ _ h => h.mapped f inverse⟩
      | @watched label type inner discreet =>
          obtain ⟨inside, hreports, htold⟩ := hinner discreet (w.emit [.used label .asked])
          rw [Question.ask]
          refine ⟨inside, ?_, htold.imp fun _ _ h => h.congr rfl⟩
          have hasked := Session.hushed_used label .asked w
          have hreplied := Session.hushed_replied label type
            (inner.ask n (w.emit [.used label .asked])).1
            (inner.ask n (w.emit [.used label .asked])).2.2
          rw [← hasked, ← hreports, ← hreplied]

/-- **What is told while the question of a step is asked**: the step, and then what the question of
the field tells. -/
theorem Field.Discreet.told_of_present {f : Field} {n : Nat} (hf : f.Discreet o)
    (ho : o.observer = .recording) (ih : ∀ m < n, Run.Speaks o m) {form : Form} {r : Run} {i : Nat}
    {attempt : Option (Attempt Json)} {make : Session → Question × Session} {q : Question}
    {w w₁ : Session} (hoffer : f.offer ⟨f.path, r.draft, attempt, o⟩ = .ask make)
    (hpresent : r.present o form i f attempt make w = (q, w₁)) :
    w₁.reports = w.reports ++ [.step f.path r.current (r.total form i)] ∧
      ∃ inside, (q.ask n w₁).2.2.reports = w₁.reports ++ inside ∧
        (q.ask n w₁).1.Told (Field.Tells o.policy True f) inside := by
  obtain ⟨-, hdiscreet, hhushed⟩ := hf
  have hmade : w.Hushed (make w).2 := hhushed _ make w rfl hoffer
  obtain ⟨hready, hprepared, hform⟩ := (hdiscreet _ make w rfl hoffer).prepareQuestion f attempt
    r.current (r.total form i) (make w).2
  have hparts : r.present o form i f attempt make w =
      ((prepareQuestion f attempt r.current (r.total form i) (make w).1 (make w).2).1,
        (prepareQuestion f attempt r.current (r.total form i) (make w).1 (make w).2).2.report o
          (.step f.path r.current (r.total form i))) := rfl
  rw [hparts, Prod.mk.injEq] at hpresent
  obtain ⟨rfl, rfl⟩ := hpresent
  obtain ⟨inside, hinside, htold⟩ := hready.told_of_ask (n := n) ih
    ((prepareQuestion f attempt r.current (r.total form i) (make w).1 (make w).2).2.report o
      (.step f.path r.current (r.total form i)))
  refine ⟨?_, inside, hinside, htold.imp fun _ _ h => ?_⟩
  · rw [Session.reports_report ho, hmade.trans hprepared]
  · exact .intro ⟨_, make, w, hoffer, rfl⟩ (h.congr hform)

namespace Run

variable {form : Form} {initial : Draft} {r r' : Run} {i n : Nat} {f : Field}

/-- What is told before anything was done can be completed. -/
theorem told_nil {again : Option Nat} (hagain : ∀ j, again = some j → r.Returns o form j) :
    Outcome.exhausted.Told (Form.GoesOn o.policy True form initial r.history again) [] := by
  rcases again with _ | j
  · exact ⟨_, Or.inl ⟨_, .at_once _ _ _ _ _⟩⟩
  · obtain ⟨_, _, f, hf, hnew, -⟩ := hagain j rfl
    have hopens : form.Opens r.history (some j) [] j f :=
      ⟨hf, hnew, fun _ hp => absurd hp List.not_mem_nil, fun _ hj => ⟨rfl, Option.some.inj hj⟩⟩
    have hunmade : Form.GoesOn o.policy True form initial r.history (some j) []
        (.failed (.factory f.path (.because ""))) := .unmade hopens
    exact ⟨[], Or.inr ⟨_, hunmade⟩⟩

/-- **One turn of a run tells one block**, or ends the sentence. -/
theorem speaks_succ (ho : o.observer = .recording) (ih : ∀ m ≤ n, Speaks o m) :
    Speaks o (n + 1) := by
  intro form initial r again w hform hr hagain
  rw [conduct]
  rcases hseek : r.seek o form with ⟨entries, run, _ | e | ⟨i, f, attempt, make⟩⟩
  · -- nothing is left to ask
    obtain ⟨rfl, skips, hskips, heq⟩ := skips_of_seek_eq_nothing ho hagain hseek
    obtain ⟨hhistory, -, -⟩ := kept_of_seek hseek
    simp only [conclude]
    split
    · rename_i p hp
      refine ⟨skips.map .skipped, ?_, .unfilled hskips (List.mem_of_find?_eq_some hp)⟩
      rw [Session.reports_emit, heq]
    · refine ⟨skips.map .skipped ++ [.completed run.history.length], ?_, ?_⟩
      · rw [Session.reports_report ho, Session.reports_emit, heq, List.append_assoc]
      · rw [hhistory]
        exact .completed hskips
  · obtain ⟨skips, j, f, cause, heq, hopens, rfl⟩ := opens_of_seek_eq_failed ho hagain hseek
    refine ⟨skips.map .skipped, ?_, .unmade hopens⟩
    rw [Session.reports_emit, heq]
  · obtain ⟨skips, heq, hopens⟩ := opens_of_seek ho hagain hseek
    obtain ⟨hf, ⟨hhistory, hassumed, -⟩, -⟩ := kept_of_seek hseek
    have hrun : run.Fits form initial :=
      ⟨hassumed.trans hr.assumed_eq, fun j hj => hr.history_lt j (hhistory ▸ hj)⟩
    rw [← hhistory] at hopens ⊢
    rcases hpresent : run.present o form i f attempt make (w.emit entries) with ⟨q, w₁⟩
    have hfield := hform.field (List.mem_of_getElem? hf)
    obtain ⟨hstep, inside, hinside, htold⟩ := hfield.told_of_present ho
      (fun m hm => ih m (Nat.le_of_lt hm)) (offer_of_seek_eq hseek).2 hpresent
    rcases hask : q.ask n w₁ with ⟨out, q', w₂⟩
    simp only [hask] at hinside htold
    have hdisposed : (q'.dispose w₂).2.reports = w₂.reports := q'.hushed_dispose w₂
    rw [← hdisposed] at hinside
    obtain ⟨notes, told, hsettled, hsettles⟩ := settles_settle o form run i f out (q'.dispose w₂).2
    simp only [hpresent, hask]
    -- what is told up to here
    have hreports : (run.settle o form i f out (q'.dispose w₂).2).2.reports =
        w.reports ++ (Form.opening skips run.history f (run.total form i) ++ inside ++ told) := by
      rw [hsettled, Session.reports_reportAll ho, Session.reports_emit, reportsOf_notes,
        List.append_nil, hinside, hstep, Session.reports_emit, heq, Form.opening]
      simp only [List.append_assoc, current]
    rcases hcourse : run.settle o form i f out (q'.dispose w₂).2 with ⟨ended | next, w₃⟩
    · rw [hcourse] at hreports hsettles
      exact ⟨_, hreports, hopens.told_of_ends hrun _ htold hsettles⟩
    · rw [hcourse] at hreports hsettles
      obtain ⟨hnext, again', hagain', hrest⟩ := hopens.told_of_goesOn hrun (run.total form i) htold
        hsettles fun j message => returns_reject
          hfield.skipsByDraft hseek j message
      obtain ⟨more, hmore, htold'⟩ := ih n (Nat.le_refl n) (w := w₃) hform hnext hagain'
      refine ⟨_, ?_, htold'.prepend hrest⟩
      rw [hmore, hreports, List.append_assoc]

/-- **Every run tells sentences.** The induction is on the bound, over the turns of the run and the
runs inside it. -/
theorem speaks (ho : o.observer = .recording) (n : Nat) : Speaks o n := by
  induction n using Nat.strong_induction_on with
  | _ n ih =>
    rcases n with _ | n
    · intro form initial r again w hform hr hagain
      exact ⟨[], (List.append_nil _).symm, told_nil hagain⟩
    · exact speaks_succ ho fun m hm => ih m (Nat.lt_succ_of_le hm)

end Run

/-! ## What a run tells -/

/-- **What a run tells its observer is a sentence, or the beginning of one while the run waits.** -/
theorem Form.told_of_conductForm {form : Form} (ho : o.observer = .recording)
    (hform : form.Discreet o) (n : Nat) (initial recent : Draft) (w : Session) :
    ∃ told, (conductForm n form o initial recent w).2.reports = w.reports ++ told ∧
      (conductForm n form o initial recent w).1.Told (Form.Tells o.policy True form initial) told :=
  Form.told_of_speaks (fun m _ => Run.speaks ho m) hform initial recent w

/-- On the excursion the sentence of the target is told within that of the whole. -/
theorem told_of_excursion :
    Form.excursion.Discreet ⟨.recording, .declarationOrder⟩ ∧
    ∃ told,
      (conductForm 12 .excursion ⟨.recording, .declarationOrder⟩ .excursion .empty
        .excursion).2.reports = Session.excursion.reports ++ told ∧
      (conductForm 12 .excursion ⟨.recording, .declarationOrder⟩ .excursion .empty
        .excursion).1.Told (Form.Tells .declarationOrder True .excursion .excursion) told := by
  have hdeck : ∀ path id, (Field.asking path (.shaped .text) (.deck id 0 false)).Discreet
      ⟨.recording, .declarationOrder⟩ :=
    fun path id => Field.discreet_of_offer (.deck id 0 false) fun _ => rfl
  have htarget : Form.target.Discreet ⟨.recording, .declarationOrder⟩ :=
    (Form.discreet_empty.bind (hdeck _ _)).bind (hdeck _ _)
  have hform : Form.excursion.Discreet ⟨.recording, .declarationOrder⟩ :=
    ((Form.discreet_empty.bind (hdeck _ _)).bind (htarget.asField _)).bind (hdeck _ _)
  exact ⟨hform, Form.told_of_conductForm rfl hform 12 .excursion .empty .excursion⟩

-- the second sentence of the target ends with going back out of it
example :
    (conductForm 12 .excursion ⟨.recording, .declarationOrder⟩ .excursion .empty
      .excursion).2.reports =
    [.step (.ofText "name") 1 3, .answered (.ofText "name"),
      .step (.ofText "target") 2 3,
        .step (.ofText "kind") 1 1, .answered (.ofText "kind"), .completed 1,
      .answered (.ofText "target"),
      .step (.ofText "runtime") 3 3, .back (.ofText "runtime") (some (.ofText "target")),
      .step (.ofText "target") 2 3,
        .step (.ofText "kind") 1 1, .back (.ofText "kind") none,
      .back (.ofText "target") (some (.ofText "name")),
      .step (.ofText "name") 1 3, .answered (.ofText "name"),
      .step (.ofText "target") 2 3,
        .step (.ofText "kind") 1 1, .answered (.ofText "kind"), .completed 1,
      .answered (.ofText "target"),
      .step (.ofText "runtime") 3 3, .answered (.ofText "runtime"), .completed 3] := by
  cbv

/-! ## A tangle

The form at `a` puts a text at `a.n`, where the start has an object, and the last form is inside
that object. Going back from it takes back its own answer, which the start had. But there is no
place to put that any more. -/

/-- The form at `a`. -/
def Form.tangle : Form :=
  Form.empty
    |>.bind (.asking (.ofText "n") (.shaped .text) (.deck 0 0 false))
    |>.bind { Field.asking (.ofText "n.m.x") (.shaped .text) (.deck 1 0 false) with
        condition := fun d => (d.get? (.ofText "n")).bind Json.text? != some "q" }
    |>.bind (.asking (.ofText "t") (.shaped .text) (.deck 2 0 false))

/-- The form inside the object that the form at `a` replaces. -/
def Form.knot : Form :=
  Form.empty |>.bind (.asking (.ofText "k") (.shaped .text) (.deck 4 0 false))

/-- A form with overlapping paths. -/
def Form.tangled : Form :=
  Form.empty
    |>.bind (Form.tangle.asField (.ofText "a"))
    |>.bind (.asking (.ofText "v") (.shaped .text) (.deck 3 0 false))
    |>.bind (Form.knot.asField (.ofText "a.n.m"))

/-- The replies in the tangle. -/
def Session.tangled : Session :=
  { Session.new (.rehearsal []) with
    decks := [
      Deck.new "n" (.shaped .text) [.value (.text "q")],
      Deck.new "n.m.x" (.shaped .text) [.value (.text "x")],
      Deck.new "t" (.shaped .text) [.back, .value (.text "t")],
      Deck.new "v" (.shaped .text) [.value (.text "v"), .value (.text "w")],
      Deck.new "k" (.shaped .text) [.back, .value (.text "k")]] }

/-- A start with an object inside an object. -/
def Draft.tangled : Draft :=
  ⟨[("a", .object [("n", .object [("m", .object [])])])]⟩

/-- The tangle is one of the forms that this file is about. -/
theorem Form.discreet_tangled : Form.tangled.Discreet o := by
  have hdeck : ∀ path id, (Field.asking path (.shaped .text) (.deck id 0 false)).Discreet o :=
    fun path id => Field.discreet_of_offer (.deck id 0 false) fun _ => rfl
  have htangle : Form.tangle.Discreet o :=
    ((Form.discreet_empty.bind (hdeck _ _)).bind
      (Field.discreet_of_offer (.deck 1 0 false) fun _ => rfl)).bind (hdeck _ _)
  have hknot : Form.knot.Discreet o := Form.discreet_empty.bind (hdeck _ _)
  exact ((Form.discreet_empty.bind (htangle.asField _)).bind (hdeck _ _)).bind (hknot.asField _)

/-- **In the tangle the sentence breaks off**: the last that is told is that the user goes back from
the last form to the one before, and then nothing more, because the run fails. If going back could
not fail, this would be no sentence. -/
theorem breaksOff_of_tangled :
    Form.tangled.Discreet ⟨.recording, .declarationOrder⟩ ∧
    (conductForm 14 .tangled ⟨.recording, .declarationOrder⟩ .tangled .empty .tangled).1 =
      .failed (.draft (.notAnObject (.ofText "a.n.m"))) ∧
    ¬(conductForm 14 .tangled ⟨.recording, .declarationOrder⟩ .tangled .empty .tangled).1.Told
      (Form.Tells .declarationOrder False .tangled .tangled)
      (conductForm 14 .tangled ⟨.recording, .declarationOrder⟩ .tangled .empty
        .tangled).2.reports := by
  have houtcome : (conductForm 14 .tangled ⟨.recording, .declarationOrder⟩ .tangled .empty
      .tangled).1 = .failed (.draft (.notAnObject (.ofText "a.n.m"))) := by
    cbv
  have hlast : (conductForm 14 .tangled ⟨.recording, .declarationOrder⟩ .tangled .empty
      .tangled).2.reports.getLast? = some (.back (.ofText "a.n.m") (some (.ofText "v"))) := by
    cbv
  exact ⟨Form.discreet_tangled, houtcome, Form.not_told_of_back houtcome hlast⟩

end Interview