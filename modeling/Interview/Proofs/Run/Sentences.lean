import Interview.Conduct
/-
What there is to tell of a run.

A run tells its observer of every step and of what came of it, of the fields that it leaves out and
of its end. Forms inside the form tell the same observer. So what the observer hears is one list,
and this file says which lists there are: it describes them by a grammar.

A sentence is made of blocks. A block begins with fields that are left out, then a step is shown.
If its question is a form, the sentence of that form follows, as a whole. Then one report says what
came of the step, unless something failed; and the next block begins. The grammar knows which
answers are held at each point, from the answers given and the answers taken back. So the places
that the user goes back to, and the number at the end, are part of it.

Whoever goes back is told of first, and only then the draft is put back to what it was. That can
fail, if the paths of the fields overlap, and then the sentence breaks off. The grammar says so, and
it has a variant in which that does not happen.
-/

set_option autoImplicit false

namespace Interview

/-! ## The answers that are held -/

/-- Where going back from a field lands, when these fields are answered. -/
def lastBefore (held : List Nat) (i : Nat) : Option Nat :=
  held.reverse.find? fun j => j < i

namespace Form

/-- The fields that are cleared when some are, out of the fields from a place on. Assumed fields
are not cleared. -/
def clearedFrom (form : Form) (policy : Policy) (assumed : List Nat) :
    Nat → List Field → List Nat → List Nat
  | _, [], cleared => cleared
  | i, f :: rest, cleared =>
    if assumed.contains i then clearedFrom form policy assumed (i + 1) rest cleared
    else if Run.isStale policy form cleared f then
      clearedFrom form policy assumed (i + 1) rest (cleared ++ [i])
    else clearedFrom form policy assumed (i + 1) rest cleared

/-- The fields that are cleared when the user goes back to one of them. -/
def cleared (form : Form) (policy : Policy) (initial : Draft) (e : Nat) : List Nat :=
  form.clearedFrom policy (Run.filledPlaces form initial) (e + 1) (form.fields.drop (e + 1)) [e]

/-- The answers that are still held when the user goes back to one of them. -/
def heldAfter (form : Form) (policy : Policy) (initial : Draft) (e : Nat) (held : List Nat) :
    List Nat :=
  held.filter fun j => !(form.cleared policy initial e).contains j

/-! ## The grammar -/

/-- Paths of fields of the form. -/
def Skips (form : Form) (skips : List Path) : Prop :=
  ∀ p ∈ skips, ∃ f ∈ form.fields, f.path = p

/-- The beginning of a block: some fields are left out, then the step of a field is shown that is
not answered yet. After a refusal the field is the same one, and none is left out before it. -/
structure Opens (form : Form) (held : List Nat) (again : Option Nat) (skips : List Path) (i : Nat)
    (f : Field) : Prop where
  field : form.fields[i]? = some f
  new : i ∉ held
  left_out : form.Skips skips
  again : ∀ j, again = some j → skips = [] ∧ i = j

/-- What is told at the beginning of a block. -/
def opening (skips : List Path) (held : List Nat) (f : Field) (total : Nat) : List Report :=
  skips.map Report.skipped ++ [.step f.path (held.length + 1) total]

end Form

/-- The form that a question asks, if it asks one, with what it is started with. The answers may be
transformed, and the uses noted. -/
def Question.form? : Question → Option (Form × Draft)
  | .nested form initial _ _ => some (form, initial)
  | .mapped _ _ inner => inner.form?
  | .watched _ _ inner => inner.form?
  | _ => none

/-- The question is one that the field asks. -/
def Field.Asks (f : Field) (q : Question) : Prop :=
  ∃ c make w, f.offer c = .ask make ∧ (make w).1 = q

mutual

/-- **What is told of a form that is run from the start**, with what it comes to. -/
inductive Form.Tells (policy : Policy) (cut : Prop) :
    Form → Draft → List Report → Outcome Ending → Prop
  /-- A required field is there for which there is no question. -/
  | unbound {form : Form} {initial : Draft} {p : Path} (required : p ∈ form.required) :
    Form.Tells policy cut form initial [] (.failed (.unbound p))
  | run {form : Form} {initial : Draft} {told : List Report} {out : Outcome Ending}
    (blocks : Form.GoesOn policy cut form initial [] none told out) :
    Form.Tells policy cut form initial told out

/-- What is told while a question is asked. Only a form tells anything, and that is what is told of
it when it is run. -/
inductive Question.Tells (policy : Policy) (cut : Prop) :
    Question → List Report → Outcome (Reply Json) → Prop
  | nothing {q : Question} (no_form : q.form? = none) (out : Outcome (Reply Json)) :
    Question.Tells policy cut q [] out
  | form {q : Question} {inner : Form} {initial : Draft} {told : List Report}
    {out : Outcome Ending} (form : q.form? = some (inner, initial))
    (tells : Form.Tells policy cut inner initial told out) (g : Json → Json) :
    Question.Tells policy cut q told (out.map fun e => e.reply.map g)

/-- What is told while a field asks its question. -/
inductive Field.Tells (policy : Policy) (cut : Prop) :
    Field → List Report → Outcome (Reply Json) → Prop
  | intro {f : Field} {q : Question} {told : List Report} {out : Outcome (Reply Json)}
    (asks : f.Asks q) (tells : Question.Tells policy cut q told out) :
    Field.Tells policy cut f told out

/-- **What is told from the middle of a run on**, when some fields are answered, and when an answer
was just refused. If `cut` holds, going back may fail after it was told. -/
inductive Form.GoesOn (policy : Policy) (cut : Prop) :
    Form → Draft → List Nat → Option Nat → List Report → Outcome Ending → Prop
  | answered {form : Form} {initial : Draft} {held : List Nat} {again : Option Nat}
    {skips : List Path} {i total : Nat} {f : Field} {inside told : List Report} {v : Json}
    {out : Outcome Ending} (opens : form.Opens held again skips i f)
    (asked : Field.Tells policy cut f inside (.done (.value v)))
    (rest : Form.GoesOn policy cut form initial (held ++ [i]) none told out) :
    Form.GoesOn policy cut form initial held again
      (Form.opening skips held f total ++ inside ++ .answered f.path :: told) out
  | rejected {form : Form} {initial : Draft} {held : List Nat} {again : Option Nat}
    {skips : List Path} {i total : Nat} {f : Field} {inside told : List Report} {v : Json}
    {message : String} {out : Outcome Ending} (opens : form.Opens held again skips i f)
    (asked : Field.Tells policy cut f inside (.done (.value v))) (check : f.check.isSome = true)
    (rest : Form.GoesOn policy cut form initial held (some i) told out) :
    Form.GoesOn policy cut form initial held again
      (Form.opening skips held f total ++ inside ++ .rejected f.path message :: told) out
  /-- The user goes back to the last answer before. -/
  | back {form : Form} {initial : Draft} {held : List Nat} {again : Option Nat}
    {skips : List Path} {i e total : Nat} {f g : Field} {inside told : List Report}
    {out : Outcome Ending} (opens : form.Opens held again skips i f)
    (asked : Field.Tells policy cut f inside (.done .back)) (lands : lastBefore held i = some e)
    (target : form.fields[e]? = some g)
    (rest : Form.GoesOn policy cut form initial (form.heldAfter policy initial e held) none told
      out) :
    Form.GoesOn policy cut form initial held again
      (Form.opening skips held f total ++ inside ++ .back f.path (some g.path) :: told) out
  /-- There is no answer before, and the user leaves the form backwards. -/
  | left {form : Form} {initial : Draft} {held : List Nat} {again : Option Nat}
    {skips : List Path} {i total : Nat} {f : Field} {inside : List Report}
    (opens : form.Opens held again skips i f)
    (asked : Field.Tells policy cut f inside (.done .back)) (lands : lastBefore held i = none) :
    Form.GoesOn policy cut form initial held again
      (Form.opening skips held f total ++ inside ++ [.back f.path none]) (.done .back)
  | cancelled {form : Form} {initial : Draft} {held : List Nat} {again : Option Nat}
    {skips : List Path} {i total : Nat} {f : Field} {inside : List Report}
    (opens : form.Opens held again skips i f)
    (asked : Field.Tells policy cut f inside (.done .cancel)) :
    Form.GoesOn policy cut form initial held again
      (Form.opening skips held f total ++ inside ++ [.cancelled f.path]) (.done .cancelled)
  /-- The question failed. -/
  | failed {form : Form} {initial : Draft} {held : List Nat} {again : Option Nat}
    {skips : List Path} {i total : Nat} {f : Field} {inside : List Report} {e : RunError}
    (opens : form.Opens held again skips i f)
    (asked : Field.Tells policy cut f inside (.failed e)) :
    Form.GoesOn policy cut form initial held again
      (Form.opening skips held f total ++ inside) (.failed e)
  /-- The check failed, or the answer could not be stored. -/
  | unstored {form : Form} {initial : Draft} {held : List Nat} {again : Option Nat}
    {skips : List Path} {i total : Nat} {f : Field} {inside : List Report} {v : Json}
    {e : RunError} (opens : form.Opens held again skips i f)
    (asked : Field.Tells policy cut f inside (.done (.value v)))
    (cause : (∃ d, e = .draft d) ∨ ∃ c, e = .collaborator c) :
    Form.GoesOn policy cut form initial held again
      (Form.opening skips held f total ++ inside) (.failed e)
  /-- What the start had could not be put back. -/
  | stuck {form : Form} {initial : Draft} {held : List Nat} {again : Option Nat}
    {skips : List Path} {i e total : Nat} {f g : Field} {inside : List Report} {d : DraftError}
    (allowed : cut) (opens : form.Opens held again skips i f)
    (asked : Field.Tells policy cut f inside (.done .back)) (lands : lastBefore held i = some e)
    (target : form.fields[e]? = some g) :
    Form.GoesOn policy cut form initial held again
      (Form.opening skips held f total ++ inside ++ [.back f.path (some g.path)])
      (.failed (.draft d))
  /-- A question could not be made. -/
  | unmade {form : Form} {initial : Draft} {held : List Nat} {again : Option Nat}
    {skips : List Path} {i : Nat} {f : Field} {cause : Failure}
    (opens : form.Opens held again skips i f) :
    Form.GoesOn policy cut form initial held again (skips.map Report.skipped)
      (.failed (.factory f.path cause))
  | unfilled {form : Form} {initial : Draft} {held : List Nat} {skips : List Path} {p : Path}
    (left_out : form.Skips skips) (required : p ∈ form.required) :
    Form.GoesOn policy cut form initial held none (skips.map Report.skipped)
      (.failed (.unfilled p))
  | completed {form : Form} {initial : Draft} {held : List Nat} {skips : List Path} {d : Draft}
    (left_out : form.Skips skips) :
    Form.GoesOn policy cut form initial held none
      (skips.map Report.skipped ++ [.completed held.length]) (.done (.completed d))

end

/-- **A sentence, or the beginning of one.** What came to an end was told of in full. While
something is waited for, what was told can be completed in some way. -/
def Outcome.Told {α : Type} (sentence : List Report → Outcome α → Prop) (told : List Report) :
    Outcome α → Prop
  | .done a => sentence told (.done a)
  | .failed e => sentence told (.failed e)
  | _ => ∃ more, (∃ a, sentence (told ++ more) (.done a)) ∨ ∃ e, sentence (told ++ more) (.failed e)

namespace Outcome.Told

variable {α β : Type} {S : List Report → Outcome α → Prop} {told before : List Report}
variable {out : Outcome α}

/-- What leads from sentences to longer ones does so from their beginnings. -/
theorem prepend {S' : List Report → Outcome α → Prop} (h : out.Told S told)
    (hS : ∀ told out, S told out → S' (before ++ told) out) : out.Told S' (before ++ told) := by
  have hmore : (∃ more, (∃ a, S (told ++ more) (.done a)) ∨ ∃ e, S (told ++ more) (.failed e)) →
      ∃ more, (∃ a, S' (before ++ told ++ more) (.done a)) ∨
        ∃ e, S' (before ++ told ++ more) (.failed e) := by
    rintro ⟨more, ⟨a, h⟩ | ⟨e, h⟩⟩
    · exact ⟨more, Or.inl ⟨a, (List.append_assoc before told more).symm ▸ hS _ _ h⟩⟩
    · exact ⟨more, Or.inr ⟨e, (List.append_assoc before told more).symm ▸ hS _ _ h⟩⟩
  cases out with
  | done a => exact hS _ _ h
  | failed e => exact hS _ _ h
  | suspended => exact hmore h
  | exhausted => exact hmore h

theorem imp {S' : List Report → Outcome α → Prop} (h : out.Told S told)
    (hS : ∀ told out, S told out → S' told out) : out.Told S' told :=
  h.prepend fun told out h => by rw [List.nil_append]; exact hS told out h

/-- The same with the outcome transformed. -/
theorem map {S' : List Report → Outcome β → Prop} (g : α → β) (h : out.Told S told)
    (hS : ∀ told out, S told out → S' told (out.map g)) : (out.map g).Told S' told := by
  have hmore : (∃ more, (∃ a, S (told ++ more) (.done a)) ∨ ∃ e, S (told ++ more) (.failed e)) →
      ∃ more, (∃ a, S' (told ++ more) (.done a)) ∨ ∃ e, S' (told ++ more) (.failed e) := by
    rintro ⟨more, ⟨a, h⟩ | ⟨e, h⟩⟩
    · exact ⟨more, Or.inl ⟨g a, hS _ _ h⟩⟩
    · exact ⟨more, Or.inr ⟨e, hS _ _ h⟩⟩
  cases out with
  | done a => exact hS _ _ h
  | failed e => exact hS _ _ h
  | suspended => exact hmore h
  | exhausted => exact hmore h

end Outcome.Told

/-- Whatever was told of a run, it can be completed with the next report, unless an answer was just
refused. -/
theorem Form.GoesOn.at_once (policy : Policy) (cut : Prop) (form : Form) (initial : Draft)
    (held : List Nat) :
    Form.GoesOn policy cut form initial held none [.completed held.length]
      (.done (.completed .empty)) := by
  have hnothing : form.Skips [] := fun _ hp => absurd hp List.not_mem_nil
  exact .completed hnothing

namespace Question

variable {policy : Policy} {cut : Prop} {q q' : Question}

/-- What is told depends on the form only. -/
theorem Tells.congr {told : List Report} {out : Outcome (Reply Json)}
    (h : q.Tells policy cut told out) (hform : q.form? = q'.form?) :
    q'.Tells policy cut told out := by
  cases h with
  | nothing no_form => exact .nothing (hform.symm.trans no_form) out
  | form form tells g => exact .form (hform.symm.trans form) tells g

/-- If the answers are transformed, the same is told. -/
theorem Tells.mapped {told : List Report} {out : Outcome (Reply Json)}
    (h : q.Tells policy cut told out) (f : Json → Json) (inverse : Option (Json → Json)) :
    (Question.mapped f inverse q).Tells policy cut told (out.map (Reply.map f)) := by
  have hform : (Question.mapped f inverse q).form? = q.form? := rfl
  cases h with
  | nothing no_form => exact .nothing (hform.trans no_form) _
  | @form _ _ _ _ out form tells g =>
      have hmap : (out.map fun e => e.reply.map g).map (Reply.map f) =
          out.map fun e => e.reply.map (f ∘ g) := by
        rcases out with (_ | _ | _) | _ | _ | _ <;> rfl
      rw [hmap]
      exact .form (hform.trans form) tells _

/-- Of a question that asks no form, nothing is told. -/
theorem told_of_no_form (h : q.form? = none) (out : Outcome (Reply Json)) :
    out.Told (q.Tells policy cut) [] := by
  cases out with
  | done a => exact .nothing h _
  | failed e => exact .nothing h _
  | suspended => exact ⟨[], Or.inl ⟨.cancel, .nothing h _⟩⟩
  | exhausted => exact ⟨[], Or.inl ⟨.cancel, .nothing h _⟩⟩

/-- What is told before a question was asked can be completed. -/
theorem told_nil (policy : Policy) (cut : Prop) (q : Question) :
    Outcome.exhausted.Told (q.Tells policy cut) [] := by
  rcases hform : q.form? with _ | ⟨inner, initial⟩
  · exact told_of_no_form hform _
  · have htells : Form.Tells policy cut inner initial [.completed 0]
        (.done (.completed .empty)) := .run (.at_once policy cut inner initial [])
    exact ⟨[.completed 0], Or.inl ⟨_, .form hform htells id⟩⟩

end Question

/-! ## Sentences that break off -/

/-- A run that failed before a question could be asked, or after the last one. -/
def Outcome.IsUnready {α : Type} (out : Outcome α) : Prop :=
  ∃ e, out = .failed e ∧ ((∃ p c, e = .factory p c) ∨ ∃ p, e = .unfilled p)

/-- What is told last, if something is told last. -/
theorem eq_or_of_getLast?_append {before told : List Report} {r r' : Report}
    (h : (before ++ r :: told).getLast? = some r') :
    told.getLast? = some r' ∨ told = [] ∧ r = r' := by
  rw [List.getLast?_append, List.getLast?_cons] at h
  rcases told with _ | ⟨r₁, told⟩
  · exact .inr ⟨rfl, Option.some.inj h⟩
  · left
    simpa [List.getLast?_cons] using h

variable {policy : Policy} {p q : Path}

/-- Going back is not told at the beginning of a block. -/
theorem Form.getLast?_inside {skips : List Path} {held : List Nat} {f : Field} {total : Nat}
    {inside : List Report}
    (h : (Form.opening skips held f total ++ inside).getLast? = some (.back p (some q))) :
    inside.getLast? = some (.back p (some q)) := by
  rw [Form.opening, List.append_assoc] at h
  rcases eq_or_of_getLast?_append h with h | ⟨-, h⟩
  · exact h
  · cases h

mutual

/-- **Where going back cannot fail, it is not the last that is told**, unless the next question
cannot be made or nothing is left to ask. -/
theorem Form.Tells.isUnready : ∀ {form : Form} {initial : Draft} {told : List Report}
    {out : Outcome Ending}, Form.Tells policy False form initial told out →
    told.getLast? = some (.back p (some q)) → out.IsUnready
  | _, _, _, _, .unbound _, h => absurd h (by simp)
  | _, _, _, _, .run blocks, h => (blocks.isUnready).2 h

theorem Question.Tells.isUnready : ∀ {asked : Question} {told : List Report}
    {out : Outcome (Reply Json)}, asked.Tells policy False told out →
    told.getLast? = some (.back p (some q)) → out.IsUnready
  | _, _, _, .nothing _ _, h => absurd h (by simp)
  | _, _, _, .form _ tells _, h => by
      obtain ⟨e, rfl, he⟩ := tells.isUnready h
      exact ⟨e, rfl, he⟩

theorem Field.Tells.isUnready : ∀ {f : Field} {told : List Report} {out : Outcome (Reply Json)},
    Field.Tells policy False f told out → told.getLast? = some (.back p (some q)) → out.IsUnready
  | _, _, _, .intro _ tells, h => tells.isUnready h

theorem Form.GoesOn.isUnready : ∀ {form : Form} {initial : Draft} {held : List Nat}
    {again : Option Nat} {told : List Report} {out : Outcome Ending},
    Form.GoesOn policy False form initial held again told out →
    (told = [] → out.IsUnready) ∧ (told.getLast? = some (.back p (some q)) → out.IsUnready)
  | _, _, _, _, _, _, .answered _ _ rest => by
      refine ⟨fun h => absurd h (by simp), fun h => ?_⟩
      rcases eq_or_of_getLast?_append h with h | ⟨-, h⟩
      · exact rest.isUnready.2 h
      · cases h
  | _, _, _, _, _, _, .rejected _ _ _ rest => by
      refine ⟨fun h => absurd h (by simp), fun h => ?_⟩
      rcases eq_or_of_getLast?_append h with h | ⟨-, h⟩
      · exact rest.isUnready.2 h
      · cases h
  | _, _, _, _, _, _, .back _ _ _ _ rest => by
      refine ⟨fun h => absurd h (by simp), fun h => ?_⟩
      rcases eq_or_of_getLast?_append h with h | ⟨h, -⟩
      · exact rest.isUnready.2 h
      · exact rest.isUnready.1 h
  | _, _, _, _, _, _, .left _ _ _ => ⟨fun h => absurd h (by simp), fun h => absurd h (by simp)⟩
  | _, _, _, _, _, _, .cancelled _ _ =>
      ⟨fun h => absurd h (by simp), fun h => absurd h (by simp)⟩
  | _, _, _, _, _, _, .failed _ asked => by
      refine ⟨fun h => absurd h (by simp [Form.opening]), fun h => ?_⟩
      obtain ⟨e, he, hcause⟩ := asked.isUnready (Form.getLast?_inside h)
      exact ⟨e, congrArg _ (Outcome.failed.inj he), hcause⟩
  | _, _, _, _, _, _, .unstored _ asked _ => by
      refine ⟨fun h => absurd h (by simp [Form.opening]), fun h => ?_⟩
      obtain ⟨e, he, -⟩ := asked.isUnready (Form.getLast?_inside h)
      cases he
  | _, _, _, _, _, _, .unmade _ => by
      exact ⟨fun _ => ⟨_, rfl, .inl ⟨_, _, rfl⟩⟩, fun _ => ⟨_, rfl, .inl ⟨_, _, rfl⟩⟩⟩
  | _, _, _, _, _, _, .unfilled _ _ =>
      ⟨fun _ => ⟨_, rfl, .inr ⟨_, rfl⟩⟩, fun _ => ⟨_, rfl, .inr ⟨_, rfl⟩⟩⟩
  | _, _, _, _, _, _, .completed _ =>
      ⟨fun h => absurd h (by simp), fun h => absurd h (by simp)⟩

end

/-- A run that fails at its draft after the user went back tells no such sentence. -/
theorem Form.not_told_of_back {form : Form} {initial : Draft} {told : List Report}
    {out : Outcome Ending} {d : DraftError} (hout : out = .failed (.draft d))
    (hlast : told.getLast? = some (.back p (some q))) :
    ¬out.Told (Form.Tells policy False form initial) told := by
  subst hout
  intro h
  obtain ⟨e, he, hcause⟩ := Form.Tells.isUnready h hlast
  obtain rfl := Outcome.failed.inj he
  rcases hcause with ⟨_, _, hcause⟩ | ⟨_, hcause⟩
  · cases hcause
  · cases hcause

end Interview
