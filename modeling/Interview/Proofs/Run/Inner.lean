import Interview.Proofs.Draft.Records
import Interview.Proofs.Run.Account
/-
Forms inside a form.

A form asked as one question is bound like any other field, and a run treats it like one. What
sets it apart is stated here: it always applies and always has a question, its question is the
form, started with what the draft has at its path and offered what an earlier answer was, and the
options are those of the outer run. `Form.Throughout` says that something holds of a form and of
all forms inside it, at any depth, and something else of all their fields that are no forms.
-/

set_option autoImplicit false

namespace Interview

/-! ## What an inner form starts with -/

namespace Draft

variable {d d' s : Draft} {p : Path}

/-- What a form that is asked at a path starts with: what the draft has there. -/
def startAt (d : Draft) (p : Path) : Except DraftError Draft :=
  match d.get? p with
  | some v => ofJson? v
  | none => .ok empty

theorem startAt_congr (h : d'.get? p = d.get? p) : d'.startAt p = d.startAt p := by
  rw [startAt, startAt, h]

/-- An inner form starts with nothing, or with a record that the draft has. -/
theorem startAt_eq_ok (h : d.startAt p = .ok s) :
    s = empty ∨ ∃ v, d.members.at? p.segments = some v ∧ ofJson? v = .ok s := by
  unfold startAt at h
  split at h
  · rename_i v hv
    exact Or.inr ⟨v, (Option.filter_eq_some_iff.mp hv).1, h⟩
  · exact Or.inl (Except.ok.inj h).symm

/-- What an inner form starts with is plain. -/
theorem plain_of_startAt (hd : d.toJson.Ordered) (h : d.startAt p = .ok s) : s.Plain := by
  rcases startAt_eq_ok h with rfl | ⟨v, hat, hread⟩
  · exact plain_empty
  · have hv : v.Ordered := Members.of_at?_eq_some (fun _ hms _ _ => hms.2.find?)
      (fun _ _ => hd.2.find?) hat
    exact plain_of_ofJson? hv hread

/-- What an inner form starts with is neat, if the outer draft is. -/
theorem Neat.startAt (hd : d.Neat) (h : d.startAt p = .ok s) : s.Neat := by
  rcases startAt_eq_ok h with rfl | ⟨v, hat, hread⟩
  · exact neat_empty
  · obtain ⟨hord, hsolid⟩ := hd.of_at?_eq_some hat
    exact neat_of_ofJson? hord hsolid hread

end Draft

/-- What a form is to offer again when it is asked with an attempt. -/
def Draft.offered (attempt : Option (Attempt Json)) : Draft :=
  match attempt with
  | none => .empty
  | some a =>
    match Draft.ofJson? a.value with
    | .ok d => d
    | .error _ => .empty

/-- What is offered again is a record that the attempt holds, or nothing. -/
theorem Draft.offered_cases (a : Attempt Json) :
    (∃ d, ofJson? a.value = .ok d ∧ offered (some a) = d) ∨ offered (some a) = empty := by
  unfold offered
  cases h : ofJson? a.value with
  | ok d => exact Or.inl ⟨d, rfl, by simp only [h]⟩
  | error e => exact Or.inr (by simp only [h])

/-! ## The field of an inner form -/

/-- A field whose question is never itself a form. -/
def Field.IsLeaf (f : Field) : Prop :=
  ∀ c make w, f.offer c = .ask make → (make w).1.isForm = false

/-- A field that asks a question which is no form is a leaf. -/
theorem Field.isLeaf_asking (path : Path) (type : AnswerType) {q : Question}
    (h : q.isForm = false) : (Field.asking path type q).IsLeaf := by
  rintro c make w hmake
  obtain rfl := Offer.ask.inj hmake
  cases q with
  | nested => exact absurd h (by simp [Question.isForm])
  | _ => rfl

namespace Form

variable {path path' : Path} {inner inner' : Form} {o : Options}

/-- What the field of a form has to ask. -/
theorem offer_asField (path : Path) (inner : Form) (c : Context) :
    (asField path inner).offer c =
      match c.draft.startAt c.path with
      | .ok s => .ask fun w => (.nested inner s .empty c.options, w)
      | .error e => .fail (.because e.message) :=
  rfl

/-- The question of the field of a form is the form, with what the draft has at its path. -/
theorem offer_asField_eq_ask {c : Context} {make : Session → Question × Session}
    (h : (asField path inner).offer c = .ask make) :
    ∃ s, c.draft.startAt c.path = .ok s ∧
      make = fun w => (.nested inner s .empty c.options, w) := by
  rw [offer_asField] at h
  split at h
  · rename_i s hs
    exact ⟨s, hs, (Offer.ask.inj h).symm⟩
  · exact absurd h (by simp)

/-- The field of a form is never left out. -/
theorem declines_asField (path : Path) (inner : Form) (o : Options) (d : Draft)
    (a : Option (Attempt Json)) : (asField path inner).declines o d a = false := by
  rw [Field.declines_of_condition rfl, offer_asField]
  split
  · rfl
  · rfl

theorem not_isLeaf_asField (path : Path) (inner : Form) : ¬(asField path inner).IsLeaf := by
  intro h
  have hask := offer_asField path inner ⟨.root, .empty, none, .default⟩
  exact absurd (h _ _ (Session.new (.rehearsal [])) hask) (by simp [Question.isForm])

/-- A form and its path can be told from its field. -/
theorem asField_inj (h : asField path inner = asField path' inner') :
    path = path' ∧ inner = inner' := by
  have hask := offer_asField path inner ⟨.root, .empty, none, .default⟩
  rw [h, offer_asField] at hask
  have hmake := congrFun (Offer.ask.inj hask) (Session.new (.rehearsal []))
  simp only [Prod.mk.injEq, Question.nested.injEq] at hmake
  exact ⟨congrArg Field.path h, hmake.1.1.symm⟩

/-! ## Throughout a form -/

/-- `P` holds of the form and of every form inside it, and `L` of every field in them that is no
form. -/
inductive Throughout (P : Form → Prop) (L : Field → Prop) : Form → Prop
  | of {form : Form} (own : P form)
    (fields : ∀ f ∈ form.fields, (f.IsLeaf ∧ L f) ∨ ∃ path inner, f = asField path inner)
    (inside : ∀ path inner, asField path inner ∈ form.fields → Throughout P L inner) :
    Throughout P L form

namespace Throughout

variable {P P' : Form → Prop} {L L' : Field → Prop} {form : Form}

theorem own (h : form.Throughout P L) : P form := by
  obtain ⟨hown, -, -⟩ := h
  exact hown

/-- Every field is a leaf with `L`, or a form throughout which the same holds. -/
theorem field (h : form.Throughout P L) {f : Field} (hf : f ∈ form.fields) :
    (f.IsLeaf ∧ L f) ∨ ∃ path inner, f = asField path inner ∧ inner.Throughout P L := by
  obtain ⟨-, hfields, hinside⟩ := h
  rcases hfields f hf with hleaf | ⟨path, inner, rfl⟩
  · exact Or.inl hleaf
  · exact Or.inr ⟨path, inner, rfl, hinside path inner hf⟩

/-- What holds of a form and of every one of its fields holds throughout it. -/
theorem of_fields (hown : P form)
    (hfields : ∀ f ∈ form.fields, (f.IsLeaf ∧ L f) ∨
      ∃ path inner, f = asField path inner ∧ inner.Throughout P L) : form.Throughout P L := by
  refine .of hown (fun f hf => ?_) (fun path inner hf => ?_)
  · rcases hfields f hf with hleaf | ⟨path, inner, rfl, -⟩
    · exact Or.inl hleaf
    · exact Or.inr ⟨path, inner, rfl⟩
  · -- a field is that of one form at most, and then it is no leaf
    rcases hfields _ hf with ⟨hleaf, -⟩ | ⟨path', inner', heq, hinner⟩
    · exact absurd hleaf (not_isLeaf_asField path inner)
    · obtain ⟨-, rfl⟩ := asField_inj heq
      exact hinner

end Throughout

end Form

/-! ## Asking an inner form -/

/-- The outcome of a form as the reply of a question is an answer just if the form completes. -/
theorem map_reply_eq_value {outcome : Outcome Ending} {v : Json} :
    outcome.map Ending.reply = .done (.value v) ↔
      ∃ d, outcome = .done (.completed d) ∧ d.toJson = v := by
  rcases outcome with (_ | _ | _) | _ | _ | _ <;> simp [Outcome.map, Ending.reply]

theorem map_reply_eq_back {outcome : Outcome Ending} :
    outcome.map Ending.reply = .done .back ↔ outcome = .done .back := by
  rcases outcome with (_ | _ | _) | _ | _ | _ <;> simp [Outcome.map, Ending.reply]

/-- Whether a question is a form does not change when it is told of an attempt. -/
theorem Question.isForm_restore (a : Attempt Json) (q : Question) (w : Session) :
    (q.restore a w).1.isForm = q.isForm := by
  cases q with
  | mapped f inverse inner =>
      cases inverse with
      | none => rfl
      | some g => rfl
  | nested form initial recent options =>
      obtain ⟨d, hd⟩ := Question.restore_nested form initial recent options a w
      rw [hd]
      rfl
  | _ => rfl

theorem Question.isForm_place (current total : Nat) (q : Question) (w : Session) :
    (q.place current total w).1.isForm = q.isForm := by
  cases q with
  | _ => rfl

/-- Whether a question is a form does not change when it is prepared. -/
theorem isForm_prepareQuestion (f : Field) (attempt : Option (Attempt Json)) (current total : Nat)
    (q : Question) (w : Session) :
    (prepareQuestion f attempt current total q w).1.isForm = q.isForm := by
  unfold prepareQuestion
  cases attempt.bind f.type.attempt? with
  | none => exact Question.isForm_place _ _ q w
  | some a => exact (Question.isForm_place _ _ _ _).trans (Question.isForm_restore a q w)

/-- Preparing a form tells it what to offer again, and nothing else happens. -/
theorem prepareQuestion_nested (path : Path) (inner : Form) (s : Draft) (o : Options)
    (attempt : Option (Attempt Json)) (current total : Nat) (w : Session) :
    prepareQuestion (Form.asField path inner) attempt current total (.nested inner s .empty o) w =
      (.nested inner s (Draft.offered attempt) o, w) := by
  cases attempt with
  | none => rfl
  | some a =>
      have htype : (Form.asField path inner).type.attempt? a = some a := rfl
      simp only [prepareQuestion, Option.bind_some, htype, Question.restore, Draft.offered]
      cases Draft.ofJson? a.value with
      | ok d => rfl
      | error e => rfl

namespace Run

variable {form : Form} {o : Options} {r : Run} {place : Nat} {f : Field}
variable {attempt : Option (Attempt Json)} {make : Session → Question × Session}
variable {q : Question} {w w' : Session}

/-- The question of a leaf is no form when it is asked. -/
theorem isForm_present (h : (make w).1.isForm = false)
    (hpresent : r.present o form place f attempt make w = (q, w')) : q.isForm = false := by
  have hq : (r.present o form place f attempt make w).1 = q := by rw [hpresent]
  rw [← hq, ← h]
  exact isForm_prepareQuestion f attempt r.current (r.total form place) _ _

theorem present_asField (path : Path) (inner : Form) (s : Draft) :
    r.present o form place (Form.asField path inner) attempt
        (fun w => (.nested inner s .empty o, w)) w =
      (.nested inner s (Draft.offered attempt) o,
        w.report o (.step path r.current (r.total form place))) := by
  simp only [present, prepareQuestion_nested]
  rfl

end Run

/-! ## An excursion

A name, a target with a kind and a handler, and a runtime. The user goes back from the runtime and,
as soon as the kind is asked for, goes back once more, to the name. -/

/-- The form of the target. -/
def Form.target : Form :=
  Form.empty
    |>.bind (.asking (.ofText "kind") (.shaped .text) (.deck 1 0 false))
    |>.bind (.asking (.ofText "handler") (.shaped .text) (.deck 2 0 false))

/-- The form of the excursion. -/
def Form.excursion : Form :=
  Form.empty
    |>.bind (.asking (.ofText "name") (.shaped .text) (.deck 0 0 false))
    |>.bind (Form.target.asField (.ofText "target"))
    |>.bind (.asking (.ofText "runtime") (.shaped .text) (.deck 3 0 false))

/-- The replies on the excursion. -/
def Session.excursion : Session :=
  { Session.new (.rehearsal []) with
    decks := [
      Deck.new "name" (.shaped .text) [.value (.text "first"), .value (.text "second")],
      Deck.new "kind" (.shaped .text) [.value (.text "code"), .back, .value (.text "code")],
      Deck.new "handler" (.shaped .text) [.value (.text "main"), .value (.text "main")],
      Deck.new "runtime" (.shaped .text) [.back, .value (.text "java")]] }

/-- A start of the excursion that has the handler already. -/
def Draft.excursion : Draft :=
  ⟨[("target", .object [("handler", .text "main")])]⟩

theorem Draft.plain_excursion : Draft.excursion.Plain := by
  refine ⟨⟨by simp [Draft.excursion, Members.Ascending], ?_⟩, ?_⟩
  · simp [Draft.excursion, Json.OrderedMembers, Json.Ordered, Members.Ascending]
  · simp [Draft.excursion, Json.NullFreeMembers, Json.NullFree]

/-- The fields of the excursion that are no forms are answered from decks. -/
theorem Form.throughout_excursion_of_decks {P : Form → Prop} {L : Field → Prop}
    (hexcursion : P .excursion) (htarget : P .target)
    (h : ∀ path id, L (.asking path (.shaped .text) (.deck id 0 false))) :
    Form.excursion.Throughout P L := by
  have hleaf : ∀ path id, (Field.asking path (.shaped .text) (.deck id 0 false)).IsLeaf ∧
      L (.asking path (.shaped .text) (.deck id 0 false)) :=
    fun path id => ⟨Field.isLeaf_asking path _ rfl, h path id⟩
  have hinner : Form.target.Throughout P L := by
    refine .of_fields htarget fun f hf => Or.inl ?_
    rcases Form.mem_fields_bind hf with rfl | hf
    · exact hleaf _ _
    · rcases Form.mem_fields_bind hf with rfl | hf
      · exact hleaf _ _
      · exact absurd hf List.not_mem_nil
  refine .of_fields hexcursion fun f hf => ?_
  rcases Form.mem_fields_bind hf with rfl | hf
  · exact Or.inl (hleaf _ _)
  · rcases Form.mem_fields_bind hf with rfl | hf
    · exact Or.inr ⟨_, _, rfl, hinner⟩
    · rcases Form.mem_fields_bind hf with rfl | hf
      · exact Or.inl (hleaf _ _)
      · exact absurd hf List.not_mem_nil

/-- They ask the same question every time. -/
theorem Form.throughout_excursion {L : Field → Prop}
    (h : ∀ path type q, L (.asking path type q)) :
    Form.excursion.Throughout Form.Separate L :=
  throughout_excursion_of_decks ⟨by decide, by decide⟩ ⟨by decide, by decide⟩
    fun path _ => h path _ _

end Interview
