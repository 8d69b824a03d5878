import Interview.Proofs.Run.ForwardPass
import Interview.Proofs.Run.Recollection
/-
What the checks of the fields say about a finished draft.

A check is run once, when an answer is given, on the draft of that moment. Whether its verdict
still is about the draft that the run ends with is another matter: the user may go back and give
other answers to the fields that the check looked at. The claim of this file is that it still is.
For every field that was answered, the check accepts the final answer on the draft that has the
start and the final answers of the fields declared before it, and nothing else.

Both are facts about passes. The draft of a run is that of a pass, the draft that a pass has at a
field is that of a shorter pass, and a pass can be read off from the final draft: it is what one
gets by copying the answers over one by one (`Pass.withAnswers_eq`).

The other half is about answers that a check refuses. They leave the run as it is, and the same
step is shown again. All fields before it are closed, so that the search comes straight back.
-/

set_option autoImplicit false

namespace Interview

/-! ## Verdicts -/

/-- The check of the field, if it has one, accepts a stored value on a draft. -/
def Field.Approves (f : Field) (d : Draft) (v : Json) : Prop :=
  ∀ check, f.check = some check → ∃ answer, f.type.decode? v = some answer ∧
    (check answer d).delay.isNever = false ∧ (check answer d).verdict = .ok none

/-- What is accepted when it is weighed, the check accepts. -/
theorem Field.approves_of_weigh {f : Field} {v : Json} {d : Draft} {w w' : Session}
    (h : weigh f v d w = (.accepted, w')) : f.Approves d v := by
  intro check hcheck
  unfold weigh at h
  simp only [hcheck] at h
  split at h
  · simp at h
  · rename_i answer hanswer
    refine ⟨answer, hanswer, ?_⟩
    split at h
    · simp at h
    · rename_i hnever
      split at h
      · simp at h
      · simp at h
      · rename_i hverdict
        exact ⟨by simpa using hnever, hverdict⟩

namespace Visit

/-- The answer that the visit brought, in the form in which it would be stored, and the message
with which the check refused it, if it did. -/
def refused? (v : Visit) : Option (Json × String) :=
  match v.outcome with
  | .done (.value answer) =>
    match v.field.type.encode answer with
    | .ok j =>
      match weigh v.field j v.run.draft v.session with
      | (.rejected message, _) => some (j, message)
      | _ => none
    | .error _ => none
  | _ => none

variable {v : Visit} {j : Json} {message : String}

theorem approves_of_accepted (h : v.accepted? = some j) : v.field.Approves v.run.draft j := by
  unfold accepted? at h
  split at h
  · split at h
    · split at h
      · rename_i hweigh
        obtain rfl := Option.some.inj h
        exact Field.approves_of_weigh hweigh
      · simp at h
    · simp at h
  · simp at h

/-- A refused answer lets the run go on, with the answer and the message for the next attempt. -/
theorem settled_of_refused (h : v.refused? = some (j, message)) (o : Options) (form : Form) :
    ∃ w, v.settled o form = (.goesOn (v.run.reject v.place j message), w) := by
  unfold refused? at h
  split at h
  · rename_i answer houtcome
    split at h
    · rename_i j' hencode
      split at h
      · rename_i hweigh
        obtain ⟨rfl, rfl⟩ := Prod.mk.inj (Option.some.inj h)
        rw [settled, houtcome]
        simp only [Run.settle, Run.settleAnswer, hencode, hweigh]
        exact ⟨_, rfl⟩
      · simp at h
    · simp at h
  · simp at h

end Visit

/-! ## Copying answers over -/

/-- A draft with what the final draft has at the path of a field, if it has something there. -/
def Form.carry (form : Form) (final d : Draft) (i : Nat) : Except DraftError Draft :=
  match form.fields[i]? with
  | some f =>
    match final.members.at? f.path.segments with
    | some v => d.set f.path v
    | none => .ok d
  | none => .ok d

/-- **The start with the final answers of some fields**, copied over in order. -/
def Form.withAnswers (form : Form) (initial final : Draft) (places : List Nat) :
    Except DraftError Draft :=
  places.foldlM (form.carry final) initial

namespace Pass

variable {o : Options} {form : Form} {initial d final : Draft}
variable {A : Nat → Draft → Json → Prop} {k : Nat} {hs : List Nat}

/-- **A pass can be read off from a later draft** that has the same answers: it is the start with
these answers. -/
theorem withAnswers_eq (hform : form.Separate) (h : Pass o form initial A k hs d)
    (hfinal : ∀ j ∈ hs, ∀ f, form.fields[j]? = some f →
      final.members.at? f.path.segments = d.members.at? f.path.segments) :
    form.withAnswers initial final hs = .ok d := by
  induction h with
  | start => rfl
  | kept _ _ _ ih => exact ih hfinal
  | skipped _ _ _ _ ih => exact ih hfinal
  | @stored k hs d d' f v before hf _ _ _ hset ih =>
      have hearlier : form.withAnswers initial final hs = .ok d := by
        refine ih fun j hj g hg => ?_
        have hjk : k ≠ j := Nat.ne_of_gt (before.lt_of_mem hj)
        rw [hfinal j (List.mem_append_left _ hj) g hg]
        exact Draft.at?_set_of_apart (hform.apart hf hg hjk) hset
      have hlast : final.members.at? f.path.segments = some v := by
        rw [hfinal k (List.mem_append_right _ (List.mem_singleton_self k)) f hf]
        exact Draft.at?_set_self hset
      have hcarry : form.carry final d k = .ok d' := by
        simp only [Form.carry, hf, hlast, hset]
      rw [Form.withAnswers] at hearlier ⊢
      rw [List.foldlM_append, hearlier]
      simp only [bind, Except.bind, List.foldlM_cons, hcarry, List.foldlM_nil, pure, Except.pure]

end Pass

/-! ## The last verdicts -/

namespace Run

variable {form : Form} {initial : Draft} {o : Options} {r r' : Run} {vs : List Visit} {k : Nat}

/-- **The checks stand.** For every field there is the draft with the start and the final answers of
the fields declared before it. It tells whether the field was answered, and on it the check accepts
the final answer. -/
def ChecksStand (o : Options) (form : Form) (initial : Draft) (r : Run) : Prop :=
  ∀ i f, form.fields[i]? = some f →
    ∃ d, form.withAnswers initial r.draft (r.history.filter fun j => j < i) = .ok d ∧
      (i ∈ r.history ↔ f.isFilled initial = false ∧ f.declines o d none = false) ∧
      (i ∈ r.history → ∃ v, r.draft.members.at? f.path.segments = some v ∧ f.Approves d v)

/-- The visits that lead to a run are visits of fields of the form. -/
theorem Leads.field_eq {first : Run} (h : Leads o form first vs r) :
    ∀ v ∈ vs, form.fields[v.place]? = some v.field := by
  induction h with
  | start => exact fun _ hv => absurd hv List.not_mem_nil
  | @next vs r r' u w _ hshows _ ih =>
      intro v hv
      rcases List.mem_append.mp hv with hv | hv
      · exact ih v hv
      · obtain ⟨entries, make, hseek⟩ := hshows
        rw [List.mem_singleton.mp hv]
        exact (offer_of_seek_eq hseek).1

/-- The last accepted answer for a field is one that its check accepts. -/
theorem Leads.approves {first : Run} (h : Leads o form first vs r) {i : Nat} {f : Field}
    (hf : form.fields[i]? = some f) {d : Draft} {j : Json} (hlast : LastAnswered vs i d j) :
    f.Approves d j := by
  obtain ⟨v, hv, rfl, hj⟩ := hlast
  have hplace := List.find?_some hv
  simp only [Bool.and_eq_true, decide_eq_true_eq] at hplace
  have hfield := h.field_eq v (List.mem_reverse.mp (List.mem_of_find?_eq_some hv))
  rw [hplace.1, hf, Option.some.injEq] at hfield
  exact hfield ▸ Visit.approves_of_accepted hj

/-- Where a pass with the last accepted answers is over, the checks stand. -/
theorem checksStand_of_pass (hform : form.Separate) {first : Run} (hleads : Leads o form first vs r)
    (h : Pass o form initial (LastAnswered vs) form.fields.length r'.history r'.draft) :
    r'.ChecksStand o form initial := by
  intro i f hf
  obtain ⟨hi, -⟩ := List.getElem?_eq_some_iff.mp hf
  obtain ⟨d, hbefore, hagree, hat⟩ := h.read hform hi hf
  have hcopied : form.withAnswers initial r'.draft (r'.history.filter fun j => j < i) = .ok d :=
    hbefore.withAnswers_eq hform fun j hj g hg =>
      (hagree j g (by simpa using (List.mem_filter.mp hj).2) hg).symm
  refine ⟨d, hcopied, ?_, ?_⟩
  · rcases hat with ⟨hnot, hreason⟩ | ⟨hmem, hasks, -⟩
    · refine iff_of_false hnot fun ⟨hunfilled, hasks⟩ => ?_
      rcases hreason with hfilled | hdeclines
      · exact absurd (hunfilled.symm.trans hfilled) (by simp)
      · exact absurd (hasks.symm.trans hdeclines) (by simp)
    · exact iff_of_true hmem ⟨h.unfilled_of_mem hmem hf, hasks⟩
  · intro hmem
    rcases hat with ⟨hnot, -⟩ | ⟨-, -, v, hlast, hv⟩
    · exact absurd hmem hnot
    · exact ⟨v, hv, hleads.approves hf hlast⟩

/-! ## Refused answers -/

/-- A search passes over closed fields. -/
theorem seekFrom_of_closed {i : Nat} (hik : i ≤ k)
    (hclosed : ∀ j f, i ≤ j → j < k → form.fields[j]? = some f → r.isClosed j f = true) :
    r.seekFrom o i (form.fields.drop i) = r.seekFrom o k (form.fields.drop k) := by
  obtain ⟨n, rfl⟩ := Nat.exists_eq_add_of_le hik
  induction n generalizing i with
  | zero => rfl
  | succ n ih =>
      have hstep : r.seekFrom o i (form.fields.drop i) =
          r.seekFrom o (i + 1) (form.fields.drop (i + 1)) := by
        rcases hfields : form.fields.drop i with _ | ⟨f, rest⟩
        · -- there are no fields left, here and later
          have hrest : form.fields.drop (i + 1) = [] := by
            rw [← List.tail_drop, hfields, List.tail_nil]
          rw [hrest, seekFrom, seekFrom]
        · obtain ⟨hf, rfl⟩ := drop_eq_cons hfields.symm
          rw [seekFrom, if_pos (hclosed i f (Nat.le_refl i) (by omega) hf)]
      have hrest : r.seekFrom o (i + 1) (form.fields.drop (i + 1)) =
          r.seekFrom o (i + 1 + n) (form.fields.drop (i + 1 + n)) :=
        ih (by omega) fun j f hj hjk => hclosed j f (by omega) (by omega)
      rw [hstep, hrest, Nat.add_right_comm, Nat.add_assoc]

/-- What is offered after a refusal is the refused answer with the message. -/
theorem attemptAt_reject (r : Run) (k : Nat) (j : Json) (message : String) (f : Field) :
    (r.reject k j message).attemptAt k f = some ⟨j, some message⟩ :=
  if_pos rfl

/-- Once it was offered again, the refused answer leaves nothing behind. -/
theorem withoutRetry_reject (h : r.retry = none) (j : Json) (message : String) :
    (r.reject k j message).withoutRetry k = r := by
  have hnone : { r with retry := none } = r := by rw [← h]
  exact (if_pos rfl).trans hnone

/-- Where a search comes to a step, all fields before it are closed. -/
theorem isClosed_of_seek {entries : List Entry} {place : Nat} {f : Field}
    {attempt : Option (Attempt Json)} {make : Session → Question × Session}
    (h : r.seek o form = (entries, r', .step place f attempt make)) :
    ∀ j g, j < place → form.fields[j]? = some g → r'.isClosed j g = true := by
  have hfound : FoundWith o form
      (fun i r => ∀ j g, j < i → form.fields[j]? = some g → r.isClosed j g = true)
      (r.seek o form).2.1 (r.seek o form).2.2 := by
    refine seek_keeps (fun _ _ _ hr => hr) ?_ ?_ fun j g hj _ => by omega
    · intro i f r hf hr hclosed j g hj hg
      by_cases hji : j = i
      · subst hji
        rw [hf, Option.some.injEq] at hg
        exact hg ▸ hclosed
      · exact hr j g (by omega) hg
    · -- what is left out is closed, and what was closed is so still
      intro i f r a hf hr _ _ j g hj hg
      by_cases hji : j = i
      · simp [isClosed, skip, hji]
      · have hclosed := hr j g (by omega) hg
        simp only [isClosed, skip, Bool.or_eq_true] at hclosed ⊢
        rcases hclosed with (hskipped | hhistory) | hfilled
        · have hmem := List.contains_iff_mem.mp hskipped
          exact Or.inl (Or.inl (List.contains_iff_mem.mpr (List.mem_cons_of_mem _ hmem)))
        · exact Or.inl (Or.inr hhistory)
        · exact Or.inr hfilled
  rw [h] at hfound
  exact hfound.2.1

/-- A search after a refusal comes back to the same field, if the fields before it are closed, and
notes nothing else than that the field is asked for its question. -/
theorem seek_reject_of_closed {f : Field} (hf : form.fields[k]? = some f)
    (hclosed : ∀ j g, j < k → form.fields[j]? = some g → r.isClosed j g = true)
    (hopen : r.isClosed k f = false) (hasks : ∀ a, f.declines o r.draft a = false)
    (hretry : r.retry = none) (j : Json) (message : String) :
    ∃ notes : List Note,
      (∃ last cause, (r.reject k j message).seek o form =
        (notes.map Entry.noted, last, .failed (.factory f.path cause))) ∨
      ∃ make, (r.reject k j message).seek o form =
        (notes.map Entry.noted, r, .step k f (some ⟨j, some message⟩) make) := by
  have hskip : (r.reject k j message).seek o form =
      (r.reject k j message).seekFrom o k (form.fields.drop k) :=
    seekFrom_of_closed (Nat.zero_le k) fun i g _ hi hg => hclosed i g hi hg
  obtain ⟨hk, rfl⟩ := List.getElem?_eq_some_iff.mp hf
  have hasks' := hasks (some ⟨j, some message⟩)
  simp only [Field.declines, Bool.or_eq_false_iff, Bool.not_eq_eq_eq_not, Bool.not_false] at hasks'
  have hopen' : (r.reject k j message).isClosed k form.fields[k] = false := hopen
  have happlies : form.fields[k].condition (r.reject k j message).draft = true := hasks'.1
  rw [hskip, List.drop_eq_getElem_cons hk, seekFrom, if_neg (by simp [hopen']),
    if_neg (by simp [happlies])]
  have hdraft : (r.reject k j message).draft = r.draft := rfl
  simp only [attemptAt_reject, withoutRetry_reject hretry, hdraft]
  rcases hoffer : form.fields[k].offer ⟨form.fields[k].path, r.draft, some ⟨j, some message⟩, o⟩ with
    _ | cause | make
  · rw [hoffer] at hasks'
    exact absurd hasks'.2 (by simp [Offer.isDecline])
  · exact ⟨_, Or.inl ⟨_, cause, rfl⟩⟩
  · have hnone : { r with retry := none } = r := by rw [← hretry]
    simp only [hnone]
    exact ⟨_, Or.inr ⟨make, rfl⟩⟩

/-- **After a refusal the search comes back to the same field.** It offers the refused answer with
the message, unless the field fails to make its question this time. -/
theorem InOrder.seek_reject (h : r.InOrder form initial k) {f : Field}
    (hf : form.fields[k]? = some f) (hopen : r.isClosed k f = false)
    (hasks : ∀ a, f.declines o r.draft a = false) (hretry : r.retry = none) (j : Json)
    (message : String) :
    (∃ entries last cause,
      (r.reject k j message).seek o form = (entries, last, .failed (.factory f.path cause))) ∨
    ∃ entries make, (r.reject k j message).seek o form =
      (entries, r, .step k f (some ⟨j, some message⟩) make) := by
  obtain ⟨notes, ⟨last, cause, hseek⟩ | ⟨make, hseek⟩⟩ :=
    seek_reject_of_closed hf (fun i g hi hg => h.isClosed_of_lt hg hi) hopen hasks hretry j message
  · exact Or.inl ⟨_, last, cause, hseek⟩
  · exact Or.inr ⟨_, make, hseek⟩

end Run

/-- **A refused answer leaves the run as it is.** The run that goes on has the same draft, history,
skipped fields and answers to offer again. It has a step left to show, and the next step that is
shown is that of the same field, with the refused answer and the message. -/
structure Visit.Retried (v : Visit) (o : Options) (form : Form) (j : Json) (message : String)
    (r : Run) (after : List Visit) : Prop where
  draft_eq : r.draft = v.run.draft
  history_eq : r.history = v.run.history
  skipped_eq : r.skipped = v.run.skipped
  recent_eq : r.recent = v.run.recent
  unfinished : ∀ entries last, r.seek o form ≠ (entries, last, .nothing)
  next : ∀ u ∈ after.head?, u.place = v.place ∧ u.field = v.field ∧ u.run = v.run ∧
    u.attempt = some ⟨j, some message⟩

/-- A visit in the list of a run is retried when its answer is refused. -/
theorem Run.OnPass.retried {o : Options} {form : Form} {initial : Draft} {r : Run}
    {A : Nat → Draft → Json → Prop} {k : Nat} (hskips : form.SkipsByDraft o)
    (h : r.OnPass o form initial A k) {v : Visit} (hv : r.Shows o form v) (j : Json)
    (message : String) (m : Nat) (w : Session) :
    v.Retried o form j message (v.run.reject v.place j message)
      ((v.run.reject v.place j message).visits m form o w) := by
  obtain ⟨hf, hopen, hasks, horder, -⟩ := h.shows hskips hv
  have hretry : v.run.retry = none := by
    obtain ⟨entries, make, hseek⟩ := hv
    exact (attempt_of_seekFrom hseek).2.1
  have hsearch := horder.seek_reject hf hopen
    (fun a => (hskips _ (List.mem_of_getElem? hf) _ a none).trans hasks) hretry j message
  refine ⟨rfl, rfl, rfl, rfl, fun entries last hnothing => ?_, fun u hu => ?_⟩
  · rcases hsearch with ⟨_, _, _, hseek⟩ | ⟨_, _, hseek⟩
    · exact absurd (hnothing.symm.trans hseek) (by simp)
    · exact absurd (hnothing.symm.trans hseek) (by simp)
  · -- the next visit is the one that the search comes to
    rcases m with _ | m
    · exact absurd hu (by simp [visits])
    · rw [visits] at hu
      rcases hvisit : (v.run.reject v.place j message).visit? m form o w with _ | u'
      · rw [hvisit] at hu
        exact absurd hu (by simp)
      · rw [hvisit] at hu
        obtain rfl : u' = u := by simpa using hu
        obtain ⟨entries, make, hseek⟩ := shows_of_visit?_eq_some hvisit
        rcases hsearch with ⟨_, _, _, hseek'⟩ | ⟨_, _, hseek'⟩
        · exact absurd (hseek.symm.trans hseek') (by simp)
        · have heq := hseek.symm.trans hseek'
          simp only [Prod.mk.injEq, Found.step.injEq] at heq
          exact ⟨heq.2.2.1, heq.2.2.2.1, heq.2.1, heq.2.2.2.2.1⟩

/-! ## Forms run from the start -/

/-- The run that a form stops at when nothing is left to ask after all its visits. -/
def Form.StopsAt (form : Form) (n : Nat) (o : Options) (initial recent : Draft) (w : Session)
    (last : Run) : Prop :=
  ∃ first r entries, Run.start form initial recent = .ok first ∧
    Run.Leads o form first (form.visits n o initial recent w) r ∧
    r.seek o form = (entries, last, .nothing)

/-- **Every stored answer is one that its check accepts in the final context.** A form that
completes stops at a run in which the checks stand. An answer that is refused changes nothing in
the run, and its step is the next one to be shown. -/
theorem Form.checksStand_of_completed {form : Form} {o : Options} {initial recent : Draft} {n : Nat}
    {w : Session} (hform : form.Separate) (hskips : form.SkipsByDraft o) (hneat : initial.Neat) :
    (∀ d w', conductForm n form o initial recent w = (.done (.completed d), w') →
      ∃ last, form.StopsAt n o initial recent w last ∧ last.draft = d ∧
        last.ChecksStand o form initial) ∧
    ∀ before v after, form.visits n o initial recent w = before ++ v :: after →
      ∀ j message, v.refused? = some (j, message) →
        ∃ r w', v.settled o form = (.goesOn r, w') ∧ v.Retried o form j message r after := by
  constructor
  · intro d w' h
    obtain ⟨first, r, last, entries, hstart, hleads, hseek, hd, -⟩ := Form.leads_of_completed h
    obtain ⟨k, hr⟩ := hleads.onPass hform hskips hneat hstart
    exact ⟨last, ⟨first, r, entries, hstart, hleads, hseek⟩, hd,
      Run.checksStand_of_pass hform hleads (hr.nothing hskips hseek)⟩
  · intro before v after h j message hrefused
    obtain ⟨first, r, hstart, hleads, hshows, hafter⟩ := Form.leads_of_visits_eq h
    obtain ⟨k, hr⟩ := hleads.onPass hform hskips hneat hstart
    obtain ⟨w', hsettled⟩ := Visit.settled_of_refused hrefused o form
    obtain ⟨m, rfl⟩ := hafter _ _ hsettled
    exact ⟨_, w', hsettled, hr.retried hskips hshows j message m w'⟩

/-! ## A name and an alias

The alias must not be the name. The first alias is refused, and then the user goes back, changes the
name, and gives the same alias again. -/

/-- The field of the alias. Its answers are drawn from the second deck. -/
def Field.alias : Field :=
  { Field.asking (.ofText "alias") (.shaped .text) (.deck 1 0 false) with
    check := some fun answer d =>
      .now (if d.text? (.ofText "name") = answer.text? then some "This is the name." else none) }

/-- The form with a name and an alias. -/
def Form.naming : Form :=
  Form.empty
    |>.bind (.asking (.ofText "name") (.shaped .text) (.deck 0 0 false))
    |>.bind .alias

/-- The replies of the user who changes the name for the sake of the alias. -/
def Session.naming : Session :=
  { Session.new (.rehearsal []) with
    decks := [Deck.new "name" (.shaped .text) [.value (.text "ant"), .value (.text "bee")],
      Deck.new "alias" (.shaped .text)
        [.value (.text "ant"), .back, .value (.text "ant")]] }

example : (Form.naming.visits 10 .default .empty .empty .naming).map
      (fun v => (v.place, v.refused?.map Prod.snd)) =
    [(0, none), (1, some "This is the name."), (1, none), (0, none), (1, none)] := by
  decide

/-- The alias that was refused for the first name is stored beside the second one, and the check
accepts it there. Its refusal left the run at the alias. -/
theorem checksStand_of_naming :
    Form.naming.Separate ∧ Form.naming.SkipsByDraft .default ∧ Draft.empty.Neat ∧
    (∃ d w' last, conductForm 10 .naming .default .empty .empty .naming =
        (.done (.completed d), w') ∧
      Form.naming.StopsAt 10 .default .empty .empty .naming last ∧ last.draft = d ∧
      last.ChecksStand .default .naming .empty) ∧
    ∃ before v after message r w', Form.naming.visits 10 .default .empty .empty .naming =
        before ++ v :: after ∧ v.refused? = some (.text "ant", message) ∧
      v.settled .default .naming = (.goesOn r, w') ∧
      v.Retried .default .naming (.text "ant") message r after := by
  have hform : Form.naming.Separate := ⟨by decide, by decide⟩
  have hskips : Form.naming.SkipsByDraft .default :=
    ((Form.skipsByDraft_empty _).bind (Field.skipsByDraft_asking _ _ _ _)).bind fun _ _ _ => rfl
  obtain ⟨hcompleted, hrefused⟩ := @Form.checksStand_of_completed .naming .default .empty .empty 10
    .naming hform hskips Draft.neat_empty
  refine ⟨hform, hskips, Draft.neat_empty, ?_, ?_⟩
  · obtain ⟨last, hstops, hdraft, hstand⟩ := hcompleted _ _ rfl
    exact ⟨_, _, last, rfl, hstops, hdraft, hstand⟩
  · obtain ⟨r, w', hsettled, hretried⟩ := hrefused [_] _ _ rfl (.text "ant") "This is the name." rfl
    exact ⟨[_], _, _, _, r, w', rfl, rfl, hsettled, hretried⟩

end Interview
