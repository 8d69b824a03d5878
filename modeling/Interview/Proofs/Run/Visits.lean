import Interview.Conduct
/-
Visits: what a run looks like from its steps.

Conducting a run is a loop over the steps it shows, and everything that is said about a run
is said about these steps or about the runs between them. This file cuts the loop into its
turns. A `Visit` is one turn: the run as the step is shown, the field, the attempt that is
offered again, and what the question came to. `Run.visits` lists the visits of a run in the
order in which the loop makes them, and `Run.Leads` is the same walk as a relation, in which
the replies are whatever they are.

The relation is what inductions go over. A property of runs that the start has and that every
visit keeps is a property of every run that a visit is shown in (`Run.Leads.of_mem_visits`),
and of the run that a completed interview stops at (`Run.Leads.of_completed`).
-/

set_option autoImplicit false

namespace Interview

/-- The fields of a form with one more field are that field and those of the form. -/
theorem Form.mem_fields_bind {form : Form} {f g : Field} (h : g ∈ (form.bind f).fields) :
    g = f ∨ g ∈ form.fields := by
  simp only [Form.bind] at h
  split at h
  · obtain ⟨g₀, hg₀, rfl⟩ := List.mem_map.mp h
    split
    · exact Or.inl rfl
    · exact Or.inr hg₀
  · rcases List.mem_append.mp h with h | h
    · exact Or.inr h
    · exact Or.inl (List.mem_singleton.mp h)

/-- Fields with different paths are all kept, in order. -/
theorem Form.fields_foldl_bind {fields : List Field} {form : Form}
    (h : (form.fields ++ fields).Pairwise fun f g => f.path ≠ g.path) :
    (fields.foldl Form.bind form).fields = form.fields ++ fields := by
  induction fields generalizing form with
  | nil => rw [List.foldl_nil, List.append_nil]
  | cons f rest ih =>
      have hnew : ∀ g ∈ form.fields, g.path ≠ f.path := fun g hg =>
        (List.pairwise_append.mp h).2.2 g hg f List.mem_cons_self
      have hbind : (form.bind f).fields = form.fields ++ [f] := by
        simp only [Form.bind]
        rw [if_neg]
        simpa using hnew
      have hsplit : form.fields ++ f :: rest = (form.bind f).fields ++ rest := by
        rw [hbind, List.append_assoc, List.singleton_append]
      rw [List.foldl_cons, hsplit]
      exact ih (hsplit ▸ h)

/-! ## One visit -/

/-- A step that a run shows, and what its question came to. -/
structure Visit where
  /-- The run as it is when the step is shown. -/
  run : Run
  /-- The place of the field in the form. -/
  place : Nat
  field : Field
  /-- The attempt that is offered again. -/
  attempt : Option (Attempt Json)
  outcome : Outcome (Reply Json)
  /-- The session in which the outcome is settled. -/
  session : Session

namespace Visit

/-- What settling the outcome of the question leads to. -/
def settled (v : Visit) (o : Options) (form : Form) : Course × Session :=
  v.run.settle o form v.place v.field v.outcome v.session

/-- The answer that the visit brought, in the form in which it is stored, if the question was
answered and the answer was accepted. -/
def accepted? (v : Visit) : Option Json :=
  match v.outcome with
  | .done (.value answer) =>
    match v.field.type.encode answer with
    | .ok j =>
      match weigh v.field j v.run.draft v.session with
      | (.accepted, _) => some j
      | _ => none
    | .error _ => none
  | _ => none

end Visit

namespace Run

/-- The step that a run shows next, if there is one, with its question asked. -/
def visit? (n : Nat) (form : Form) (o : Options) (r : Run) (w : Session) : Option Visit :=
  match r.seek o form with
  | (entries, run, .step place field attempt make) =>
    let (q, w) := run.present o form place field attempt make (w.emit entries)
    let (outcome, q, w) := q.ask n w
    some ⟨run, place, field, attempt, outcome, (q.dispose w).2⟩
  | _ => none

/-- The visits of a run, in order. -/
def visits : Nat → Form → Options → Run → Session → List Visit
  | 0, _, _, _, _ => []
  | n + 1, form, o, r, w =>
    match r.visit? n form o w with
    | none => []
    | some v =>
      v ::
        match v.settled o form with
        | (.goesOn r, w) => visits n form o r w
        | (.ends _, _) => []

/-- The search of a run comes to the step of a visit. -/
def Shows (o : Options) (form : Form) (r : Run) (v : Visit) : Prop :=
  ∃ entries make, r.seek o form = (entries, v.run, .step v.place v.field v.attempt make)

/-- A run comes to another by some visits, whatever they brought. -/
inductive Leads (o : Options) (form : Form) (first : Run) : List Visit → Run → Prop
  /-- No visit leaves the run as it is. -/
  | start : Leads o form first [] first
  /-- One more step is shown, and its outcome lets the run go on. -/
  | next {vs : List Visit} {r r' : Run} {v : Visit} {w : Session} (before : Leads o form first vs r)
    (shows : r.Shows o form v) (goesOn : v.settled o form = (.goesOn r', w)) :
    Leads o form first (vs ++ [v]) r'

end Run

/-- The visits of a form that is run from the start. -/
def Form.visits (n : Nat) (form : Form) (o : Options) (initial recent : Draft) (w : Session) :
    List Visit :=
  match n, Run.start form initial recent with
  | n + 1, .ok run => run.visits n form o w
  | _, _ => []

namespace Run

variable {n : Nat} {form : Form} {o : Options} {r : Run} {v : Visit} {w : Session}

theorem shows_of_visit?_eq_some (h : r.visit? n form o w = some v) : r.Shows o form v := by
  unfold visit? at h
  split at h
  · rename_i entries run place field attempt make hseek
    rw [Option.some.injEq] at h
    subst h
    exact ⟨entries, make, hseek⟩
  · exact absurd h (by simp)

/-! ## The loop, turn by turn -/

/-- **A turn with a visit.** The loop goes on with the run that the visit leads to. -/
theorem conduct_of_visit?_eq_some (h : r.visit? n form o w = some v) :
    conduct (n + 1) form o r w =
      match v.settled o form with
      | (.ends e, w) => (e, w)
      | (.goesOn r, w) => conduct n form o r w := by
  unfold visit? at h
  rw [conduct]
  split at h
  · rename_i entries run place field attempt make hseek
    rw [Option.some.injEq] at h
    subst h
    rw [hseek]
    rfl
  · exact absurd h (by simp)

/-- **A turn without a visit** is the last one: the search failed, or there is nothing left to
ask. -/
theorem conduct_of_visit?_eq_none (h : r.visit? n form o w = none) :
    (∃ entries run e, r.seek o form = (entries, run, .failed e) ∧
      conduct (n + 1) form o r w = (.failed e, w.emit entries)) ∨
    ∃ entries run, r.seek o form = (entries, run, .nothing) ∧
      conduct (n + 1) form o r w = run.conclude o form (w.emit entries) := by
  unfold visit? at h
  rw [conduct]
  rcases hseek : r.seek o form with ⟨entries, run, _ | e | ⟨place, field, attempt, make⟩⟩
  · exact Or.inr ⟨entries, run, rfl, rfl⟩
  · exact Or.inl ⟨entries, run, e, rfl, rfl⟩
  · rw [hseek] at h
    exact absurd h (by simp)

/-! ## From the list to the relation -/

variable {first : Run} {past : List Visit}

/-- **Every visit in the list is shown in a run that the visits before it lead to.** The induction
is on the bound of the loop, with the run and the session of each turn as they come. -/
theorem Leads.of_mem_visits (hpast : Leads o form first past r) (hv : v ∈ r.visits n form o w) :
    ∃ (before after : List Visit) (r' : Run), r.visits n form o w = before ++ v :: after ∧
      Leads o form first (past ++ before) r' ∧ r'.Shows o form v ∧
      ∃ m w', r'.visit? m form o w' = some v := by
  induction n generalizing r w past with
  | zero => exact absurd hv List.not_mem_nil
  | succ n ih =>
      rw [visits] at hv ⊢
      cases hvisit : r.visit? n form o w with
      | none =>
          rw [hvisit] at hv
          exact absurd hv List.not_mem_nil
      | some u =>
          have hshows := shows_of_visit?_eq_some hvisit
          rw [hvisit] at hv
          rcases List.mem_cons.mp hv with rfl | hv
          · exact ⟨[], _, r, rfl, by rwa [List.append_nil], hshows, n, w, hvisit⟩
          · rcases hsettled : u.settled o form with ⟨_ | r₂, w₂⟩
            · rw [hsettled] at hv
              exact absurd hv List.not_mem_nil
            · rw [hsettled] at hv
              obtain ⟨before, after, r', hsplit, hleads, hrest⟩ :=
                ih (hpast.next hshows hsettled) hv
              refine ⟨u :: before, after, r', ?_, ?_, hrest⟩
              · simp only [hsettled, hsplit, List.cons_append]
              · rwa [List.append_assoc] at hleads

/-- **A visit in the list, and those after it.** The visits after one that lets the run go on are
those of the run that it leads to. -/
theorem Leads.of_visits_eq {before after : List Visit} (hpast : Leads o form first past r)
    (h : r.visits n form o w = before ++ v :: after) :
    ∃ r', Leads o form first (past ++ before) r' ∧ r'.Shows o form v ∧
      ∀ next w', v.settled o form = (.goesOn next, w') → ∃ m, after = next.visits m form o w' := by
  induction n generalizing r w past before with
  | zero => exact absurd h (by simp [visits])
  | succ n ih =>
      rw [visits] at h
      cases hvisit : r.visit? n form o w with
      | none =>
          rw [hvisit] at h
          exact absurd h (by simp)
      | some u =>
          have hshows := shows_of_visit?_eq_some hvisit
          rw [hvisit] at h
          rcases before with _ | ⟨u', before⟩
          · -- the first visit
            obtain ⟨rfl, hafter⟩ := List.cons.inj h
            refine ⟨r, by rwa [List.append_nil], hshows, fun next w' hgoes => ⟨n, ?_⟩⟩
            rw [← hafter, hgoes]
          · obtain ⟨rfl, hrest⟩ := List.cons.inj h
            rcases hsettled : u.settled o form with ⟨_ | r₂, w₂⟩
            · rw [hsettled] at hrest
              exact absurd hrest (by simp)
            · rw [hsettled] at hrest
              obtain ⟨r', hleads, hrest⟩ := ih (hpast.next hshows hsettled) hrest
              exact ⟨r', by rwa [List.append_assoc] at hleads, hrest⟩

/-- What a run that concludes as completed knows about its draft. -/
theorem conclude_eq_completed {d : Draft} {w' : Session}
    (h : r.conclude o form w = (.done (.completed d), w')) :
    r.draft = d ∧ r.missing? form = none := by
  unfold conclude at h
  split at h
  · simp at h
  · rename_i hmissing
    simp only [Prod.mk.injEq, Outcome.done.injEq, Ending.completed.injEq] at h
    exact ⟨h.1, hmissing⟩

/-- Settling never completes a run: only a search that finds nothing does. -/
theorem settled_ne_completed {d : Draft} {w' : Session} :
    v.settled o form ≠ (.ends (.done (.completed d)), w') := by
  unfold Visit.settled settle settleAnswer settleBack
  grind

/-- **A completed interview was led by all its visits to a run in which nothing is left to ask**,
and the draft of that run is the one it completed with. -/
theorem Leads.of_completed {d : Draft} {w' : Session} (hpast : Leads o form first past r)
    (h : conduct n form o r w = (.done (.completed d), w')) :
    ∃ (r' last : Run) (entries : List Entry),
      Leads o form first (past ++ r.visits n form o w) r' ∧
      r'.seek o form = (entries, last, .nothing) ∧ last.draft = d ∧ last.missing? form = none := by
  induction n generalizing r w past with
  | zero =>
      rw [conduct] at h
      simp at h
  | succ n ih =>
      rw [visits]
      cases hvisit : r.visit? n form o w with
      | none =>
          rcases conduct_of_visit?_eq_none hvisit with
            ⟨_, _, _, -, heq⟩ | ⟨entries, last, hseek, heq⟩
          · rw [heq] at h
            simp at h
          · rw [heq] at h
            obtain ⟨hd, hmissing⟩ := conclude_eq_completed h
            exact ⟨r, last, entries, by rwa [List.append_nil], hseek, hd, hmissing⟩
      | some u =>
          rw [conduct_of_visit?_eq_some hvisit] at h
          rcases hsettled : u.settled o form with ⟨e | r₂, w₂⟩
          · rw [hsettled] at h
            simp only [Prod.mk.injEq] at h
            rw [h.1] at hsettled
            exact absurd hsettled settled_ne_completed
          · rw [hsettled] at h
            obtain ⟨r', last, entries, hleads, hrest⟩ :=
              ih (hpast.next (shows_of_visit?_eq_some hvisit) hsettled) h
            refine ⟨r', last, entries, ?_, hrest⟩
            simpa only [hsettled, List.append_assoc, List.singleton_append] using hleads

end Run

/-! ## Forms run from the start -/

namespace Form

variable {n : Nat} {form : Form} {o : Options} {initial recent : Draft} {w : Session}

/-- The visits of a form are those of the run that it starts with. -/
theorem visits_eq {first : Run} (hstart : Run.start form initial recent = .ok first) :
    form.visits (n + 1) o initial recent w = first.visits n form o w := by
  unfold visits
  simp only [hstart]

/-- **Every visit of a form** is shown in a run that the start leads to. -/
theorem leads_of_mem_visits {v : Visit} (hv : v ∈ form.visits n o initial recent w) :
    ∃ first r before, Run.start form initial recent = .ok first ∧ Run.Leads o form first before r ∧
      r.Shows o form v := by
  rcases n with _ | n
  · exact absurd hv List.not_mem_nil
  · rcases hstart : Run.start form initial recent with e | first
    · unfold visits at hv
      simp only [hstart] at hv
      exact absurd hv List.not_mem_nil
    · rw [visits_eq hstart] at hv
      obtain ⟨before, _, r, -, hleads, hshows, -⟩ := Run.Leads.of_mem_visits .start hv
      exact ⟨first, r, before, rfl, hleads, hshows⟩

/-- A visit of a form, and those after it. -/
theorem leads_of_visits_eq {v : Visit} {before after : List Visit}
    (h : form.visits n o initial recent w = before ++ v :: after) :
    ∃ first r, Run.start form initial recent = .ok first ∧ Run.Leads o form first before r ∧
      r.Shows o form v ∧
      ∀ next w', v.settled o form = (.goesOn next, w') → ∃ m, after = next.visits m form o w' := by
  rcases n with _ | n
  · exact absurd h (by simp [visits])
  · rcases hstart : Run.start form initial recent with e | first
    · unfold visits at h
      simp only [hstart] at h
      exact absurd h (by simp)
    · rw [visits_eq hstart] at h
      obtain ⟨r, hrest⟩ := Run.Leads.of_visits_eq .start h
      exact ⟨first, r, rfl, hrest⟩

/-- **A form that completes** was led by its visits from the start to a run in which nothing is left
to ask. -/
theorem leads_of_completed {d : Draft} {w' : Session}
    (h : conductForm n form o initial recent w = (.done (.completed d), w')) :
    ∃ first r last entries, Run.start form initial recent = .ok first ∧
      Run.Leads o form first (form.visits n o initial recent w) r ∧
      r.seek o form = (entries, last, .nothing) ∧ last.draft = d ∧ last.missing? form = none := by
  rcases n with _ | n
  · rw [conductForm] at h
    exact absurd h (by simp)
  · rw [conductForm] at h
    rcases hstart : Run.start form initial recent with e | first
    · rw [hstart] at h
      exact absurd h (by simp)
    · rw [hstart] at h
      rw [visits_eq hstart]
      obtain ⟨r, last, entries, hleads, hrest⟩ := Run.Leads.of_completed .start h
      exact ⟨first, r, last, entries, rfl, hleads, hrest⟩

end Form

/-! ## A short tour

Three fields, of which the second is filled from the start. The user goes back from the third to
the first, changes the answer there and answers the third. -/

/-- The form of the tour. Each question draws its replies from a deck. -/
def Form.tour : Form :=
  Form.empty
    |>.bind (.asking (.ofText "target.name") (.shaped .text) (.deck 0 0 false))
    |>.bind (.asking (.ofText "runtime") (.shaped .text) .unanswered)
    |>.bind (.asking (.ofText "target.handler") (.shaped .text) (.deck 1 0 false))

/-- The start of the tour. -/
def Draft.tour : Draft :=
  ⟨[("runtime", .text "java21")]⟩

/-- The replies on the tour. -/
def Session.tour : Session :=
  { Session.new (.rehearsal []) with
    decks := [Deck.new "name" (.shaped .text) [.value (.text "first"), .value (.text "second")],
      Deck.new "handler" (.shaped .text) [.back, .value (.text "main")]] }

example : (Form.tour.visits 10 .default .tour .empty .tour).map Visit.place = [0, 2, 0, 2] := by
  decide

end Interview
