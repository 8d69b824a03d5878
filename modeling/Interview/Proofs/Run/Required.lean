import Interview.Proofs.Draft.Below
import Interview.Proofs.Run.Reports
/-
What the check of the required fields can know before anything is asked.

A run is refused at its start when a required path is not there and no field is bound to it or above
it. The check is about the form and not about the draft, so it does not see that an answer below the
path would make the path as well. This file says what that amounts to: after such a refusal, the
answers to the form can bring the required path about just if some field is bound below it and
nothing stands in its way in the draft at the start. If not, the run is hopeless indeed.

Storing an answer never removes what stands in the way of the path: only a write above the path
could, and no field is bound there. That is the invariant of what answers make of a draft.
-/

set_option autoImplicit false

namespace Interview

/-- **What answers can make of a draft**: values other than null are stored at the paths of fields,
in any order and as often as it takes. -/
inductive Form.Fills (form : Form) (initial : Draft) : Draft → Prop
  | start : Fills form initial initial
  | store {d d' : Draft} {f : Field} {v : Json} (before : Fills form initial d)
    (field : f ∈ form.fields) (answer : v.isNull = false) (stores : d.set f.path v = .ok d') :
    Fills form initial d'

/-! ## What a draft contains -/

namespace Draft

variable {d : Draft} {p q : Path}

/-- A draft contains what is read in it, unless that is null. -/
theorem contains_iff : d.contains p = true ↔
    ∃ v, d.members.at? p.segments = some v ∧ v.isNull = false := by
  simp [contains, get?, Option.isSome_filter, Option.any_eq_true]

/-- Where a draft contains nothing, nothing is read in it but null. -/
theorem at?_of_contains_eq_false (h : d.contains p = false) :
    d.members.at? p.segments = none ∨ d.members.at? p.segments = some .null := by
  rcases hat : d.members.at? p.segments with _ | v
  · exact Or.inl rfl
  · refine Or.inr (congrArg some ?_)
    rcases hv : v.isNull with _ | _
    · rw [contains_iff.mpr ⟨v, hat, hv⟩] at h
      exact absurd h (by simp)
    · cases v with
      | null => rfl
      | _ => exact absurd hv (by simp [Json.isNull])

/-- A draft with something below a path contains the path. -/
theorem contains_of_prefix (hroot : p.isRoot = false) (hpq : q.startsWith p = true)
    (h : d.contains q = true) : d.contains p = true := by
  obtain ⟨u, hu⟩ := Path.exists_append_of_startsWith hpq
  obtain ⟨v, hat, hv⟩ := contains_iff.mp h
  rw [hu] at hat
  rcases u with _ | ⟨t, u⟩
  · rw [List.append_nil] at hat
    exact contains_iff.mpr ⟨v, hat, hv⟩
  · obtain ⟨inner, hat, -⟩ := (Members.at?_append_eq_some (Path.segments_ne_nil hroot)
      (List.cons_ne_nil t u)).mp hat
    exact contains_iff.mpr ⟨.object inner, hat, rfl⟩

/-- A path is not the root if it is free. -/
theorem Admits.not_root (h : d.Admits p) : p.isRoot = false := by
  rw [Path.isRoot, List.isEmpty_eq_false_iff]
  intro hnil
  rw [Admits, hnil] at h
  exact h

/-- Below a path that is free and has nothing, every path is free. -/
theorem Admits.below (h : d.Admits p) (hpq : q.startsWith p = true)
    (hnone : d.contains p = false) : d.Admits q := by
  obtain ⟨u, hu⟩ := Path.exists_append_of_startsWith hpq
  rw [Admits, hu]
  rcases u with _ | ⟨t, u⟩
  · rw [List.append_nil]
    exact h
  · refine (Members.admits_append (Path.segments_ne_nil h.not_root)
      (List.cons_ne_nil t u)).mpr ⟨h, ?_⟩
    exact (at?_of_contains_eq_false hnone).imp_right Or.inl

/-- Above a free path, every path is free but the root. -/
theorem Admits.above (h : d.Admits q) (hpq : q.startsWith p = true) (hroot : p.isRoot = false) :
    d.Admits p := by
  obtain ⟨u, hu⟩ := Path.exists_append_of_startsWith hpq
  rw [Admits, hu] at h
  exact Members.Admits.of_append (Path.segments_ne_nil hroot) h

end Draft

namespace Form

variable {form : Form} {initial d : Draft} {p : Path}

/-! ## Paths without a field above them -/

/-- **What answers bring about at a path that no field is bound to or above.** They do not free it,
and if they fill it then it was free from the start and a field is bound below it. The induction is
on the answers. -/
theorem Fills.unbound (hbound : form.isBound p = false) (hnone : initial.contains p = false)
    (h : form.Fills initial d) :
    (d.Admits p → initial.Admits p) ∧
      (d.contains p = true → initial.Admits p ∧ ∃ f ∈ form.fields, f.path.startsWith p = true) := by
  induction h with
  | start => exact ⟨id, fun hd => absurd (hnone.symm.trans hd) (by simp)⟩
  | @store d d' f v before hf hv hset ih =>
      obtain ⟨hadmits, hcontains⟩ := ih
      have hnot : p.startsWith f.path = false := by
        have hf' := List.any_eq_false.mp hbound f hf
        rwa [Bool.not_eq_true] at hf'
      rcases hbelow : f.path.startsWith p with _ | _
      · -- the write is apart from the path
        have happart : Apart f.path.segments p.segments :=
          Path.apart_of_overlaps (by rw [Path.overlaps, hbelow, hnot]; rfl)
        refine ⟨fun hd => hadmits (hd.of_set (Or.inr happart) hset), fun hd => hcontains ?_⟩
        rwa [Draft.contains, ← Draft.get?_eq_of_at?_eq (Draft.at?_set_of_apart happart hset)]
      · -- the write goes through the path, which must have been free
        have hfree : p.isRoot = false → initial.Admits p := fun hroot =>
          hadmits ((Draft.admits_of_set_eq_ok hset).above hbelow hroot)
        refine ⟨fun hd => hfree hd.not_root, fun hd => ⟨hfree ?_, f, hf, hbelow⟩⟩
        obtain ⟨w, hat, -⟩ := Draft.contains_iff.mp hd
        exact (show d'.Admits p from Members.admits_of_at?_eq_some hat).not_root

/-- **An answer below a free path fills the path.** -/
theorem exists_fills_of_below (hnone : initial.contains p = false) (hfree : initial.Admits p)
    {f : Field} (hf : f ∈ form.fields) (hbelow : f.path.startsWith p = true) :
    ∃ d, form.Fills initial d ∧ d.contains p = true := by
  obtain ⟨d, hset⟩ := Draft.exists_set_eq_ok (hfree.below hbelow hnone) (.text "")
  refine ⟨d, Fills.start.store hf rfl hset, Draft.contains_of_prefix hfree.not_root hbelow ?_⟩
  exact Draft.contains_iff.mpr ⟨.text "", Draft.at?_set_self hset, rfl⟩

/-! ## The refusal -/

variable {n : Nat} {o : Options} {recent : Draft} {w : Session}

/-- **A refusal before anything was asked** is that of the start. -/
theorem start_eq_error_of_unbound
    (hfails : (conductForm n form o initial recent w).1 = .failed (.unbound p))
    (hvisits : form.visits n o initial recent w = []) :
    Run.start form initial recent = .error (.unbound p) := by
  rcases n with _ | n
  · rw [conductForm] at hfails
    exact absurd hfails (by simp)
  rw [conductForm] at hfails
  rcases hstart : Run.start form initial recent with e | first
  · rw [hstart] at hfails
    exact congrArg Except.error (Outcome.failed.inj hfails)
  · -- the run came to its search, and a search without a step ends in another way
    rw [hstart] at hfails
    rw [visits_eq hstart] at hvisits
    rcases n with _ | n
    · simp only [conduct] at hfails
      exact absurd hfails (by simp)
    have hvisit : first.visit? n form o w = none := by
      rw [Run.visits] at hvisits
      split at hvisits
      · assumption
      · exact absurd hvisits (by simp)
    rcases Run.conduct_of_visit?_eq_none hvisit with
      ⟨entries, run, e, hseek, hconduct⟩ | ⟨entries, run, -, hconduct⟩
    · obtain ⟨_, _, _, -, -, rfl⟩ := Run.exists_of_seekFrom_eq_failed rfl hseek
      simp only [hconduct, Outcome.failed.injEq, reduceCtorEq] at hfails
    · simp only [hconduct, Run.conclude] at hfails
      split at hfails <;> simp at hfails

/-- What a run is refused for is required and not there, and no field is bound to it or above it. -/
theorem of_start_eq_error (h : Run.start form initial recent = .error (.unbound p)) :
    p ∈ form.required ∧ initial.contains p = false ∧ form.isBound p = false := by
  unfold Run.start at h
  split at h
  · rename_i q hq
    obtain rfl : q = p := RunError.unbound.inj (Except.error.inj h)
    have hmissing := List.find?_some hq
    simp only [Bool.and_eq_true, Bool.not_eq_true'] at hmissing
    exact ⟨List.mem_of_find?_eq_some hq, hmissing⟩
  · exact absurd h (by simp)

/-- **When a refusal is premature.** A run was refused for a required path before anything was asked.
Then answers to the form can bring the path about just if a field is bound below it and nothing
stands in its way at the start. -/
theorem exists_fills_iff_of_unbound
    (hfails : (conductForm n form o initial recent w).1 = .failed (.unbound p))
    (hvisits : form.visits n o initial recent w = []) :
    (∃ d, form.Fills initial d ∧ d.contains p = true) ↔
      initial.Admits p ∧ ∃ f ∈ form.fields, f.path.startsWith p = true := by
  obtain ⟨-, hnone, hbound⟩ := of_start_eq_error (start_eq_error_of_unbound hfails hvisits)
  constructor
  · rintro ⟨d, hd, hcontains⟩
    exact (hd.unbound hbound hnone).2 hcontains
  · rintro ⟨hfree, f, hf, hbelow⟩
    exact exists_fills_of_below hnone hfree hf hbelow

/-- A form that requires a port of the debugger, and asks for its number. -/
def debugging : Form :=
  Form.empty
    |>.bind (.asking (.ofText "debug.port.number") (.shaped .anything) .unanswered)
    |>.require (.ofText "debug.port")

end Form

/-- A start that has the debugger turned off, by a text where the port would go. -/
def Draft.debugging : Draft :=
  ⟨[("debug", .text "off")]⟩

/-- With nothing there at the start, the form of the debugger is refused, although an answer to it
would bring the port about. -/
theorem premature_of_debugging :
    (conductForm 10 .debugging .default .empty .empty .tour).1 =
      .failed (.unbound (.ofText "debug.port")) ∧
    Form.debugging.visits 10 .default .empty .empty .tour = [] ∧
    ¬∀ d, Form.debugging.Fills .empty d → d.contains (.ofText "debug.port") = false := by
  refine ⟨rfl, rfl, fun hopeless => ?_⟩
  obtain ⟨d, hd, hcontains⟩ : ∃ d, Form.debugging.Fills .empty d ∧
      d.contains (.ofText "debug.port") = true :=
    Form.exists_fills_of_below rfl trivial List.mem_cons_self (by decide)
  rw [hopeless d hd] at hcontains
  exact absurd hcontains Bool.false_ne_true

/-- With the debugger turned off, the refusal is right: no answer brings the port about. -/
theorem hopeless_of_debugging :
    (conductForm 10 .debugging .default .debugging .empty .tour).1 =
      .failed (.unbound (.ofText "debug.port")) ∧
    Form.debugging.visits 10 .default .debugging .empty .tour = [] ∧
    ∀ d, Form.debugging.Fills .debugging d → d.contains (.ofText "debug.port") = false := by
  refine ⟨rfl, rfl, fun d hd => ?_⟩
  rcases hcontains : d.contains (.ofText "debug.port") with _ | _
  · rfl
  · obtain ⟨hfree, -⟩ := (@Form.exists_fills_iff_of_unbound .debugging .debugging
      (.ofText "debug.port") 10 .default .empty .tour rfl rfl).mp ⟨d, hd, hcontains⟩
    exact hfree.elim

end Interview
