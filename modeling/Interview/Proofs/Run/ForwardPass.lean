import Interview.Proofs.Draft.Undo
import Interview.Proofs.Run.Order
/-
Going back leaves no trace.

A run that never goes back fills its form in one pass over the fields: what the start fills is
left alone, what has nothing to ask is left out, and every other field gets its answer. The
claim of this file is that any run, however often the user goes back, ends with the draft of
such a pass, made with the last accepted answer for every field.

The invariant says that the draft of the run, at its frontier, is the draft of the pass up to
there (`Pass`). Answers, refusals and searches carry the pass on. Going back is the point: the
draft of a pass whose last answer was at a field is that of the pass up to this field with one
write on top (`Pass.before_last`), so a reset takes the run back to the earlier pass. The
fields after it have what they had at the start, and resetting them changes nothing.
-/

set_option autoImplicit false

namespace Interview

/-- The path of every field that the start leaves open is tidy there, so an answer for the field
can be taken back without a trace. -/
def Form.OpensTidy (form : Form) (initial : Draft) : Prop :=
  ∀ f ∈ form.fields, f.isFilled initial = false → initial.Tidy f.path

theorem Draft.Neat.opensTidy {d : Draft} (h : d.Neat) (form : Form) : form.OpensTidy d :=
  fun f _ _ => h.tidy f.path

/-! ## Passes -/

/-- A pass over the fields before a place, with the places that were answered in it and the draft
it has made. `A` says which answers it may store at a place, in view of the draft there. -/
inductive Pass (o : Options) (form : Form) (initial : Draft) (A : Nat → Draft → Json → Prop) :
    Nat → List Nat → Draft → Prop
  | start : Pass o form initial A 0 [] initial
  /-- A field that the start fills is left alone. -/
  | kept {k : Nat} {hs : List Nat} {d : Draft} {f : Field} (before : Pass o form initial A k hs d)
    (field : form.fields[k]? = some f) (filled : f.isFilled initial = true) :
    Pass o form initial A (k + 1) hs d
  /-- A field that has nothing to ask is left out. -/
  | skipped {k : Nat} {hs : List Nat} {d : Draft} {f : Field}
    (before : Pass o form initial A k hs d) (field : form.fields[k]? = some f)
    (unfilled : f.isFilled initial = false) (declines : f.declines o d none = true) :
    Pass o form initial A (k + 1) hs d
  /-- Every other field gets an answer. -/
  | stored {k : Nat} {hs : List Nat} {d d' : Draft} {f : Field} {v : Json}
    (before : Pass o form initial A k hs d) (field : form.fields[k]? = some f)
    (unfilled : f.isFilled initial = false) (asks : f.declines o d none = false)
    (answer : A k d v) (stores : d.set f.path v = .ok d') :
    Pass o form initial A (k + 1) (hs ++ [k]) d'

namespace Pass

variable {o : Options} {form : Form} {initial d : Draft} {A A' : Nat → Draft → Json → Prop}
variable {k : Nat} {hs : List Nat}

/-- Only the answers before the place count. -/
theorem mono (h : Pass o form initial A k hs d) (hA : ∀ j d v, j < k → A j d v → A' j d v) :
    Pass o form initial A' k hs d := by
  induction h with
  | start => exact .start
  | kept _ hf hfilled ih =>
      exact (ih fun j d v hj => hA j d v (Nat.lt_succ_of_lt hj)).kept hf hfilled
  | skipped _ hf hunfilled hdeclines ih =>
      exact (ih fun j d v hj => hA j d v (Nat.lt_succ_of_lt hj)).skipped hf hunfilled hdeclines
  | stored _ hf hunfilled hasks hanswer hset ih =>
      exact (ih fun j d v hj => hA j d v (Nat.lt_succ_of_lt hj)).stored hf hunfilled hasks
        (hA _ _ _ (Nat.lt_succ_self _) hanswer) hset

/-- A pass does not go beyond the last field. -/
theorem le_length (h : Pass o form initial A k hs d) : k ≤ form.fields.length := by
  cases h with
  | start => exact Nat.zero_le _
  | kept _ hf _ => exact (List.getElem?_eq_some_iff.mp hf).1
  | skipped _ hf _ _ => exact (List.getElem?_eq_some_iff.mp hf).1
  | stored _ hf _ _ _ _ => exact (List.getElem?_eq_some_iff.mp hf).1

/-- **A pass does not touch the fields it has no answer for**, and a path that was tidy at the
start of such a field stays tidy. -/
theorem frame (hform : form.Separate) (h : Pass o form initial A k hs d)
    {j : Nat} {g : Field} (htidy : initial.Tidy g.path) (hg : form.fields[j]? = some g)
    (hj : j ∉ hs) :
    d.members.at? g.path.segments = initial.members.at? g.path.segments ∧ d.Tidy g.path := by
  induction h with
  | start => exact ⟨rfl, htidy⟩
  | kept _ _ _ ih => exact ih hj
  | skipped _ _ _ _ ih => exact ih hj
  | @stored k hs d d' f v _ hf _ _ _ hset ih =>
      have hkj : k ≠ j := by
        rintro rfl
        exact hj (List.mem_append_right _ (List.mem_singleton_self k))
      have happart := hform.apart hf hg hkj
      obtain ⟨hat, htidy⟩ := ih fun hmem => hj (List.mem_append_left _ hmem)
      exact ⟨(Draft.at?_set_of_apart happart hset).trans hat, htidy.set happart hset⟩

/-- **A pass up to its last answer.** What came after that answer left the draft alone. -/
theorem before_last {e : Nat} (h : Pass o form initial A k (hs ++ [e]) d) :
    ∃ f d₀ v, form.fields[e]? = some f ∧ Pass o form initial A e hs d₀ ∧
      f.declines o d₀ none = false ∧ d₀.set f.path v = .ok d := by
  generalize hall : hs ++ [e] = all at h
  induction h with
  | start => exact absurd hall (by simp)
  | kept _ _ _ ih => exact ih hall
  | skipped _ _ _ _ ih => exact ih hall
  | @stored k hs₁ d₀ d' f v before hf _ hasks _ hset _ =>
      obtain ⟨rfl, hlast⟩ := List.append_inj' hall rfl
      obtain rfl : e = k := by simpa using hlast
      exact ⟨f, d₀, v, hf, before, hasks, hset⟩

/-! ### Reading a pass -/

/-- Only places before the end of the pass were answered. -/
theorem lt_of_mem (h : Pass o form initial A k hs d) {j : Nat} (hj : j ∈ hs) : j < k := by
  induction h with
  | start => exact absurd hj List.not_mem_nil
  | kept _ _ _ ih => exact Nat.lt_succ_of_lt (ih hj)
  | skipped _ _ _ _ ih => exact Nat.lt_succ_of_lt (ih hj)
  | stored _ _ _ _ _ _ ih =>
      rcases List.mem_append.mp hj with hj | hj
      · exact Nat.lt_succ_of_lt (ih hj)
      · exact List.mem_singleton.mp hj ▸ Nat.lt_succ_self _

/-- What was filled from the start is not answered in a pass. -/
theorem unfilled_of_mem (h : Pass o form initial A k hs d) {j : Nat} {f : Field} (hj : j ∈ hs)
    (hf : form.fields[j]? = some f) : f.isFilled initial = false := by
  induction h with
  | start => exact absurd hj List.not_mem_nil
  | kept _ _ _ ih => exact ih hj
  | skipped _ _ _ _ ih => exact ih hj
  | stored _ hg hunfilled _ _ _ ih =>
      rcases List.mem_append.mp hj with hj | hj
      · exact ih hj
      · rw [List.mem_singleton.mp hj, hg, Option.some.injEq] at hf
        exact hf ▸ hunfilled

/-- A pass does not touch a path that is apart from those of the answered fields. -/
theorem at?_of_apart (h : Pass o form initial A k hs d) {q : List String}
    (hq : ∀ j ∈ hs, ∀ f, form.fields[j]? = some f → Apart f.path.segments q) :
    d.members.at? q = initial.members.at? q := by
  induction h with
  | start => rfl
  | kept _ _ _ ih => exact ih hq
  | skipped _ _ _ _ ih => exact ih hq
  | @stored k hs d d' f v _ hf _ _ _ hset ih =>
      have happart := hq k (List.mem_append_right _ (List.mem_singleton_self k)) f hf
      obtain ⟨-, hset⟩ := Draft.set_eq_ok hset
      rw [Members.at?_set?_of_apart happart hset]
      exact ih fun j hj => hq j (List.mem_append_left _ hj)

/-- What a pass has done at a field, in view of the draft `d₀` that it had there. -/
def At (o : Options) (initial : Draft) (A : Nat → Draft → Json → Prop) (hs : List Nat)
    (d d₀ : Draft) (j : Nat) (f : Field) : Prop :=
  (j ∉ hs ∧ (f.isFilled initial = true ∨ f.declines o d₀ none = true)) ∨
    (j ∈ hs ∧ f.declines o d₀ none = false ∧
      ∃ v, A j d₀ v ∧ d.members.at? f.path.segments = some v)

/-- Nothing but answers before the place were given in a pass up to it. -/
theorem filter_lt_eq (h : Pass o form initial A k hs d) : hs.filter (fun i => decide (i < k)) = hs :=
  List.filter_eq_self.mpr fun _ hi => decide_eq_true (h.lt_of_mem hi)

/-- **Reading a pass at a field.** The draft that the pass had there is that of the pass up to the
field, and it agrees with the last one on all fields before. -/
theorem read (hform : form.Separate) (h : Pass o form initial A k hs d) {j : Nat} {f : Field}
    (hj : j < k) (hf : form.fields[j]? = some f) :
    ∃ d₀, Pass o form initial A j (hs.filter (fun i => decide (i < j))) d₀ ∧
      (∀ i g, i < j → form.fields[i]? = some g →
        d₀.members.at? g.path.segments = d.members.at? g.path.segments) ∧
      At o initial A hs d d₀ j f := by
  have hlast : ∀ {k hs d}, Pass o form initial A k hs d → k ∉ hs := fun h hmem =>
    Nat.lt_irrefl _ (h.lt_of_mem hmem)
  induction h with
  | start => exact absurd hj (Nat.not_lt_zero j)
  | @kept k hs d g before hg hfilled ih =>
      rcases Nat.lt_succ_iff_lt_or_eq.mp hj with hlt | rfl
      · exact ih hlt
      · rw [hf, Option.some.injEq] at hg
        exact ⟨d, before.filter_lt_eq.symm ▸ before, fun _ _ _ _ => rfl,
          Or.inl ⟨hlast before, Or.inl (hg ▸ hfilled)⟩⟩
  | @skipped k hs d g before hg _ hdeclines ih =>
      rcases Nat.lt_succ_iff_lt_or_eq.mp hj with hlt | rfl
      · exact ih hlt
      · rw [hf, Option.some.injEq] at hg
        exact ⟨d, before.filter_lt_eq.symm ▸ before, fun _ _ _ _ => rfl,
          Or.inl ⟨hlast before, Or.inr (hg ▸ hdeclines)⟩⟩
  | @stored k hs d d' g v before hg _ hasks hanswer hset ih =>
      have hother : ∀ {i f'}, i < k → form.fields[i]? = some f' →
          d'.members.at? f'.path.segments = d.members.at? f'.path.segments := fun hi hf' =>
        Draft.at?_set_of_apart (hform.apart hg hf' (Nat.ne_of_gt hi)) hset
      -- the new answer is not before the field
      have hfilter : (hs ++ [k]).filter (fun i => decide (i < j)) =
          hs.filter (fun i => decide (i < j)) := by
        rw [List.filter_append, List.filter_cons_of_neg, List.filter_nil, List.append_nil]
        simpa using Nat.le_of_lt_succ hj
      rw [hfilter]
      rcases Nat.lt_succ_iff_lt_or_eq.mp hj with hlt | rfl
      · -- an earlier field: what the later answer wrote is apart from it
        obtain ⟨d₀, hpass, hbefore, hat⟩ := ih hlt
        refine ⟨d₀, hpass, fun i f' hi hf' => ?_, ?_⟩
        · rw [hother (Nat.lt_trans hi hlt) hf']
          exact hbefore i f' hi hf'
        · rcases hat with ⟨hnew, hreason⟩ | ⟨hmem, hasks', v', hv', hread⟩
          · refine Or.inl ⟨fun hmem => ?_, hreason⟩
            rcases List.mem_append.mp hmem with hmem | hmem
            · exact hnew hmem
            · exact absurd (List.mem_singleton.mp hmem) (Nat.ne_of_lt hlt)
          · exact Or.inr ⟨List.mem_append_left _ hmem, hasks', v', hv',
              (hother hlt hf).trans hread⟩
      · -- the field at hand: the draft before its answer is the one it was answered for
        rw [hf, Option.some.injEq] at hg
        refine ⟨d, before.filter_lt_eq.symm ▸ before, fun i f' hi hf' => (hother hi hf').symm,
          Or.inr ⟨?_, ?_, v, hanswer, ?_⟩⟩
        · exact List.mem_append_right _ (List.mem_singleton_self j)
        · rw [hg]
          exact hasks
        · rw [hg]
          exact Draft.at?_set_self hset

end Pass

/-! ## The last accepted answer -/

/-- The last visit of a field that brought an accepted answer. -/
def lastAccepted? (vs : List Visit) (i : Nat) : Option Visit :=
  vs.reverse.find? fun v => v.place = i && v.accepted?.isSome

/-- The last accepted answer for a field. -/
def lastAnswer? (vs : List Visit) (i : Nat) : Option Json :=
  (lastAccepted? vs i).bind Visit.accepted?

/-- An accepted answer is the last one for its field. -/
theorem lastAnswer?_of_accepted {vs : List Visit} {v : Visit} {j : Json}
    (h : v.accepted? = some j) : lastAnswer? (vs ++ [v]) v.place = some j := by
  simp [lastAnswer?, lastAccepted?, h]

/-- A visit that brought no accepted answer for a field leaves the last one. -/
theorem lastAnswer?_append {vs : List Visit} {v : Visit} {i : Nat}
    (h : ¬(v.place = i ∧ v.accepted?.isSome = true)) :
    lastAnswer? (vs ++ [v]) i = lastAnswer? vs i := by
  rw [lastAnswer?, lastAccepted?, List.reverse_append, List.reverse_singleton,
    List.singleton_append, List.find?_cons_of_neg (by simpa using h)]
  rfl

/-- The last accepted answer for a field was brought by a visit of it. -/
theorem exists_of_lastAnswer?_eq_some {vs : List Visit} {i : Nat} {j : Json}
    (h : lastAnswer? vs i = some j) :
    ∃ v ∈ vs, lastAccepted? vs i = some v ∧ v.place = i ∧ v.accepted? = some j := by
  obtain ⟨v, hv, hj⟩ := Option.bind_eq_some_iff.mp h
  have hplace := List.find?_some hv
  simp only [Bool.and_eq_true, decide_eq_true_eq] at hplace
  exact ⟨v, List.mem_reverse.mp (List.mem_of_find?_eq_some hv), hv, hplace.1, hj⟩

/-- The last accepted answer for a field was given for this draft, and is this value. -/
def LastAnswered (vs : List Visit) (i : Nat) (d : Draft) (j : Json) : Prop :=
  ∃ v, lastAccepted? vs i = some v ∧ v.run.draft = d ∧ v.accepted? = some j

theorem LastAnswered.lastAnswer?_eq {vs : List Visit} {i : Nat} {d : Draft} {j : Json}
    (h : LastAnswered vs i d j) : lastAnswer? vs i = some j := by
  obtain ⟨v, hv, -, hj⟩ := h
  rw [lastAnswer?, hv, Option.bind_some, hj]

/-- A visit of another field changes nothing. -/
theorem LastAnswered.append {vs : List Visit} {i : Nat} {d : Draft} {j : Json} {v : Visit}
    (h : LastAnswered vs i d j) (hv : v.place ≠ i) : LastAnswered (vs ++ [v]) i d j := by
  obtain ⟨u, hu, hrest⟩ := h
  refine ⟨u, ?_, hrest⟩
  rw [lastAccepted?, List.reverse_append, List.reverse_singleton, List.singleton_append,
    List.find?_cons_of_neg]
  · exact hu
  · simp [hv]

/-- An accepted answer is the last one. -/
theorem lastAnswered_append {vs : List Visit} {v : Visit} {j : Json}
    (h : v.accepted? = some j) : LastAnswered (vs ++ [v]) v.place v.run.draft j := by
  refine ⟨v, ?_, rfl, h⟩
  rw [lastAccepted?, List.reverse_append, List.reverse_singleton, List.singleton_append,
    List.find?_cons_of_pos]
  simp [h]

/-! ## The invariant -/

/-- Whether the field has something to ask depends on the draft, and not on the answer that it would
offer again. -/
def Field.SkipsByDraft (f : Field) (o : Options) : Prop :=
  ∀ d a b, f.declines o d a = f.declines o d b

/-- Every field is left out by the draft alone. -/
def Form.SkipsByDraft (form : Form) (o : Options) : Prop :=
  ∀ f ∈ form.fields, f.SkipsByDraft o

theorem Form.skipsByDraft_empty (o : Options) : Form.empty.SkipsByDraft o :=
  fun _ hf => absurd hf List.not_mem_nil

theorem Form.SkipsByDraft.bind {form : Form} {o : Options} {f : Field} (h : form.SkipsByDraft o)
    (hf : f.SkipsByDraft o) : (form.bind f).SkipsByDraft o := by
  intro g hg
  rcases Form.mem_fields_bind hg with rfl | hg
  · exact hf
  · exact h g hg

/-- A field that asks the same question every time is left out by its condition alone. -/
theorem Field.skipsByDraft_asking (path : Path) (type : AnswerType) (q : Question) (o : Options) :
    (Field.asking path type q).SkipsByDraft o :=
  fun _ _ _ => rfl

namespace Run

variable {form : Form} {initial : Draft} {o : Options} {r r' : Run} {vs : List Visit}
variable {A A' : Nat → Draft → Json → Prop} {k : Nat}

/-- **The draft of the run is that of the pass up to the frontier**, made with these answers. -/
def OnPass (o : Options) (form : Form) (initial : Draft) (A : Nat → Draft → Json → Prop) (r : Run)
    (k : Nat) : Prop :=
  r.InOrder form initial k ∧ Pass o form initial A k r.history r.draft

theorem OnPass.start {recent : Draft} (h : Run.start form initial recent = .ok r) :
    r.OnPass o form initial A 0 := by
  refine ⟨InOrder.start h, ?_⟩
  rw [start_eq_ok h]
  exact .start

/-- Only the answers before the frontier count. -/
theorem OnPass.mono (h : r.OnPass o form initial A k)
    (hA : ∀ i d v, i < k → A i d v → A' i d v) : r.OnPass o form initial A' k :=
  ⟨h.1, h.2.mono hA⟩

/-- The step of a visit is shown where the pass has come to. -/
theorem OnPass.shows (hskips : form.SkipsByDraft o) (h : r.OnPass o form initial A k)
    {v : Visit} (hv : r.Shows o form v) :
    form.fields[v.place]? = some v.field ∧ v.run.isClosed v.place v.field = false ∧
      v.field.declines o v.run.draft none = false ∧ v.run.OnPass o form initial A v.place := by
  obtain ⟨hf, horder, hopen, hasks, hpass⟩ := h.1.shows_with h.2
    (fun _ _ _ _ hf hfilled hpass => hpass.kept hf hfilled)
    (fun _ f _ d a hf hunfilled hdeclines hpass => hpass.skipped hf hunfilled
      (hskips f (List.mem_of_getElem? hf) d a none ▸ hdeclines)) hv
  rw [hskips v.field (List.mem_of_getElem? hf) _ _ none] at hasks
  exact ⟨hf, hopen, hasks, horder, hpass⟩

theorem OnPass.reject (h : r.OnPass o form initial A k) (v : Json) (message : String) (i : Nat) :
    (r.reject i v message).OnPass o form initial A k :=
  ⟨h.1.reject v message i, h.2⟩

/-- **An accepted answer carries the pass on.** -/
theorem OnPass.accept (hform : form.Separate) (h : r.OnPass o form initial A k) {f : Field}
    (hf : form.fields[k]? = some f) (hopen : r.isClosed k f = false)
    (hasks : f.declines o r.draft none = false) {j : Json} (hj : A k r.draft j)
    (haccept : r.accept k f.path j = .ok r') : r'.OnPass o form initial A (k + 1) := by
  refine ⟨h.1.accept hform hf hopen haccept, ?_⟩
  obtain ⟨hassumed, -⟩ := h.1.not_mem_of_isOpen hf hopen
  obtain ⟨draft, recent, hset, -, rfl⟩ := accept_eq_ok haccept
  exact h.2.stored hf (h.1.isFilled_initial hf hassumed) hasks hj hset

/-- **Going back takes the run back to an earlier pass.** The first reset takes the last answer
back, and the later ones change nothing. So the field gone back to has something to ask again. -/
theorem OnPass.goBack (hform : form.Separate) (htidy : form.OpensTidy initial)
    (h : r.OnPass o form initial A k) {hs : List Nat} {e : Nat} (he : r.history = hs ++ [e])
    {f : Field} (hf : form.fields[e]? = some f)
    (hback : r.goBack o.policy form e f.path = .ok r') :
    r'.OnPass o form initial A e ∧ f.declines o r'.draft none = false := by
  have hpass := h.2
  rw [he] at hpass
  obtain ⟨g, d₀, v, hg, hbefore, hasks, hset⟩ := hpass.before_last
  rw [hf, Option.some.injEq] at hg
  rw [← hg] at hset hasks
  have hlt := h.1.lt_last he
  have hopen : ∀ j g, form.fields[j]? = some g → j ∉ r.assumed → initial.Tidy g.path :=
    fun j g hg hj => htidy g (List.mem_of_getElem? hg) (h.1.isFilled_initial hg hj)
  -- the first reset undoes the write of the last answer
  have hfirst : ∀ d, reset initial f.path r.draft = .ok d → d = d₀ := by
    intro d hd
    have hnew : e ∉ r.assumed := (h.1.history_new e (he ▸ List.mem_concat_self)).1
    obtain ⟨hat, htidy⟩ := hbefore.frame hform (hopen e f hf hnew) hf fun hmem =>
      Nat.lt_irrefl e (hlt e hmem)
    rw [Draft.reset_set htidy hat hset, Except.ok.injEq] at hd
    exact hd.symm
  -- the later fields have no answer in the earlier pass, and there is nothing to undo
  have hlater : ∀ j g d d', e < j → form.fields[j]? = some g → j ∉ r.assumed → d = d₀ →
      reset initial g.path d = .ok d' → d' = d₀ := by
    intro j g d d' hj hg hnew hd hreset
    obtain ⟨hat, htidy⟩ := hbefore.frame hform (hopen j g hg hnew) hg fun hmem =>
      Nat.lt_asymm hj (hlt j hmem)
    rw [hd, Draft.reset_self htidy hat, Except.ok.injEq] at hreset
    exact hreset.symm
  obtain ⟨draft, recent, hok, horder, rfl, -⟩ := h.1.goBack (Q := fun _ => True) hform he
    o.policy hf hfirst hlater (fun _ _ _ _ _ => id) trivial
  rw [hback, Except.ok.injEq] at hok
  rw [hok]
  exact ⟨⟨horder, hbefore⟩, hasks⟩

/-- **Every run that a start leads to is on its pass**, with the last accepted answers. The
induction is on the visits: an answer replaces earlier ones for its field, and no others. -/
theorem Leads.onPass (hform : form.Separate) (hskips : form.SkipsByDraft o) (hneat : initial.Neat)
    {first : Run} {recent : Draft} (hstart : Run.start form initial recent = .ok first)
    (h : Leads o form first vs r) : ∃ k, r.OnPass o form initial (LastAnswered vs) k := by
  induction h with
  | start => exact ⟨0, OnPass.start hstart⟩
  | @next vs r r' v w before hshows hgoes ih =>
      obtain ⟨k, hr⟩ := ih
      obtain ⟨hf, hopen, hasks, hv⟩ := hr.shows hskips hshows
      have hv' : v.run.OnPass o form initial (LastAnswered (vs ++ [v])) v.place :=
        hv.mono fun i _ _ hi hlast => hlast.append (Nat.ne_of_gt hi)
      rcases settled_eq_goesOn hgoes with ⟨j, hj, haccept⟩ | ⟨j, message, -, rfl⟩ |
        ⟨e, -, hlanding, hback⟩
      · -- an answer, which is the last one for its field from now on
        exact ⟨_, hv'.accept hform hf hopen hasks (lastAnswered_append hj) haccept⟩
      · exact ⟨_, hv'.reject j message v.place⟩
      · rw [landing?_eq_getLast? hv.1.history_lt] at hlanding
        obtain ⟨hs, g, hsplit, hg, htarget⟩ := hv.1.exists_landing hf hlanding
        rw [htarget] at hback
        exact ⟨e, (hv'.goBack hform (hneat.opensTidy form) hsplit hg hback).1⟩

/-- Where a search finds nothing, the pass is over. -/
theorem OnPass.nothing (hskips : form.SkipsByDraft o) (h : r.OnPass o form initial A k)
    {entries : List Entry} {last : Run} (hseek : r.seek o form = (entries, last, .nothing)) :
    Pass o form initial A form.fields.length last.history last.draft := by
  have hfound := h.1.seek h.2
    (fun _ _ _ _ hf hfilled hpass => hpass.kept hf hfilled)
    (fun _ f _ d a hf hunfilled hdeclines hpass => hpass.skipped hf hunfilled
      (hskips f (List.mem_of_getElem? hf) d a none ▸ hdeclines))
  rw [hseek] at hfound
  obtain ⟨k, hk, -, hpass⟩ := hfound
  have hlast : k = form.fields.length := Nat.le_antisymm hpass.le_length hk
  exact hlast ▸ hpass

end Run

/-! ## The pass as a function -/

/-- What a pass makes of a draft at one field: nothing if the field is filled from the start or has
nothing to ask, and else the draft with the answer. -/
def Field.pass (f : Field) (o : Options) (initial : Draft) (answer : Option Json) (d : Draft) :
    Option Draft :=
  if f.isFilled initial || f.declines o d none then some d
  else answer.bind fun v => (d.set f.path v).toOption

/-- A pass over the fields from a place on. -/
def passFrom (o : Options) (initial : Draft) (answer : Nat → Option Json) :
    Nat → List Field → Draft → Option Draft
  | _, [], d => some d
  | i, f :: rest, d => (f.pass o initial (answer i) d).bind (passFrom o initial answer (i + 1) rest)

/-- **A single pass over a form**, from the start and in the order of declaration, with an answer
for every place that needs one. -/
def Form.forwardPass (form : Form) (o : Options) (initial : Draft) (answer : Nat → Option Json) :
    Option Draft :=
  passFrom o initial answer 0 form.fields initial

/-- A pass with some answers is what the function makes of these answers. -/
theorem Pass.forwardPass_eq {o : Options} {form : Form} {initial d : Draft}
    {A : Nat → Draft → Json → Prop} {k : Nat} {hs : List Nat} {answer : Nat → Option Json}
    (h : Pass o form initial A k hs d) (hA : ∀ j d v, A j d v → answer j = some v) :
    form.forwardPass o initial answer = passFrom o initial answer k (form.fields.drop k) d := by
  have hturn : ∀ {k f} d, form.fields[k]? = some f →
      passFrom o initial answer k (form.fields.drop k) d =
        (f.pass o initial (answer k) d).bind
          (passFrom o initial answer (k + 1) (form.fields.drop (k + 1))) := by
    intro k f d hf
    obtain ⟨hk, rfl⟩ := List.getElem?_eq_some_iff.mp hf
    rw [List.drop_eq_getElem_cons hk, passFrom]
  induction h with
  | start => rfl
  | kept _ hf hfilled ih =>
      rw [ih, hturn _ hf, Field.pass, hfilled, Bool.true_or, if_pos rfl, Option.bind_some]
  | skipped _ hf _ hdeclines ih =>
      rw [ih, hturn _ hf, Field.pass, hdeclines, Bool.or_true, if_pos rfl, Option.bind_some]
  | @stored k hs d d' f v _ hf hunfilled hasks hanswer hset ih =>
      rw [ih, hturn _ hf, Field.pass, hunfilled, hasks, hA k d v hanswer]
      simp only [Bool.or_false, Bool.false_eq_true, if_false, Option.bind_some, hset,
        Except.toOption]

/-- **Going back leaves no trace.** The draft that a run completes with is that of a single pass
with the last accepted answer for every field, whatever the user did on the way. -/
theorem Form.forwardPass_of_completed {form : Form} {o : Options} {initial recent d : Draft}
    {n : Nat} {w w' : Session} (hform : form.Separate) (hskips : form.SkipsByDraft o)
    (hneat : initial.Neat)
    (h : conductForm n form o initial recent w = (.done (.completed d), w')) :
    form.forwardPass o initial (lastAnswer? (form.visits n o initial recent w)) = some d := by
  obtain ⟨first, r, last, entries, hstart, hleads, hseek, hd, -⟩ := Form.leads_of_completed h
  obtain ⟨k, hr⟩ := hleads.onPass hform hskips hneat hstart
  have hpass := hr.nothing hskips hseek
  rw [hpass.forwardPass_eq fun _ _ _ => LastAnswered.lastAnswer?_eq, List.drop_length, passFrom, hd]

/-- The user of the tour goes back once. The draft is the same as if the second name and the handler
had been the only answers. -/
theorem forwardPass_of_tour :
    Form.tour.Separate ∧ Form.tour.SkipsByDraft .default ∧ Draft.tour.Neat ∧
    ∃ d w', conductForm 10 Form.tour .default .tour .empty .tour = (.done (.completed d), w') ∧
      Form.tour.forwardPass .default .tour
        (lastAnswer? (Form.tour.visits 10 .default .tour .empty .tour)) = some d := by
  have hskips : Form.tour.SkipsByDraft .default :=
    (((Form.skipsByDraft_empty _).bind (Field.skipsByDraft_asking _ _ _ _)).bind
      (Field.skipsByDraft_asking _ _ _ _)).bind (Field.skipsByDraft_asking _ _ _ _)
  have hneat : Draft.tour.Neat := by
    refine ⟨⟨by simp [Draft.tour, Members.Ascending], ?_⟩, ?_⟩
    · simp [Draft.tour, Json.OrderedMembers, Json.Ordered]
    · simp [Draft.tour, Json.SolidMembers, Json.Solid]
  refine ⟨Form.separate_tour, hskips, hneat, _, _, rfl, ?_⟩
  exact Form.forwardPass_of_completed Form.separate_tour hskips hneat rfl

end Interview
