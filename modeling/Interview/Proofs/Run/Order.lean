import Interview.Proofs.Run.Moves
/-
The order in a run: answered, assumed and left out.

A run keeps three lists of places and looks at the draft besides, and nothing in it says that
these fit together. They do, in a form whose paths do not overlap. Between two steps there is
a frontier: every field before it is assumed, answered or left out, no field is more than one
of these, and the answered and the left out fields all lie before it, the answers in the order
of the fields. A search moves the frontier forward over what it closes; an answer moves it
behind the answered field; going back moves it to the field gone back to.

The frontier of a run that shows a step is the place of that step. So the counters that the
step reports are determined by the three lists, and going back lands on the last answer.
-/

set_option autoImplicit false

namespace Interview

/-- No path of a field is the root, and no two of them overlap. -/
structure Form.Separate (form : Form) : Prop where
  not_root : ∀ f ∈ form.fields, f.path.isRoot = false
  overlaps_eq_false : form.fields.Pairwise fun f g => f.path.overlaps g.path = false

/-- The paths of two fields of a separate form are apart. -/
theorem Form.Separate.apart {form : Form} (h : form.Separate) {i j : Nat} {f g : Field}
    (hf : form.fields[i]? = some f) (hg : form.fields[j]? = some g) (hij : i ≠ j) :
    Apart f.path.segments g.path.segments := by
  obtain ⟨hi, rfl⟩ := List.getElem?_eq_some_iff.mp hf
  obtain ⟨hj, rfl⟩ := List.getElem?_eq_some_iff.mp hg
  have hpair := List.pairwise_iff_getElem.mp h.overlaps_eq_false
  rcases Nat.lt_or_gt_of_ne hij with hlt | hgt
  · exact Path.apart_of_overlaps (hpair i j hi hj hlt)
  · exact (Path.apart_of_overlaps (hpair j i hj hi hgt)).symm

/-- If `P` leads to `Q` at the path of one field and at every path apart from it, then it does at
the paths of all fields. -/
theorem Form.Separate.forall_path {form : Form} {P Q : Path → Prop} (h : form.Separate) {i : Nat}
    {f : Field} (hf : form.fields[i]? = some f) (hP : ∀ g ∈ form.fields, P g.path)
    (hstep : ∀ q, P q → (f.path = q ∨ Apart f.path.segments q.segments) → Q q) :
    ∀ g ∈ form.fields, Q g.path := by
  intro g hg
  obtain ⟨j, hj⟩ := List.mem_iff_getElem?.mp hg
  refine hstep g.path (hP g hg) ?_
  rcases Nat.decEq i j with hij | rfl
  · exact Or.inr (h.apart hf hj hij)
  · rw [hf, Option.some.injEq] at hj
    exact Or.inl (congrArg Field.path hj)

theorem Form.separate_tour : Form.tour.Separate :=
  ⟨by decide, by decide⟩

/-- Drafts that agree at the path of a field answer it alike. -/
theorem Field.isFilled_congr {f : Field} {d d' : Draft} (h : d'.get? f.path = d.get? f.path) :
    f.isFilled d' = f.isFilled d := by
  rw [Field.isFilled, Field.isFilled, h]

/-! ## The draft and the answered fields -/

/-- A draft with answers at some places: at every other field it has what the start has. -/
structure Form.Answered (form : Form) (initial : Draft) (places : List Nat) (d : Draft) : Prop where
  kept : ∀ j f, form.fields[j]? = some f → j ∉ places → d.get? f.path = initial.get? f.path
  held : ∀ j f, form.fields[j]? = some f → j ∈ places →
    (d.members.at? f.path.segments).isSome = true

namespace Form.Answered

variable {form : Form} {initial d d' : Draft} {places places' : List Nat} {k : Nat} {f : Field}

/-- One more answer is stored. -/
theorem set (hform : form.Separate) (h : form.Answered initial places d)
    (hf : form.fields[k]? = some f) {v : Json} (hset : d.set f.path v = .ok d') :
    form.Answered initial (places ++ [k]) d' where
  kept := by
    intro j g hg hj
    have hkj : k ≠ j := by
      rintro rfl
      exact hj (List.mem_append_right _ (List.mem_singleton_self k))
    have hrest : j ∉ places := fun hmem => hj (List.mem_append_left _ hmem)
    rw [← h.kept j g hg hrest]
    exact Draft.get?_eq_of_at?_eq (Draft.at?_set_of_apart (hform.apart hf hg hkj) hset)
  held := by
    intro j g hg hj
    rcases Nat.decEq k j with hkj | rfl
    · rw [Draft.at?_set_of_apart (hform.apart hf hg hkj) hset]
      rcases List.mem_append.mp hj with hj | hj
      · exact h.held j g hg hj
      · exact absurd (List.mem_singleton.mp hj).symm hkj
    · rw [hf, Option.some.injEq] at hg
      rw [← hg, Draft.at?_set_self hset]
      rfl

/-- One answer is taken back, if there was one. -/
theorem reset (hform : form.Separate) (h : form.Answered initial places d)
    (hf : form.fields[k]? = some f) (hreset : Run.reset initial f.path d = .ok d')
    (hplaces : ∀ j, j ∈ places' ↔ j ∈ places ∧ j ≠ k) : form.Answered initial places' d' where
  kept := by
    intro j g hg hj
    rcases Nat.decEq k j with hkj | rfl
    · have hrest : j ∉ places := fun hmem => hj ((hplaces j).mpr ⟨hmem, Ne.symm hkj⟩)
      rw [← h.kept j g hg hrest]
      exact Draft.get?_eq_of_at?_eq (Run.at?_reset_of_apart (hform.apart hf hg hkj) hreset)
    · rw [hf, Option.some.injEq] at hg
      rw [← hg]
      exact Run.get?_reset_self hreset
  held := by
    intro j g hg hj
    obtain ⟨hmem, hjk⟩ := (hplaces j).mp hj
    rw [Run.at?_reset_of_apart (hform.apart hf hg hjk.symm) hreset]
    exact h.held j g hg hmem

/-- Every field can be reset: where no answer is, the draft has what the start puts back. -/
theorem exists_reset_eq_ok (h : form.Answered initial places d) (hf : form.fields[k]? = some f) :
    ∃ d', Run.reset initial f.path d = .ok d' := by
  refine Run.exists_reset_eq_ok_of_get? ?_
  by_cases hk : k ∈ places
  · obtain ⟨v, hv⟩ := Option.isSome_iff_exists.mp (h.held k f hf hk)
    exact Or.inl (Members.admits_of_at?_eq_some hv)
  · rcases hv : initial.get? f.path with _ | v
    · exact Or.inr rfl
    · exact Or.inl (Draft.admits_of_get?_eq_some ((h.kept k f hf hk).trans hv))

end Form.Answered

namespace Run

/-! ## The invariant -/

/-- **A run with its frontier at a place.** The fields before the frontier are assumed, answered or
left out, and the draft has what the start has at every field that is not answered. -/
structure InOrder (form : Form) (initial : Draft) (r : Run) (frontier : Nat) : Prop where
  initial_eq : r.initial = initial
  mem_assumed : ∀ j, j ∈ r.assumed ↔ ∃ f, form.fields[j]? = some f ∧ f.isFilled initial = true
  covered : ∀ j < frontier, j ∈ r.assumed ∨ j ∈ r.history ∨ j ∈ r.skipped
  ascending : r.history.Pairwise (· < ·)
  history_lt : ∀ j ∈ r.history, j < frontier
  skipped_lt : ∀ j ∈ r.skipped, j < frontier
  history_new : ∀ j ∈ r.history, j ∉ r.assumed ∧ j ∉ r.skipped
  skipped_new : ∀ j ∈ r.skipped, j ∉ r.assumed
  answered : form.Answered initial r.history r.draft

variable {form : Form} {initial : Draft} {o : Options} {r r' : Run} {k : Nat}

theorem InOrder.start {recent : Draft} (h : Run.start form initial recent = .ok r) :
    r.InOrder form initial 0 := by
  rw [start_eq_ok h]
  exact {
    initial_eq := rfl
    mem_assumed := fun j => mem_filledPlaces
    covered := fun j hj => absurd hj (Nat.not_lt_zero j)
    ascending := List.Pairwise.nil
    history_lt := fun j hj => absurd hj List.not_mem_nil
    skipped_lt := fun j hj => absurd hj List.not_mem_nil
    history_new := fun j hj => absurd hj List.not_mem_nil
    skipped_new := fun j hj => absurd hj List.not_mem_nil
    answered := ⟨fun _ _ _ _ => rfl, fun _ _ _ hj => absurd hj List.not_mem_nil⟩ }

/-- A field that is not answered is filled by the draft just if it is assumed. -/
theorem InOrder.isFilled_iff (h : r.InOrder form initial k) {j : Nat} {f : Field}
    (hf : form.fields[j]? = some f) (hj : j ∉ r.history) :
    f.isFilled r.draft = true ↔ j ∈ r.assumed := by
  rw [Field.isFilled_congr (h.answered.kept j f hf hj), h.mem_assumed]
  constructor
  · exact fun hfilled => ⟨f, hf, hfilled⟩
  · rintro ⟨g, hg, hfilled⟩
    rw [hf, Option.some.injEq] at hg
    exact hg ▸ hfilled

/-- A field is closed just if it is assumed, answered or left out. -/
theorem InOrder.isClosed_iff (h : r.InOrder form initial k) {j : Nat} {f : Field}
    (hf : form.fields[j]? = some f) :
    r.isClosed j f = true ↔ j ∈ r.assumed ∨ j ∈ r.history ∨ j ∈ r.skipped := by
  rw [← Bool.not_eq_false, isClosed_eq_false_iff]
  constructor
  · intro hclosed
    by_cases hh : j ∈ r.history
    · exact Or.inr (Or.inl hh)
    · by_cases hs : j ∈ r.skipped
      · exact Or.inr (Or.inr hs)
      · refine Or.inl ((h.isFilled_iff hf hh).mp ?_)
        rcases hfilled : f.isFilled r.draft with _ | _
        · exact absurd ⟨hs, hh, hfilled⟩ hclosed
        · rfl
  · rintro hany ⟨hs, hh, hfilled⟩
    rcases hany with ha | hh' | hs'
    · rw [(h.isFilled_iff hf hh).mpr ha] at hfilled
      exact absurd hfilled (by simp)
    · exact hh hh'
    · exact hs hs'

/-- The fields before the frontier are closed. -/
theorem InOrder.isClosed_of_lt (h : r.InOrder form initial k) {j : Nat} {f : Field}
    (hf : form.fields[j]? = some f) (hj : j < k) : r.isClosed j f = true :=
  (h.isClosed_iff hf).mpr (h.covered j hj)

/-- An open field is neither assumed, nor answered, nor left out. -/
theorem InOrder.not_mem_of_isOpen (h : r.InOrder form initial k) {j : Nat} {f : Field}
    (hf : form.fields[j]? = some f) (hopen : r.isClosed j f = false) :
    j ∉ r.assumed ∧ j ∉ r.history ∧ j ∉ r.skipped := by
  have hnot : ¬(j ∈ r.assumed ∨ j ∈ r.history ∨ j ∈ r.skipped) := by
    intro hany
    rw [(h.isClosed_iff hf).mpr hany] at hopen
    exact absurd hopen (by simp)
  exact ⟨fun ha => hnot (Or.inl ha), fun hh => hnot (Or.inr (Or.inl hh)),
    fun hs => hnot (Or.inr (Or.inr hs))⟩

/-- The start leaves the fields open that are not assumed. -/
theorem InOrder.isFilled_initial (h : r.InOrder form initial k) {j : Nat} {f : Field}
    (hf : form.fields[j]? = some f) (hj : j ∉ r.assumed) : f.isFilled initial = false := by
  rcases hfilled : f.isFilled initial with _ | _
  · rfl
  · exact absurd ((h.mem_assumed j).mpr ⟨f, hf, hfilled⟩) hj

/-- The field at the frontier is open, unless the start fills it. -/
theorem InOrder.isOpen_frontier (h : r.InOrder form initial k) {f : Field}
    (hf : form.fields[k]? = some f) (hunfilled : f.isFilled initial = false) :
    r.isClosed k f = false := by
  rcases hclosed : r.isClosed k f with _ | _
  · rfl
  · rcases (h.isClosed_iff hf).mp hclosed with ha | hh | hs
    · obtain ⟨g, hg, hfilled⟩ := (h.mem_assumed k).mp ha
      rw [hf, Option.some.injEq] at hg
      rw [← hg, hunfilled] at hfilled
      exact absurd hfilled (by simp)
    · exact absurd (h.history_lt k hh) (Nat.lt_irrefl k)
    · exact absurd (h.skipped_lt k hs) (Nat.lt_irrefl k)

/-! ## Searching -/

theorem InOrder.withRetry (h : r.InOrder form initial k) (x : Option (Nat × Attempt Json)) :
    InOrder form initial { r with retry := x } k :=
  { h with }

/-- The frontier moves over an assumed field. -/
theorem InOrder.pass (h : r.InOrder form initial k) (hk : k ∈ r.assumed) :
    r.InOrder form initial (k + 1) where
  initial_eq := h.initial_eq
  mem_assumed := h.mem_assumed
  covered := by
    intro j hj
    rcases Nat.lt_succ_iff_lt_or_eq.mp hj with hj | rfl
    · exact h.covered j hj
    · exact Or.inl hk
  ascending := h.ascending
  history_lt j hj := Nat.lt_succ_of_lt (h.history_lt j hj)
  skipped_lt j hj := Nat.lt_succ_of_lt (h.skipped_lt j hj)
  history_new := h.history_new
  skipped_new := h.skipped_new
  answered := h.answered

/-- The frontier moves over a field that is left out. -/
theorem InOrder.skip (h : r.InOrder form initial k) (hk : k ∉ r.assumed) :
    (r.skip k).InOrder form initial (k + 1) where
  initial_eq := h.initial_eq
  mem_assumed := h.mem_assumed
  covered := by
    intro j hj
    rcases Nat.lt_succ_iff_lt_or_eq.mp hj with hj | rfl
    · rcases h.covered j hj with ha | hh | hs
      · exact Or.inl ha
      · exact Or.inr (Or.inl hh)
      · exact Or.inr (Or.inr (List.mem_cons_of_mem _ hs))
    · exact Or.inr (Or.inr List.mem_cons_self)
  ascending := h.ascending
  history_lt j hj := Nat.lt_succ_of_lt (h.history_lt j hj)
  skipped_lt := by
    intro j hj
    rcases List.mem_cons.mp hj with rfl | hj
    · exact Nat.lt_succ_self j
    · exact Nat.lt_succ_of_lt (h.skipped_lt j hj)
  history_new := by
    intro j hj
    obtain ⟨ha, hs⟩ := h.history_new j hj
    refine ⟨ha, fun hmem => ?_⟩
    rcases List.mem_cons.mp hmem with rfl | hmem
    · exact absurd (h.history_lt j hj) (Nat.lt_irrefl j)
    · exact hs hmem
  skipped_new := by
    intro j hj
    rcases List.mem_cons.mp hj with rfl | hj
    · exact hk
    · exact h.skipped_new j hj
  answered := h.answered

variable {J : Nat → List Nat → Draft → Prop}

/-- **A search stops at the frontier.** Where it shows a step, the frontier is at its place, and
where it finds nothing, the frontier is behind the last field. What else holds of the history and
the draft goes with the frontier, if passing over an assumed field and leaving out another one
keep it. -/
theorem InOrder.seek (h : r.InOrder form initial k) (hJ : J k r.history r.draft)
    (hpass : ∀ k f hs d, form.fields[k]? = some f → f.isFilled initial = true → J k hs d →
      J (k + 1) hs d)
    (hskip : ∀ k f hs d a, form.fields[k]? = some f → f.isFilled initial = false →
      f.declines o d a = true → J k hs d → J (k + 1) hs d) :
    FoundWith o form
      (fun i r => ∃ k, i ≤ k ∧ r.InOrder form initial k ∧ J k r.history r.draft)
      (r.seek o form).2.1 (r.seek o form).2.2 := by
  refine seek_keeps ?_ ?_ ?_ ⟨k, Nat.zero_le k, h, hJ⟩
  · rintro i r x ⟨k, hik, hr, hJ⟩
    exact ⟨k, hik, hr.withRetry x, hJ⟩
  · rintro i f r hf ⟨k, hik, hr, hJ⟩ hclosed
    rcases Nat.lt_or_eq_of_le hik with hlt | rfl
    · exact ⟨k, hlt, hr, hJ⟩
    · -- at the frontier, only an assumed field is closed already
      rcases (hr.isClosed_iff hf).mp hclosed with ha | hh | hs
      · obtain ⟨g, hg, hfilled⟩ := (hr.mem_assumed i).mp ha
        exact ⟨i + 1, Nat.le_refl _, hr.pass ha, hpass i g _ _ hg hfilled hJ⟩
      · exact absurd (hr.history_lt i hh) (Nat.lt_irrefl i)
      · exact absurd (hr.skipped_lt i hs) (Nat.lt_irrefl i)
  · -- no field before the frontier is open, so it is the one at the frontier that is left out
    rintro i f r a hf ⟨k, hik, hr, hJ⟩ hopen hdeclines
    rcases Nat.lt_or_eq_of_le hik with hlt | rfl
    · rw [hr.isClosed_of_lt hf hlt] at hopen
      exact absurd hopen (by simp)
    · obtain ⟨ha, -⟩ := hr.not_mem_of_isOpen hf hopen
      exact ⟨i + 1, Nat.le_refl _, hr.skip ha,
        hskip i f _ _ a hf (hr.isFilled_initial hf ha) hdeclines hJ⟩

/-- The run of a visit has its frontier at the place of the visit, where the field is open and has
something to ask. -/
theorem InOrder.shows_with (h : r.InOrder form initial k) (hJ : J k r.history r.draft)
    (hpass : ∀ k f hs d, form.fields[k]? = some f → f.isFilled initial = true → J k hs d →
      J (k + 1) hs d)
    (hskip : ∀ k f hs d a, form.fields[k]? = some f → f.isFilled initial = false →
      f.declines o d a = true → J k hs d → J (k + 1) hs d)
    {v : Visit} (hv : r.Shows o form v) :
    form.fields[v.place]? = some v.field ∧ v.run.InOrder form initial v.place ∧
      v.run.isClosed v.place v.field = false ∧
      v.field.declines o v.run.draft v.attempt = false ∧ J v.place v.run.history v.run.draft := by
  obtain ⟨entries, make, hseek⟩ := hv
  have hfound := h.seek (o := o) hJ hpass hskip
  rw [hseek] at hfound
  obtain ⟨hf, ⟨k, hik, hr, hJ⟩, hopen, hasks, -⟩ := hfound
  rcases Nat.lt_or_eq_of_le hik with hlt | rfl
  · rw [hr.isClosed_of_lt hf hlt] at hopen
    exact absurd hopen (by simp)
  · exact ⟨hf, hr, hopen, hasks, hJ⟩

theorem InOrder.shows (h : r.InOrder form initial k) {v : Visit} (hv : r.Shows o form v) :
    form.fields[v.place]? = some v.field ∧ v.run.InOrder form initial v.place ∧
      v.run.isClosed v.place v.field = false := by
  obtain ⟨hf, hr, hopen, -⟩ :=
    h.shows_with (J := fun _ _ _ => True) trivial (fun _ _ _ _ _ _ _ => trivial)
      (fun _ _ _ _ _ _ _ _ _ => trivial) hv
  exact ⟨hf, hr, hopen⟩

/-- A search does not go beyond the field at the frontier, if that is open and has something to
ask. -/
theorem InOrder.seek_frontier (h : r.InOrder form initial k) {f : Field}
    (hf : form.fields[k]? = some f) (hunfilled : f.isFilled initial = false)
    (hasks : ∀ a, f.declines o r.draft a = false) :
    (∃ entries run e, r.seek o form = (entries, run, .failed e)) ∨
      ∃ entries run attempt make, r.seek o form = (entries, run, .step k f attempt make) := by
  have hopen : ∀ x, isClosed { r with retry := x } k f = false :=
    fun x => (h.withRetry x).isOpen_frontier hf hunfilled
  -- up to the frontier all fields are closed, so only the refused answer can change on the way
  have hfound : FoundWith o form (fun i r' => i ≤ k ∧ ∃ x, r' = { r with retry := x })
      (r.seek o form).2.1 (r.seek o form).2.2 := by
    refine seek_keeps ?_ ?_ ?_ ⟨Nat.zero_le k, r.retry, rfl⟩
    · rintro i _ x ⟨hi, y, rfl⟩
      exact ⟨hi, x, rfl⟩
    · rintro i g _ hg ⟨hi, x, rfl⟩ hclosed
      rcases Nat.lt_or_eq_of_le hi with hlt | rfl
      · exact ⟨hlt, x, rfl⟩
      · rw [hf, Option.some.injEq] at hg
        rw [← hg, hopen x] at hclosed
        exact absurd hclosed (by simp)
    · rintro i g _ a hg ⟨hi, x, rfl⟩ hopen' hdeclines
      rcases Nat.lt_or_eq_of_le hi with hlt | rfl
      · rw [(h.withRetry x).isClosed_of_lt hg hlt] at hopen'
        exact absurd hopen' (by simp)
      · rw [hf, Option.some.injEq] at hg
        have hnot : f.declines o r.draft a = true := hg ▸ hdeclines
        rw [hasks a] at hnot
        exact absurd hnot (by simp)
  rcases hseek : r.seek o form with ⟨entries, run, _ | e | ⟨i, g, attempt, make⟩⟩
  · rw [hseek] at hfound
    obtain ⟨hk, -⟩ := List.getElem?_eq_some_iff.mp hf
    exact absurd hfound.1 (Nat.not_le_of_lt hk)
  · exact Or.inl ⟨entries, run, e, rfl⟩
  · rw [hseek] at hfound
    obtain ⟨hg, ⟨hi, x, rfl⟩, hopen', -⟩ := hfound
    rcases Nat.lt_or_eq_of_le hi with hlt | rfl
    · rw [(h.withRetry x).isClosed_of_lt hg hlt] at hopen'
      exact absurd hopen' (by simp)
    · rw [hf, Option.some.injEq] at hg
      exact Or.inr ⟨entries, _, attempt, make, by rw [hg]⟩

/-! ## Replies -/

/-- **An answer moves the frontier behind the answered field.** -/
theorem InOrder.accept (hform : form.Separate) (h : r.InOrder form initial k) {f : Field}
    (hf : form.fields[k]? = some f) (hopen : r.isClosed k f = false) {v : Json}
    (haccept : r.accept k f.path v = .ok r') : r'.InOrder form initial (k + 1) := by
  obtain ⟨draft, recent, hdraft, -, rfl⟩ := accept_eq_ok haccept
  obtain ⟨hassumed, -, hskipped⟩ := h.not_mem_of_isOpen hf hopen
  exact {
    initial_eq := h.initial_eq
    mem_assumed := h.mem_assumed
    covered := by
      intro j hj
      rcases Nat.lt_succ_iff_lt_or_eq.mp hj with hj | rfl
      · rcases h.covered j hj with ha | hh | hs
        · exact Or.inl ha
        · exact Or.inr (Or.inl (List.mem_append_left _ hh))
        · exact Or.inr (Or.inr hs)
      · exact Or.inr (Or.inl (List.mem_append_right _ (List.mem_singleton_self j)))
    ascending := by
      refine List.pairwise_append.mpr ⟨h.ascending, List.pairwise_singleton _ _, ?_⟩
      intro i hi j hj
      rw [List.mem_singleton.mp hj]
      exact h.history_lt i hi
    history_lt := by
      intro j hj
      rcases List.mem_append.mp hj with hj | hj
      · exact Nat.lt_succ_of_lt (h.history_lt j hj)
      · rw [List.mem_singleton.mp hj]
        exact Nat.lt_succ_self k
    skipped_lt := fun j hj => Nat.lt_succ_of_lt (h.skipped_lt j hj)
    history_new := by
      intro j hj
      rcases List.mem_append.mp hj with hj | hj
      · exact h.history_new j hj
      · rw [List.mem_singleton.mp hj]
        exact ⟨hassumed, hskipped⟩
    skipped_new := h.skipped_new
    answered := h.answered.set hform hf hdraft }

/-- A refused answer changes nothing but the attempt that is offered next. -/
theorem InOrder.reject (h : r.InOrder form initial k) (v : Json) (message : String) (i : Nat) :
    (r.reject i v message).InOrder form initial k :=
  h.withRetry _

/-- Going back lands on the last answer, when all answers lie before. -/
theorem landing?_eq_getLast? {i : Nat} (h : ∀ j ∈ r.history, j < i) :
    r.landing? i = r.history.getLast? := by
  rw [landing?, ← List.head?_reverse]
  rcases hreverse : r.history.reverse with _ | ⟨j, rest⟩
  · rfl
  · have hj : j ∈ r.history := List.mem_reverse.mp (hreverse ▸ List.mem_cons_self)
    rw [List.find?_cons_of_pos (by simpa using h j hj), List.head?_cons]

/-- The answers before the last one are for earlier fields. -/
theorem InOrder.lt_last (h : r.InOrder form initial k) {hs : List Nat} {e : Nat}
    (he : r.history = hs ++ [e]) : ∀ j ∈ hs, j < e := by
  have hpair := h.ascending
  rw [he, List.pairwise_append] at hpair
  exact fun j hj => hpair.2.2 j hj e (List.mem_singleton_self e)

/-- The path that going back to a field is given is the path of that field. -/
theorem target_eq {e : Nat} {f : Field} (hf : form.fields[e]? = some f) :
    ((form.fields[e]?).map Field.path).getD .root = f.path := by
  rw [hf, Option.map_some, Option.getD_some]

/-- Where going back from the frontier lands: at the last answer, which is for a field before. -/
theorem InOrder.exists_landing (h : r.InOrder form initial k) {f : Field}
    (hf : form.fields[k]? = some f) {e : Nat} (he : r.history.getLast? = some e) :
    ∃ hs g, r.history = hs ++ [e] ∧ form.fields[e]? = some g ∧
      ((form.fields[e]?).map Field.path).getD .root = g.path := by
  obtain ⟨hs, hsplit⟩ := List.getLast?_eq_some_iff.mp he
  have hmem : e ∈ r.history := hsplit ▸ List.mem_append_right _ (List.mem_singleton_self e)
  obtain ⟨hk, -⟩ := List.getElem?_eq_some_iff.mp hf
  have hg := List.getElem?_eq_getElem (Nat.lt_trans (h.history_lt e hmem) hk)
  exact ⟨hs, _, hsplit, hg, target_eq hg⟩

/-- What is cleared leaves the history: the last answer, and none before it. -/
theorem filter_history_eq {hs cleared : List Nat} {e : Nat} (hlt : ∀ j ∈ hs, j < e)
    (hin : e ∈ cleared) (hcleared : ∀ j ∈ cleared, e ≤ j) :
    (hs ++ [e]).filter (fun j => !cleared.contains j) = hs := by
  have hrest : hs.filter (fun j => !cleared.contains j) = hs := by
    refine List.filter_eq_self.mpr fun j hj => ?_
    have hnot : j ∉ cleared := fun hmem =>
      Nat.lt_irrefl e (Nat.lt_of_le_of_lt (hcleared j hmem) (hlt j hj))
    simpa using hnot
  have hlast : [e].filter (fun j => !cleared.contains j) = [] := by
    simp [hin]
  rw [List.filter_append, hrest, hlast, List.append_nil]

/-- The frontier moves back to the last answer, which is taken out of the history. What was left out
from there on is no longer so. -/
theorem InOrder.retreat (h : r.InOrder form initial k) {hs : List Nat} {e : Nat}
    (he : r.history = hs ++ [e]) {draft : Draft} (hdraft : form.Answered initial hs draft)
    (recent : Draft) :
    InOrder form initial { r with
      draft, recent, history := hs, skipped := r.skipped.filter fun j => j < e } e := by
  have hmem : ∀ j, j ∈ hs → j ∈ r.history := fun j hj => he ▸ List.mem_append_left _ hj
  have hlast : e ∈ r.history := he ▸ List.mem_append_right _ (List.mem_singleton_self e)
  have hpair := h.ascending
  rw [he, List.pairwise_append] at hpair
  exact {
    initial_eq := h.initial_eq
    mem_assumed := h.mem_assumed
    covered := by
      intro j hj
      rcases h.covered j (Nat.lt_trans hj (h.history_lt e hlast)) with ha | hh | hs'
      · exact Or.inl ha
      · rw [he] at hh
        rcases List.mem_append.mp hh with hh | hh
        · exact Or.inr (Or.inl hh)
        · exact absurd (List.mem_singleton.mp hh) (Nat.ne_of_lt hj)
      · exact Or.inr (Or.inr (List.mem_filter.mpr ⟨hs', by simpa using hj⟩))
    ascending := hpair.1
    history_lt := h.lt_last he
    skipped_lt := fun j hj => by simpa using (List.mem_filter.mp hj).2
    history_new := by
      intro j hj
      obtain ⟨ha, hs'⟩ := h.history_new j (hmem j hj)
      exact ⟨ha, fun hskipped => hs' (List.mem_filter.mp hskipped).1⟩
    skipped_new := fun j hj => h.skipped_new j (List.mem_filter.mp hj).1
    answered := hdraft }

variable {P Q : Draft → Prop}

/-- **Going back from the frontier** lands on the last answer and does not fail. The frontier moves
to the field gone back to, which is open again, and the answers before it stay. What the resets of
this field and of the later ones keep holds of the draft, and what removals of later answers keep
holds of the answers to offer again. -/
theorem InOrder.goBack (hform : form.Separate) (h : r.InOrder form initial k)
    {hs : List Nat} {e : Nat} (he : r.history = hs ++ [e]) (policy : Policy) {f : Field}
    (hf : form.fields[e]? = some f)
    (hfirst : ∀ d, reset initial f.path r.draft = .ok d → P d)
    (hlater : ∀ j g d d', e < j → form.fields[j]? = some g → j ∉ r.assumed → P d →
      reset initial g.path d = .ok d' → P d')
    (hremove : ∀ j g d, e < j → form.fields[j]? = some g → Q d → Q (d.remove g.path).2)
    (hrecent : Q r.recent) :
    ∃ draft recent, r.goBack policy form e f.path = .ok { r with
        draft, recent, history := hs, skipped := r.skipped.filter fun j => j < e } ∧
      InOrder form initial { r with
        draft, recent, history := hs, skipped := r.skipped.filter fun j => j < e } e ∧
      P draft ∧ Q recent := by
  have hlt := h.lt_last he
  -- the field gone back to loses its answer, and the other answers stay
  obtain ⟨d, hd⟩ := h.answered.exists_reset_eq_ok hf
  have hfirst' : form.Answered initial hs d := by
    refine h.answered.reset hform hf hd fun j => ?_
    rw [he, List.mem_append, List.mem_singleton]
    constructor
    · exact fun hj => ⟨Or.inl hj, Nat.ne_of_lt (hlt j hj)⟩
    · exact fun ⟨hj, hje⟩ => hj.resolve_right hje
  -- the later fields have no answers any more, so that resetting them is harmless
  have hlater' : ∀ j g d, e < j → form.fields[j]? = some g → j ∉ r.assumed →
      form.Answered initial hs d ∧ P d →
      ∃ d', reset r.initial g.path d = .ok d' ∧ form.Answered initial hs d' ∧ P d' := by
    rintro j g d hj hg hassumed ⟨hanswered, hP⟩
    have hnew : j ∉ hs := fun hmem => Nat.lt_asymm hj (hlt j hmem)
    obtain ⟨d', hreset⟩ := hanswered.exists_reset_eq_ok hg
    refine ⟨d', h.initial_eq.symm ▸ hreset, hanswered.reset hform hg hreset fun i => ?_,
      hlater j g d d' hj hg hassumed hP hreset⟩
    exact ⟨fun hi => ⟨hi, fun hij => hnew (hij ▸ hi)⟩, And.left⟩
  obtain ⟨c, hok, ⟨hanswered, hP⟩, hQ, hin, hcleared⟩ :=
    exists_goBack_eq_ok policy form r e f.path (h.initial_eq.symm ▸ hd) ⟨hfirst', hfirst d hd⟩
      hlater' hremove hrecent
  have hhistory : (r.history.filter fun j => !c.cleared.contains j) = hs := by
    rw [he]
    exact filter_history_eq hlt hin hcleared
  rw [hhistory] at hok
  exact ⟨c.draft, c.recent, hok, h.retreat he hanswered c.recent, hP, hQ⟩

/-- Going back from the frontier, with nothing kept on the side. -/
theorem InOrder.exists_goBack (hform : form.Separate) (h : r.InOrder form initial k)
    {hs : List Nat} {e : Nat} (he : r.history = hs ++ [e]) (policy : Policy) {f : Field}
    (hf : form.fields[e]? = some f) :
    ∃ r', r.goBack policy form e f.path = .ok r' ∧ r'.InOrder form initial e ∧
      r'.history = hs := by
  obtain ⟨draft, recent, hok, horder, -⟩ := h.goBack (P := fun _ => True) (Q := fun _ => True) hform
    he policy hf (fun _ _ => trivial) (fun _ _ _ _ _ _ _ _ _ => trivial)
    (fun _ _ _ _ _ _ => trivial) trivial
  exact ⟨_, hok, horder, rfl⟩

/-! ## Whole runs -/

/-- What every visit keeps, when it lets the run go on. -/
theorem InOrder.of_goesOn (hform : form.Separate) {v : Visit} {w : Session}
    (h : v.run.InOrder form initial v.place) (hf : form.fields[v.place]? = some v.field)
    (hopen : v.run.isClosed v.place v.field = false) (hgoes : v.settled o form = (.goesOn r', w)) :
    ∃ k, r'.InOrder form initial k := by
  rcases settled_eq_goesOn hgoes with ⟨j, -, haccept⟩ | ⟨j, message, -, rfl⟩ |
    ⟨e, -, hlanding, hback⟩
  · exact ⟨_, h.accept hform hf hopen haccept⟩
  · exact ⟨_, h.reject j message v.place⟩
  · rw [landing?_eq_getLast? h.history_lt] at hlanding
    obtain ⟨hs, g, hsplit, hg, htarget⟩ := h.exists_landing hf hlanding
    rw [htarget] at hback
    obtain ⟨r₂, hok, horder, -⟩ := h.exists_goBack hform hsplit o.policy hg
    rw [hback, Except.ok.injEq] at hok
    exact ⟨e, hok ▸ horder⟩

/-- **Every run that a start leads to is in order.** The induction is on the visits. -/
theorem Leads.inOrder (hform : form.Separate) {first : Run} {recent : Draft} {vs : List Visit}
    (hstart : Run.start form initial recent = .ok first) (h : Leads o form first vs r) :
    ∃ k, r.InOrder form initial k := by
  induction h with
  | start => exact ⟨0, InOrder.start hstart⟩
  | next before hshows hgoes ih =>
      obtain ⟨k, hr⟩ := ih
      obtain ⟨hf, horder, hopen⟩ := hr.shows hshows
      exact horder.of_goesOn hform hf hopen hgoes

end Run

end Interview
