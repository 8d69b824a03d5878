import Interview.Proofs.Run.Order
/-
What a run knows at every step that it shows.

A step is shown for one field, and at that moment the run is in order with its frontier at
that field. Everything a user can tell from the step follows: which of the earlier fields
were asked, the two numbers that the step is announced with, and where going back leads. This
is read off here, once for all steps of all runs, in a form that speaks of the form, the
start and the history only.
-/

set_option autoImplicit false

namespace Interview

/-- How many fields from a place on the start leaves open. -/
def Form.unassumedFrom (form : Form) (initial : Draft) (i : Nat) : Nat :=
  (form.fields.drop i).countP fun f => !f.isFilled initial

namespace Run

variable {form : Form} {initial : Draft} {o : Options} {r : Run} {k : Nat}

/-- From a place behind the frontier on, the open fields are those that the start leaves open. -/
theorem InOrder.openFrom_eq (h : r.InOrder form initial k) {i : Nat} (hi : k ≤ i) :
    r.openFrom i (form.fields.drop i) = form.unassumedFrom initial i := by
  unfold Form.unassumedFrom
  generalize hfields : form.fields.drop i = fields
  induction fields generalizing i with
  | nil => rw [openFrom, List.countP_nil]
  | cons f rest ih =>
      obtain ⟨hf, hrest⟩ := drop_eq_cons hfields.symm
      -- behind the frontier nothing was answered or left out
      have hclosed : r.isClosed i f = f.isFilled initial := by
        have hiff : r.isClosed i f = true ↔ f.isFilled initial = true := by
          rw [h.isClosed_iff hf]
          constructor
          · rintro (ha | hh | hs)
            · obtain ⟨g, hg, hfilled⟩ := (h.mem_assumed i).mp ha
              rw [hf, Option.some.injEq] at hg
              exact hg ▸ hfilled
            · exact absurd (h.history_lt i hh) (Nat.not_lt_of_le hi)
            · exact absurd (h.skipped_lt i hs) (Nat.not_lt_of_le hi)
          · exact fun hfilled => Or.inl ((h.mem_assumed i).mpr ⟨f, hf, hfilled⟩)
        exact Bool.eq_iff_iff.mpr hiff
      rw [openFrom, hclosed, ih (Nat.le_succ_of_le hi) hrest.symm, List.countP_cons,
        Nat.add_comm]
      rcases f.isFilled initial with _ | _
      · rfl
      · rfl

end Run

/-! ## Orderly steps -/

/-- **What holds whenever a step is shown.** -/
structure Visit.Orderly (v : Visit) (form : Form) (o : Options) (initial : Draft) : Prop where
  field_eq : form.fields[v.place]? = some v.field
  /-- The assumed fields are those that the start fills. -/
  mem_assumed : ∀ j, j ∈ v.run.assumed ↔
    ∃ f, form.fields[j]? = some f ∧ f.isFilled initial = true
  /-- Every earlier field is assumed, answered or left out. -/
  covered : ∀ j < v.place, j ∈ v.run.assumed ∨ j ∈ v.run.history ∨ j ∈ v.run.skipped
  /-- No field is more than one of these. -/
  disjoint : ∀ j, ¬(j ∈ v.run.assumed ∧ j ∈ v.run.history) ∧
    ¬(j ∈ v.run.assumed ∧ j ∈ v.run.skipped) ∧ ¬(j ∈ v.run.history ∧ j ∈ v.run.skipped)
  ascending : v.run.history.Pairwise (· < ·)
  history_lt : ∀ j ∈ v.run.history, j < v.place
  skipped_lt : ∀ j ∈ v.run.skipped, j < v.place
  /-- The field at hand is none of the three. -/
  fresh : v.place ∉ v.run.assumed ∧ v.place ∉ v.run.history ∧ v.place ∉ v.run.skipped
  /-- Assumed fields keep the value of the start. -/
  kept : ∀ j ∈ v.run.assumed, ∀ f, form.fields[j]? = some f →
    v.run.draft.get? f.path = initial.get? f.path
  /-- The step is placed and announced with the number of answers and one more, and with that and
  the number of the later fields that the start leaves open. -/
  counted : ∀ make w,
    let current := 1 + v.run.history.length
    let total := current + form.unassumedFrom initial (v.place + 1)
    let (q, w') := prepareQuestion v.field v.attempt current total (make w).1 (make w).2
    v.run.present o form v.place v.field v.attempt make w =
      (q, w'.report o (.step v.field.path current total))
  /-- Without an answer, going back leaves the run. -/
  back_out : v.run.history = [] → ∀ w,
    v.run.settle o form v.place v.field (.done .back) w =
      (.ends (.done .back), w.report o (.back v.field.path none))
  /-- With answers, going back does not fail: it opens the greatest answered field again, and
  whatever lies before it stays closed. -/
  back_in : v.run.history ≠ [] → ∃ e f r, e ∈ v.run.history ∧ (∀ j ∈ v.run.history, j ≤ e) ∧
    form.fields[e]? = some f ∧
    (∀ w, v.run.settle o form v.place v.field (.done .back) w =
      (.goesOn r, w.report o (.back v.field.path (some f.path)))) ∧
    (∀ j, j ∈ r.history ↔ j ∈ v.run.history ∧ j ≠ e) ∧ r.isClosed e f = false ∧
    ∀ j < e, ∀ g, form.fields[j]? = some g → r.isClosed j g = true

namespace Run

variable {form : Form} {initial : Draft} {o : Options}

/-- What going back from a shown step comes to, when something was answered. -/
theorem InOrder.settleBack_eq {v : Visit} (hform : form.Separate)
    (h : v.run.InOrder form initial v.place) (hf : form.fields[v.place]? = some v.field)
    {hs : List Nat} {e : Nat} (he : v.run.history = hs ++ [e]) :
    ∃ f r, form.fields[e]? = some f ∧ r.InOrder form initial e ∧ r.history = hs ∧
      ∀ w, v.run.settle o form v.place v.field (.done .back) w =
        (.goesOn r, w.report o (.back v.field.path (some f.path))) := by
  have hlast : v.run.history.getLast? = some e := by rw [he, List.getLast?_concat]
  obtain ⟨hs', g, hsplit, hg, htarget⟩ := h.exists_landing hf hlast
  obtain ⟨r, hok, horder, hhistory⟩ := h.exists_goBack hform he o.policy hg
  refine ⟨g, r, hg, horder, hhistory, fun w => ?_⟩
  unfold settle settleBack
  rw [landing?_eq_getLast? h.history_lt, hlast]
  simp only [htarget, hok]

/-- A step that is shown by a run in order is orderly. -/
theorem InOrder.orderly {v : Visit} (hform : form.Separate)
    (h : v.run.InOrder form initial v.place) (hf : form.fields[v.place]? = some v.field)
    (hopen : v.run.isClosed v.place v.field = false) : v.Orderly form o initial := by
  have htotal : v.run.total form v.place =
      1 + v.run.history.length + form.unassumedFrom initial (v.place + 1) := by
    rw [total, h.openFrom_eq (Nat.le_succ v.place), current, Nat.add_comm 1]
  exact {
    field_eq := hf
    mem_assumed := h.mem_assumed
    covered := h.covered
    disjoint := fun j => ⟨fun ⟨ha, hh⟩ => (h.history_new j hh).1 ha,
      fun ⟨ha, hs⟩ => h.skipped_new j hs ha, fun ⟨hh, hs⟩ => (h.history_new j hh).2 hs⟩
    ascending := h.ascending
    history_lt := h.history_lt
    skipped_lt := h.skipped_lt
    fresh := h.not_mem_of_isOpen hf hopen
    kept := fun j ha f hj => h.answered.kept j f hj fun hh => (h.history_new j hh).1 ha
    counted := by
      intro make w
      rw [Nat.add_comm 1] at htotal ⊢
      simp only [present, htotal]
      rfl
    back_out := by
      intro hempty w
      unfold settle settleBack
      rw [landing?_eq_getLast? h.history_lt, hempty]
      rfl
    back_in := by
      intro hne
      obtain ⟨hs, e, he⟩ : ∃ hs e, v.run.history = hs ++ [e] :=
        ⟨_, _, (List.dropLast_concat_getLast hne).symm⟩
      obtain ⟨f, r, hfe, horder, hhistory, hback⟩ := h.settleBack_eq (o := o) hform hf he
      have hlt := h.lt_last he
      have hmem : ∀ j, j ∈ v.run.history ↔ j ∈ hs ∨ j = e := by
        intro j
        rw [he, List.mem_append, List.mem_singleton]
      refine ⟨e, f, r, (hmem e).mpr (Or.inr rfl), ?_, hfe, hback, ?_, ?_, ?_⟩
      · intro j hj
        rcases (hmem j).mp hj with hj | rfl
        · exact Nat.le_of_lt (hlt j hj)
        · exact Nat.le_refl j
      · intro j
        rw [hhistory, hmem]
        constructor
        · exact fun hj => ⟨Or.inl hj, Nat.ne_of_lt (hlt j hj)⟩
        · exact fun ⟨hj, hje⟩ => hj.resolve_right hje
      · -- the field gone back to was answered, so the start does not fill it
        have ha := (h.history_new e ((hmem e).mpr (Or.inr rfl))).1
        exact horder.isOpen_frontier hfe (h.isFilled_initial hfe ha)
      · exact fun j hj g hg => horder.isClosed_of_lt hg hj }

end Run

/-- **Every step of every run is orderly**: whatever the start, the policy, the answers to offer
again and the replies are. -/
theorem Form.orderly_of_mem_visits {form : Form} {o : Options} {initial recent : Draft} {n : Nat}
    {w : Session} {v : Visit} (hform : form.Separate)
    (hv : v ∈ form.visits n o initial recent w) : v.Orderly form o initial := by
  obtain ⟨first, r, before, hstart, hleads, hshows⟩ := Form.leads_of_mem_visits hv
  obtain ⟨k, hr⟩ := hleads.inOrder hform hstart
  obtain ⟨hf, horder, hopen⟩ := hr.shows hshows
  exact horder.orderly hform hf hopen

/-- The step that the user of the tour goes back from is orderly. -/
theorem tour_second_step_orderly :
    Form.tour.Separate ∧
    ∃ h : 1 < (Form.tour.visits 10 .default .tour .empty .tour).length,
      (Form.tour.visits 10 .default .tour .empty .tour)[1].place = 2 ∧
      (Form.tour.visits 10 .default .tour .empty .tour)[1].Orderly .tour .default .tour :=
  ⟨Form.separate_tour, by decide, by decide,
    Form.orderly_of_mem_visits Form.separate_tour (List.getElem_mem (by decide))⟩

end Interview
