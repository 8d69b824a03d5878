import Mathlib.Logic.Relation
import Interview.Proofs.Run.Clearing
/-
Clearing by declared dependencies is the transitive closure.

Under the policy that goes by dependencies, one pass over the later fields clears those that depend
on a field cleared before. This file says that the pass misses nothing: what it clears are the
fields from which the field gone back to can be reached by dependencies, through fields that are
not assumed and declared after it. A dependency counts when it overlaps the path of a field, and an
assumed field cuts the chain.

One pass is enough because dependencies look back: what a field depends on has been looked at before
the field itself. So the invariant is that, up to where the pass has come, exactly the outdated
fields are cleared. The paths of the fields do not overlap, and hence each reset tells on the path
of its own field only.
-/

set_option autoImplicit false

namespace Interview

/-! ## Dependencies between fields -/

/-- Whether a field declares to depend on something at a path, above it or below it. -/
def Field.dependsOnPath (f : Field) (p : Path) : Bool :=
  f.dependsOn.any fun d => p.overlaps d

namespace Form

/-- The field at one place depends on the field at another. -/
def DependsOn (form : Form) (j i : Nat) : Prop :=
  ∃ f g, form.fields[j]? = some f ∧ form.fields[i]? = some g ∧ f.dependsOnPath g.path = true

/-- Every field depends only on fields declared before it. -/
def LooksBack (form : Form) : Prop :=
  ∀ j i, form.DependsOn j i → i < j

/-- Dependencies look back if no field depends on itself or on a later one. -/
theorem looksBack_of_pairwise {form : Form}
    (hself : ∀ f ∈ form.fields, f.dependsOnPath f.path = false)
    (hlater : form.fields.Pairwise fun f g => f.dependsOnPath g.path = false) :
    form.LooksBack := by
  rintro j i ⟨f, g, hf, hg, hdepends⟩
  obtain ⟨hj, rfl⟩ := List.getElem?_eq_some_iff.mp hf
  obtain ⟨hi, rfl⟩ := List.getElem?_eq_some_iff.mp hg
  rcases Nat.lt_trichotomy i j with hlt | rfl | hgt
  · exact hlt
  · rw [hself _ (List.getElem_mem hi)] at hdepends
    exact absurd hdepends Bool.false_ne_true
  · rw [List.pairwise_iff_getElem.mp hlater j i hj hi hgt] at hdepends
    exact absurd hdepends Bool.false_ne_true

end Form

namespace Run

variable {form : Form} {r : Run} {place i j : Nat} {f : Field} {c c' : Clearing}

/-! ## Outdated fields -/

/-- A field that is declared after a place and not assumed depends on another one. -/
def Follows (r : Run) (form : Form) (place j i : Nat) : Prop :=
  j ∉ r.assumed ∧ place < j ∧ form.DependsOn j i

/-- **A field is out of date when the answer at a place is taken back**: the place can be reached
from it by dependencies, through fields declared after the place that are not assumed. -/
def Outdated (r : Run) (form : Form) (place j : Nat) : Prop :=
  Relation.TransGen (r.Follows form place) j place

/-- A field is out of date just if it depends on the field at the place, or on one that is out of
date itself. -/
theorem outdated_iff : r.Outdated form place j ↔
    j ∉ r.assumed ∧ place < j ∧ ∃ i, form.DependsOn j i ∧ (i = place ∨ r.Outdated form place i) := by
  unfold Outdated
  rw [Relation.TransGen.head'_iff]
  simp only [Relation.reflTransGen_iff_eq_or_transGen, Follows]
  constructor
  · rintro ⟨i, ⟨hnew, hlt, hdepends⟩, hi⟩
    exact ⟨hnew, hlt, i, hdepends, hi.imp_left Eq.symm⟩
  · rintro ⟨hnew, hlt, i, hdepends, hi⟩
    exact ⟨i, ⟨hnew, hlt, hdepends⟩, hi.imp_left Eq.symm⟩

/-- What is out of date is declared after the place. -/
theorem Outdated.lt (h : r.Outdated form place j) : place < j :=
  (outdated_iff.mp h).2.1

/-- Where something is out of date, there is a field. -/
theorem Outdated.exists_field (h : r.Outdated form place j) :
    ∃ f, form.fields[j]? = some f := by
  obtain ⟨-, -, i, ⟨f, -, hf, -⟩, -⟩ := outdated_iff.mp h
  exact ⟨f, hf⟩

/-- A field is stale when it depends on a cleared one. -/
theorem isStale_iff {cleared : List Nat} (hf : form.fields[j]? = some f) :
    isStale .declaredDependencies form cleared f = true ↔ ∃ i ∈ cleared, form.DependsOn j i := by
  simp only [isStale, Form.DependsOn, Field.dependsOnPath, List.any_eq_true, Option.any_eq_true, hf,
    Option.some.injEq]
  constructor
  · rintro ⟨d, hd, i, hi, g, hg, hoverlaps⟩
    exact ⟨i, hi, f, g, rfl, hg, d, hd, hoverlaps⟩
  · rintro ⟨i, hi, _, g, rfl, hg, d, hd, hoverlaps⟩
    exact ⟨d, hd, i, hi, g, hg, hoverlaps⟩

/-! ## The pass -/

/-- **Up to a place, exactly the outdated fields are cleared**, in order, and the field gone back
to. -/
structure ClearsOutdated (r : Run) (form : Form) (place : Nat) (cleared : List Nat) (i : Nat) :
    Prop where
  ascending : cleared.Pairwise (· < ·)
  mem_iff : ∀ j, j ∈ cleared ↔ j < i ∧ (j = place ∨ r.Outdated form place j)

namespace ClearsOutdated

variable {cleared : List Nat}

/-- At first nothing but the field gone back to is cleared. -/
theorem start : r.ClearsOutdated form place [place] (place + 1) where
  ascending := List.pairwise_singleton _ _
  mem_iff := by
    intro j
    rw [List.mem_singleton]
    constructor
    · rintro rfl
      exact ⟨Nat.lt_succ_self j, Or.inl rfl⟩
    · rintro ⟨hlt, hj⟩
      refine hj.resolve_right fun houtdated => ?_
      exact Nat.lt_irrefl place (Nat.lt_of_lt_of_le houtdated.lt (Nat.le_of_lt_succ hlt))

theorem lt (h : r.ClearsOutdated form place cleared i) : ∀ j ∈ cleared, j < i :=
  fun j hj => ((h.mem_iff j).mp hj).1

/-- **The next field is cleared just if it is out of date**, because all that it depends on has been
looked at. -/
theorem outdated_iff_stale (hback : form.LooksBack) (h : r.ClearsOutdated form place cleared i)
    (hplace : place < i) (hf : form.fields[i]? = some f) :
    r.Outdated form place i ↔
      i ∉ r.assumed ∧ isStale .declaredDependencies form cleared f = true := by
  rw [outdated_iff, isStale_iff hf]
  refine and_congr_right fun _ => (and_iff_right hplace).trans ?_
  refine exists_congr fun j => ⟨fun ⟨hdepends, hj⟩ => ?_, fun ⟨hj, hdepends⟩ => ?_⟩
  · exact ⟨(h.mem_iff j).mpr ⟨hback i j hdepends, hj⟩, hdepends⟩
  · exact ⟨hdepends, ((h.mem_iff j).mp hj).2⟩

/-- The pass moves over a field that is spared. -/
theorem spare (h : r.ClearsOutdated form place cleared i) (hplace : place < i)
    (hi : ¬r.Outdated form place i) : r.ClearsOutdated form place cleared (i + 1) where
  ascending := h.ascending
  mem_iff := by
    intro j
    rw [h.mem_iff]
    refine and_congr_left fun hj => ⟨Nat.lt_succ_of_lt, fun hlt => ?_⟩
    rcases Nat.lt_succ_iff_lt_or_eq.mp hlt with hlt | rfl
    · exact hlt
    · rcases hj with rfl | hj
      · exact absurd hplace (Nat.lt_irrefl j)
      · exact absurd hj hi

/-- The pass moves over a field that is cleared. -/
theorem clear (h : r.ClearsOutdated form place cleared i) (hi : r.Outdated form place i) :
    r.ClearsOutdated form place (cleared ++ [i]) (i + 1) where
  ascending := by
    refine List.pairwise_append.mpr ⟨h.ascending, List.pairwise_singleton _ _, ?_⟩
    intro j hj k hk
    exact List.mem_singleton.mp hk ▸ h.lt j hj
  mem_iff := by
    intro j
    rw [List.mem_append, List.mem_singleton, h.mem_iff, Nat.lt_succ_iff_lt_or_eq]
    constructor
    · rintro (⟨hlt, hj⟩ | rfl)
      · exact ⟨Or.inl hlt, hj⟩
      · exact ⟨Or.inr rfl, Or.inr hi⟩
    · rintro ⟨hlt | rfl, hj⟩
      · exact Or.inl ⟨hlt, hj⟩
      · exact Or.inr rfl

/-- At the end of the pass, exactly the outdated fields are cleared. -/
theorem of_sweeps (hback : form.LooksBack) (hplace : place < i)
    (h : r.ClearsOutdated form place c.cleared i)
    (hsweeps : r.Sweeps .declaredDependencies form i c c') :
    ∃ k, form.fields.length ≤ k ∧ r.ClearsOutdated form place c'.cleared k := by
  induction hsweeps with
  | @done i c last => exact ⟨i, last, h⟩
  | @spare i f c c' field stays later ih =>
      refine ih (Nat.lt_succ_of_lt hplace) (h.spare hplace fun houtdated => ?_)
      obtain ⟨hnew, hstale⟩ := (h.outdated_iff_stale hback hplace field).mp houtdated
      rw [stays.resolve_left hnew] at hstale
      exact absurd hstale Bool.false_ne_true
  | @clear i f c c' d field new stale reset later ih =>
      have houtdated := (h.outdated_iff_stale hback hplace field).mpr ⟨new, stale⟩
      exact ih (Nat.lt_succ_of_lt hplace) (h.clear houtdated)

/-- **The pass succeeds just if all outdated fields can be reset**, each by itself. -/
theorem exists_sweeps_iff (hform : form.Separate) (hback : form.LooksBack) (hplace : place < i)
    (h : r.ClearsOutdated form place c.cleared i) :
    (∃ c', r.Sweeps .declaredDependencies form i c c') ↔
      ∀ j g, i ≤ j → form.fields[j]? = some g → r.Outdated form place j →
        ∃ d, reset r.initial g.path c.draft = .ok d := by
  generalize hrest : form.fields.length - i = rest
  induction rest generalizing i c with
  | zero =>
      refine iff_of_true ⟨c, .done c (Nat.le_of_sub_eq_zero hrest)⟩ fun j g hj hg => ?_
      obtain ⟨hlt, -⟩ := List.getElem?_eq_some_iff.mp hg
      omega
  | succ rest ih =>
      have hi : i < form.fields.length := by omega
      have hf := List.getElem?_eq_getElem hi
      have hstale := h.outdated_iff_stale hback hplace hf
      by_cases houtdated : r.Outdated form place i
      · -- the field is cleared, and its reset does not tell on the resets of the later ones
        obtain ⟨hnew, hstale⟩ := hstale.mp houtdated
        have hlater : ∀ {d}, reset r.initial form.fields[i].path c.draft = .ok d →
            ((∃ c', r.Sweeps .declaredDependencies form (i + 1)
                ⟨d, (c.recent.remove form.fields[i].path).2, c.cleared ++ [i]⟩ c') ↔
              ∀ j g, i + 1 ≤ j → form.fields[j]? = some g → r.Outdated form place j →
                ∃ d', reset r.initial g.path c.draft = .ok d') := by
          intro d hreset
          rw [ih (Nat.lt_succ_of_lt hplace) (h.clear houtdated) (by omega)]
          refine forall₃_congr fun j g hj => forall₂_congr fun hg _ => ?_
          exact exists_reset_eq_ok_congr (hform.apart hf hg (by omega)) hreset
        constructor
        · rintro ⟨c', hsweeps⟩ j g hj hg hout
          obtain ⟨d, hreset, later⟩ := (Sweeps.iff_of_stale hf hnew hstale).mp hsweeps
          rcases Nat.eq_or_lt_of_le hj with rfl | hlt
          · rw [hf, Option.some.injEq] at hg
            exact ⟨d, hg ▸ hreset⟩
          · exact (hlater hreset).mp ⟨c', later⟩ j g hlt hg hout
        · intro hall
          obtain ⟨d, hreset⟩ := hall i _ (Nat.le_refl i) hf houtdated
          obtain ⟨c', later⟩ :=
            (hlater hreset).mpr fun j g hj => hall j g (Nat.le_of_succ_le hj)
          exact ⟨c', .clear hf hnew hstale hreset later⟩
      · -- the field is spared, and nothing is asked of it
        have hstays : i ∈ r.assumed ∨
            isStale .declaredDependencies form c.cleared form.fields[i] = false := by
          rw [← Bool.not_eq_true, ← not_not (a := i ∈ r.assumed), ← not_and_or, ← hstale]
          exact houtdated
        simp only [Sweeps.iff_of_stays hf hstays]
        rw [ih (Nat.lt_succ_of_lt hplace) (h.spare hplace houtdated) (by omega)]
        refine ⟨fun hall j g hj hg hout => ?_, fun hall j g hj => hall j g (Nat.le_of_succ_le hj)⟩
        rcases Nat.eq_or_lt_of_le hj with rfl | hlt
        · exact absurd hout houtdated
        · exact hall j g hlt hg hout

end ClearsOutdated

/-! ## Going back -/

/-- **What going back to a place makes of the two drafts.** The field there is cleared, and so is
what is out of date with it, in the order of the form. A cleared field has what the start has, and
is not offered its answer again, unless the user went back to it. Nothing changes at the others. -/
structure Rewound (r : Run) (form : Form) (place : Nat) (c : Clearing) : Prop where
  ascending : c.cleared.Pairwise (· < ·)
  mem_cleared_iff : ∀ j, j ∈ c.cleared ↔ j = place ∨ r.Outdated form place j
  draft : ∀ j g, form.fields[j]? = some g →
    c.draft.get? g.path = if j ∈ c.cleared then r.initial.get? g.path else r.draft.get? g.path
  recent : ∀ j g, form.fields[j]? = some g →
    c.recent.get? g.path = if j ∈ c.cleared ∧ j ≠ place then none else r.recent.get? g.path

/-- **Going back succeeds just if the field gone back to and all fields out of date with it can be
reset**, each by itself. -/
theorem exists_rewind_iff (hform : form.Separate) (hback : form.LooksBack)
    (hf : form.fields[place]? = some f) :
    (∃ c, r.rewind .declaredDependencies form place f.path = .ok c) ↔
      ∀ j g, form.fields[j]? = some g → j = place ∨ r.Outdated form place j →
        ∃ d, reset r.initial g.path r.draft = .ok d := by
  have hplace : place < place + 1 := Nat.lt_succ_self place
  -- the reset of the field gone back to does not tell on the resets of the others
  have hother : ∀ {j g d}, form.fields[j]? = some g → r.Outdated form place j →
      reset r.initial f.path r.draft = .ok d →
      ((∃ d', reset r.initial g.path d = .ok d') ↔
        ∃ d', reset r.initial g.path r.draft = .ok d') := fun hg houtdated hreset =>
    exists_reset_eq_ok_congr (hform.apart hf hg (Nat.ne_of_lt houtdated.lt)) hreset
  simp only [rewind_eq_ok_iff]
  constructor
  · rintro ⟨c, d, hreset, hsweeps⟩ j g hg (rfl | houtdated)
    · rw [hf, Option.some.injEq] at hg
      exact ⟨d, hg ▸ hreset⟩
    · exact (hother hg houtdated hreset).mp ((ClearsOutdated.start.exists_sweeps_iff hform hback
        hplace).mp ⟨c, hsweeps⟩ j g houtdated.lt hg houtdated)
  · intro hall
    obtain ⟨d, hreset⟩ := hall place f hf (Or.inl rfl)
    obtain ⟨c, hsweeps⟩ := (ClearsOutdated.start.exists_sweeps_iff
      (c := ⟨d, r.recent, [place]⟩) hform hback hplace).mpr fun j g _ hg houtdated =>
        (hother hg houtdated hreset).mpr (hall j g hg (Or.inr houtdated))
    exact ⟨c, d, hreset, hsweeps⟩

/-- Going back clears the field gone back to and what is out of date with it, in order. -/
theorem mem_cleared_iff_of_rewind (hback : form.LooksBack) (hf : form.fields[place]? = some f)
    (h : r.rewind .declaredDependencies form place f.path = .ok c) :
    c.cleared.Pairwise (· < ·) ∧ ∀ j, j ∈ c.cleared ↔ j = place ∨ r.Outdated form place j := by
  obtain ⟨d, -, hsweeps⟩ := rewind_eq_ok_iff.mp h
  obtain ⟨k, hk, hcleared⟩ :=
    ClearsOutdated.start.of_sweeps hback (Nat.lt_succ_self place) hsweeps
  refine ⟨hcleared.ascending, fun j => ?_⟩
  rw [hcleared.mem_iff]
  refine and_iff_right_of_imp fun hj => Nat.lt_of_lt_of_le ?_ hk
  rcases hj with rfl | hj
  · exact (List.getElem?_eq_some_iff.mp hf).1
  · obtain ⟨g, hg⟩ := hj.exists_field
    exact (List.getElem?_eq_some_iff.mp hg).1

/-- **Clearing by declared dependencies is the transitive closure.** Going back succeeds just if
the field gone back to and all fields out of date with it can be reset, and then it clears exactly
these. -/
theorem rewound_of_rewind (hform : form.Separate) (hback : form.LooksBack)
    (hf : form.fields[place]? = some f) :
    ((∃ c, r.rewind .declaredDependencies form place f.path = .ok c) ↔
      ∀ j g, form.fields[j]? = some g → j = place ∨ r.Outdated form place j →
        ∃ d, reset r.initial g.path r.draft = .ok d) ∧
    ∀ c, r.rewind .declaredDependencies form place f.path = .ok c → r.Rewound form place c := by
  refine ⟨exists_rewind_iff hform hback hf, fun c hrewind => ?_⟩
  obtain ⟨hascending, hmem⟩ := mem_cleared_iff_of_rewind hback hf hrewind
  exact ⟨hascending, hmem, fun j g => get?_draft_of_rewind hform hf hrewind,
    fun j g => get?_recent_of_rewind hform hrewind⟩

end Run

/-! ## A deployment

The kind of the target depends on the name, and the runtime on the whole target. The region depends
on the name as well, but it is there from the start, so the zone, which depends on it, is safe. -/

/-- The form of the deployment. -/
def Form.deployment : Form :=
  Form.empty
    |>.bind (.asking (.ofText "name") (.shaped .text) .unanswered)
    |>.bind { Field.asking (.ofText "target.kind") (.shaped .text) .unanswered with
        dependsOn := [.ofText "name"] }
    |>.bind { Field.asking (.ofText "region") (.shaped .text) .unanswered with
        dependsOn := [.ofText "name"] }
    |>.bind { Field.asking (.ofText "runtime") (.shaped .text) .unanswered with
        dependsOn := [.ofText "target"] }
    |>.bind { Field.asking (.ofText "zone") (.shaped .text) .unanswered with
        dependsOn := [.ofText "region"] }

/-- The run in which all of it has been answered. -/
def Run.deployment : Run where
  initial := ⟨[("region", .text "eu")]⟩
  assumed := [2]
  draft := ⟨[("name", .text "ant"), ("region", .text "eu"), ("runtime", .text "java"),
    ("target", .object [("kind", .text "code")]), ("zone", .text "a")]⟩
  recent := ⟨[("name", .text "ant"), ("runtime", .text "java"),
    ("target", .object [("kind", .text "code")]), ("zone", .text "a")]⟩
  history := [0, 1, 3, 4]
  skipped := []
  retry := none

/-- Going back to the name clears the kind of the target and the runtime besides. -/
theorem rewound_of_deployment :
    Form.deployment.Separate ∧ Form.deployment.LooksBack ∧
    ∃ f c, Form.deployment.fields[0]? = some f ∧
      Run.deployment.rewind .declaredDependencies .deployment 0 f.path = .ok c ∧
      c.cleared = [0, 1, 3] ∧ Run.deployment.Rewound .deployment 0 c := by
  have hform : Form.deployment.Separate := ⟨by decide, by decide⟩
  have hback : Form.deployment.LooksBack := Form.looksBack_of_pairwise (by decide) (by decide)
  exact ⟨hform, hback, _, _, rfl, rfl, rfl,
    (Run.rewound_of_rewind (r := .deployment) hform hback rfl).2 _ rfl⟩

end Interview
