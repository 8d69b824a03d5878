import Mathlib.Data.List.Induction
import Interview.Proofs.Draft.Below
import Interview.Proofs.Run.Reoffers
/-
Clearing, one field after the other.

Going back resets the field that it lands on and then looks at every later field in order. A field
is either spared or cleared, and whether it is cleared depends on the fields cleared before it.
What such a sweep does (`Run.Sweeps`) is proved here by induction on it, for whatever forms and
policies.

In a form whose paths do not overlap, a reset changes what is read at the path of its own field and
at no other. So what the draft has at the end at a field is told by whether that field was cleared,
and whether a reset succeeds does not depend on the resets before it. Where paths overlap, that no
longer holds of objects, but it does of the values that have nothing below them.

The last section is about whole runs. Drafts are changed by writes and resets at the paths of fields
and by nothing else, so what these keep holds in every run (`Run.Leads.draft_keeps`).
-/

set_option autoImplicit false

namespace Interview

/-- A path leads to a place in a draft: it is not the root, and the place is there or below. -/
def Path.Covers (p : Path) (s : List String) : Prop :=
  p.isRoot = false ∧ p.segments <+: s

namespace Run

variable {form : Form} {policy : Policy} {r : Run} {i : Nat} {c c' : Clearing}

/-! ## Resets that succeed -/

/-- A reset succeeds just if there is nothing to put back, or nothing in the way of it. -/
theorem exists_reset_eq_ok_iff {initial d : Draft} {p : Path} :
    (∃ d', reset initial p d = .ok d') ↔ d.Admits p ∨ initial.get? p = none := by
  refine ⟨?_, exists_reset_eq_ok_of_get?⟩
  rintro ⟨d', hreset⟩
  unfold reset at hreset
  split at hreset
  · exact Or.inl (Draft.Admits.of_remove (Or.inl rfl) (Draft.admits_of_set_eq_ok hreset))
  · rename_i hnone
    exact Or.inr hnone

/-- Whether a reset succeeds does not depend on a reset before it at a path that is apart. -/
theorem exists_reset_eq_ok_congr {initial d d' : Draft} {p q : Path}
    (hpq : Apart p.segments q.segments) (h : reset initial p d = .ok d') :
    (∃ d₂, reset initial q d' = .ok d₂) ↔ ∃ d₂, reset initial q d = .ok d₂ := by
  rw [exists_reset_eq_ok_iff, exists_reset_eq_ok_iff]
  refine or_congr_left ⟨fun hq => hq.of_reset (Or.inr hpq) h, fun hq => ?_⟩
  exact admits_reset hq (Or.inr hpq) h

/-! ## Resets above and below a place -/

section Leaves

variable {initial d d' : Draft} {p : Path} {x : Json} {s u : List String}

/-- A reset leaves alone what is read at a place apart from its path. -/
theorem at?_reset_of_segments_apart (hps : Apart p.segments s) (h : reset initial p d = .ok d') :
    d'.members.at? s = d.members.at? s := by
  have hremove : (d.remove p).2.members.at? s = d.members.at? s :=
    Members.at?_remove_of_apart _ hps
  unfold reset at h
  split at h
  · exact (Members.at?_set?_of_apart hps (Draft.set_eq_ok h).2).trans hremove
  · rw [← Except.ok.inj h]
    exact hremove

/-- There is nothing to reset at the root. -/
theorem reset_root (h : p.isRoot = true) : reset initial p d = .ok d := by
  have hnil : p.segments = [] := List.isEmpty_iff.mp h
  rw [reset, Draft.get?, Draft.remove, hnil]
  rfl

/-- **A reset makes no leaf above its path.** -/
theorem at?_of_at?_reset_above (hu : u ≠ []) (hp : p.segments = s ++ u) (hx : x.isLeaf = true)
    (h : reset initial p d = .ok d') (hat : d'.members.at? s = some x) :
    d.members.at? s = some x := by
  have hremove : (d.remove p).2.members.at? s = some x ↔ d.members.at? s = some x := by
    show (d.members.remove p.segments).2.at? s = some x ↔ _
    rw [hp]
    exact Members.at?_remove_above hu hx
  unfold reset at h
  split at h
  · have hset := (Draft.set_eq_ok h).2
    rw [hp] at hset
    exact absurd hat (Members.at?_set?_above hu hx hset)
  · rw [← Except.ok.inj h] at hat
    exact hremove.mp hat

/-- An atom above the path of a reset stays: there is nothing below it to take out, and nothing can
have been below it at the start that would be put back. -/
theorem at?_reset_above (hu : u ≠ []) (hp : p.segments = s ++ u) (hx : x.isAtom = true)
    (h : reset initial p d = .ok d') :
    d'.members.at? s = some x ↔ d.members.at? s = some x := by
  have hleaf := Json.isLeaf_of_isAtom hx
  refine ⟨at?_of_at?_reset_above hu hp hleaf h, fun hat => ?_⟩
  have hremove : (d.remove p).2.members.at? s = some x := by
    show (d.members.remove p.segments).2.at? s = some x
    rw [hp]
    exact (Members.at?_remove_above hu hleaf).mpr hat
  unfold reset at h
  split at h
  · have hfree : (d.remove p).2.members.Admits p.segments := Draft.admits_of_set_eq_ok h
    rw [hp] at hfree
    exact absurd hfree (Members.not_admits_of_atom hu hx hremove)
  · rwa [← Except.ok.inj h]

/-- **A reset whose path leads to an atom** puts it as it was at the start. -/
theorem at?_reset_of_covers (hs : p.Covers s) (hx : x.isAtom = true)
    (h : reset initial p d = .ok d') :
    d'.members.at? s = some x ↔ initial.members.at? s = some x := by
  obtain ⟨hroot, u, rfl⟩ := hs
  have hget := get?_reset_self h
  exact ⟨Draft.at?_append_of_get?_eq (Path.segments_ne_nil hroot) hx hget.symm,
    Draft.at?_append_of_get?_eq (Path.segments_ne_nil hroot) hx hget⟩

/-- **A reset whose path does not lead to an atom** leaves the atom alone. -/
theorem at?_reset_of_not_covers (hs : ¬p.Covers s) (hx : x.isAtom = true)
    (h : reset initial p d = .ok d') :
    d'.members.at? s = some x ↔ d.members.at? s = some x := by
  rcases hroot : p.isRoot with _ | _
  · have hnot : ¬p.segments <+: s := fun hpre => hs ⟨hroot, hpre⟩
    by_cases habove : s <+: p.segments
    · obtain ⟨u, hu⟩ := habove
      refine at?_reset_above (fun hnil => hnot ?_) hu.symm hx h
      rw [hnil, List.append_nil] at hu
      exact hu ▸ List.prefix_refl s
    · rw [at?_reset_of_segments_apart ⟨hnot, habove⟩ h]
  · rw [reset_root hroot, Except.ok.injEq] at h
    rw [h]

end Leaves

/-! ## What a sweep does -/

namespace Sweeps

/-- Only places from there on are cleared in addition. -/
theorem mem_cleared_iff (h : r.Sweeps policy form i c c') {j : Nat} (hj : j < i) :
    j ∈ c'.cleared ↔ j ∈ c.cleared := by
  induction h with
  | done => exact Iff.rfl
  | spare _ _ _ ih => exact ih (Nat.lt_succ_of_lt hj)
  | clear _ _ _ _ _ ih =>
      rw [ih (Nat.lt_succ_of_lt hj), List.mem_append, List.mem_singleton]
      exact or_iff_left (Nat.ne_of_lt hj)

/-- **A sweep resets the fields that it clears**, and leaves the others alone. -/
theorem get?_draft (hform : form.Separate) (h : r.Sweeps policy form i c c')
    (hc : ∀ j ∈ c.cleared, j < i) {j : Nat} {g : Field} (hg : form.fields[j]? = some g) :
    c'.draft.get? g.path =
      if i ≤ j ∧ j ∈ c'.cleared then r.initial.get? g.path else c.draft.get? g.path := by
  induction h with
  | @done i c last =>
      obtain ⟨hj, -⟩ := List.getElem?_eq_some_iff.mp hg
      rw [if_neg fun hcleared => by omega]
  | @spare i f c c' field stays later ih =>
      have hnot : i ∉ c'.cleared := by
        rw [later.mem_cleared_iff (Nat.lt_succ_self i)]
        exact fun hmem => Nat.lt_irrefl i (hc i hmem)
      rw [ih fun k hk => Nat.lt_succ_of_lt (hc k hk)]
      refine if_congr (and_congr_left fun hmem => ?_) rfl rfl
      have hne : j ≠ i := fun heq => hnot (heq ▸ hmem)
      omega
  | @clear i f c c' d field new stale reset later ih =>
      have hmem : i ∈ c'.cleared :=
        (later.mem_cleared_iff (Nat.lt_succ_self i)).mpr List.mem_concat_self
      rw [ih (lt_of_mem_concat hc)]
      by_cases hij : i = j
      · subst hij
        rw [field, Option.some.injEq] at hg
        rw [if_neg fun hcleared => by omega, if_pos ⟨Nat.le_refl i, hmem⟩, ← hg]
        exact get?_reset_self reset
      · -- the reset is apart from the path of another field
        have hother : d.get? g.path = c.draft.get? g.path :=
          Draft.get?_eq_of_at?_eq (at?_reset_of_apart (hform.apart field hg hij) reset)
        rw [hother]
        exact if_congr (and_congr_left fun _ => by omega) rfl rfl

/-- What every reset of a field keeps holds after the sweep. -/
theorem keeps {P : Draft → Prop} (h : r.Sweeps policy form i c c')
    (hreset : ∀ f ∈ form.fields, ∀ d d', P d → Run.reset r.initial f.path d = .ok d' → P d')
    (hc : P c.draft) : P c'.draft := by
  induction h with
  | done => exact hc
  | spare _ _ _ ih => exact ih hc
  | clear field _ _ reset _ ih => exact ih (hreset _ (List.mem_of_getElem? field) _ _ hc reset)

end Sweeps

/-! ## What going back does -/

section Rewinds

variable {place j : Nat} {path : Path} {f g : Field}

/-- The cleared fields are the one gone back to and later ones. -/
theorem le_of_mem_cleared (h : r.rewind policy form place path = .ok c) (hj : j ∈ c.cleared) :
    place ≤ j := by
  obtain ⟨d, -, hsweeps⟩ := rewind_eq_ok_iff.mp h
  by_contra hlt
  rw [hsweeps.mem_cleared_iff (by omega), List.mem_singleton] at hj
  omega

/-- The field gone back to is cleared. -/
theorem mem_cleared_of_rewind (h : r.rewind policy form place path = .ok c) :
    place ∈ c.cleared := by
  obtain ⟨d, -, hsweeps⟩ := rewind_eq_ok_iff.mp h
  exact (hsweeps.mem_cleared_iff (Nat.lt_succ_self place)).mpr List.mem_cons_self

/-- **Going back makes the cleared fields what they were at the start**, and leaves the others. -/
theorem get?_draft_of_rewind (hform : form.Separate) (hf : form.fields[place]? = some f)
    (h : r.rewind policy form place f.path = .ok c) (hg : form.fields[j]? = some g) :
    c.draft.get? g.path =
      if j ∈ c.cleared then r.initial.get? g.path else r.draft.get? g.path := by
  obtain ⟨d, hreset, hsweeps⟩ := rewind_eq_ok_iff.mp h
  rw [hsweeps.get?_draft hform
    (fun k hk => List.mem_singleton.mp hk ▸ Nat.lt_succ_self place) hg]
  by_cases hj : j = place
  · subst hj
    rw [hf, Option.some.injEq] at hg
    rw [if_neg fun h => Nat.not_succ_le_self j h.1, if_pos (mem_cleared_of_rewind h), ← hg]
    exact get?_reset_self hreset
  · have hother : d.get? g.path = r.draft.get? g.path := Draft.get?_eq_of_at?_eq
      (at?_reset_of_apart (hform.apart hf hg (Ne.symm hj)) hreset)
    rw [hother]
    refine if_congr (and_iff_right_of_imp fun hmem => ?_) rfl rfl
    exact Nat.lt_of_le_of_ne (le_of_mem_cleared h hmem) (Ne.symm hj)

/-- **Going back takes away what would be offered again at the cleared fields**, but for the field
gone back to. -/
theorem get?_recent_of_rewind (hform : form.Separate) (h : r.rewind policy form place path = .ok c)
    (hg : form.fields[j]? = some g) :
    c.recent.get? g.path = if j ∈ c.cleared ∧ j ≠ place then none else r.recent.get? g.path := by
  obtain ⟨d, -, hsweeps⟩ := rewind_eq_ok_iff.mp h
  have hclears := hsweeps.clears hform
    fun k hk => List.mem_singleton.mp hk ▸ Nat.lt_succ_self place
  rw [hclears.recent j g hg]
  refine if_congr ⟨fun ⟨hlt, hmem⟩ => ⟨hmem, Nat.ne_of_gt hlt⟩, fun ⟨hmem, hne⟩ => ?_⟩ rfl rfl
  exact ⟨Nat.lt_of_le_of_ne (le_of_mem_cleared h hmem) (Ne.symm hne), hmem⟩

end Rewinds

/-! ## Whole runs -/

variable {o : Options} {r' : Run} {first : Run} {vs vs' : List Visit} {v : Visit}

/-- A search keeps what the run started with. -/
theorem initial_of_shows (h : r.Shows o form v) : v.run.initial = r.initial := by
  obtain ⟨entries, make, hseek⟩ := h
  have hfound : FoundWith o form (fun _ next => next.initial = r.initial) (r.seek o form).2.1
      (r.seek o form).2.2 :=
    seek_keeps (fun _ _ _ hr => hr) (fun _ _ _ _ hr _ => hr) (fun _ _ _ _ _ hr _ _ => hr) rfl
  rw [hseek] at hfound
  exact hfound.2.1

/-- A search keeps the history. -/
theorem history_of_shows (h : r.Shows o form v) : v.run.history = r.history := by
  obtain ⟨entries, make, hseek⟩ := h
  exact (kept_of_seek hseek).2.1.1

/-- A search keeps the draft. -/
theorem draft_of_shows (h : r.Shows o form v) : v.run.draft = r.draft := by
  obtain ⟨entries, make, hseek⟩ := h
  exact (kept_of_seek hseek).2.1.2.2

/-- The step of a visit is that of a field. -/
theorem field_of_shows (h : r.Shows o form v) : form.fields[v.place]? = some v.field := by
  obtain ⟨entries, make, hseek⟩ := h
  exact (offer_of_seek_eq hseek).1

/-- No visit changes what a run started with. -/
theorem Leads.initial_eq (h : Leads o form first vs r) : r.initial = first.initial := by
  induction h with
  | start => rfl
  | @next vs r r' v w before hshows hgoes ih =>
      have hv := (initial_of_shows hshows).trans ih
      rcases settled_eq_goesOn hgoes with ⟨a, -, haccept⟩ | ⟨a, message, -, rfl⟩ | ⟨e, -, -, hback⟩
      · obtain ⟨draft, recent, -, -, rfl⟩ := accept_eq_ok haccept
        exact hv
      · exact hv
      · obtain ⟨c, -, rfl⟩ := exists_rewind_of_goBack hback
        exact hv

/-- **What every write and every reset of a field keeps** holds of the draft after any visits. -/
theorem Leads.draft_keeps {P : Draft → Prop} (h : Leads o form first vs r)
    (hset : ∀ f ∈ form.fields, ∀ d d' a, P d → d.set f.path a = .ok d' → P d')
    (hreset : ∀ f ∈ form.fields, ∀ d d', P d → reset first.initial f.path d = .ok d' → P d')
    (hfirst : P first.draft) : P r.draft := by
  induction h with
  | start => exact hfirst
  | @next vs r r' v w before hshows hgoes ih =>
      have hv : P v.run.draft := draft_of_shows hshows ▸ ih
      rcases settled_eq_goesOn hgoes with ⟨a, -, haccept⟩ | ⟨a, message, -, rfl⟩ | ⟨e, -, -, hback⟩
      · obtain ⟨draft, recent, hdraft, -, rfl⟩ := accept_eq_ok haccept
        exact hset _ (List.mem_of_getElem? (field_of_shows hshows)) _ _ _ hv hdraft
      · exact hv
      · obtain ⟨c, hrewind, rfl⟩ := exists_rewind_of_goBack hback
        obtain ⟨d, hd, hsweeps⟩ := rewind_eq_ok_iff.mp hrewind
        have hinitial : v.run.initial = first.initial :=
          (initial_of_shows hshows).trans before.initial_eq
        rw [← hinitial] at hreset
        refine hsweeps.keeps hreset ?_
        rcases hf : form.fields[e]? with _ | f
        · -- without a field to go back to, nothing is reset
          rw [hf, Option.map_none, Option.getD_none, reset_root rfl, Except.ok.injEq] at hd
          exact hd ▸ hv
        · rw [target_eq hf] at hd
          exact hreset f (List.mem_of_getElem? hf) _ _ hv hd

/-- Without visits, a run is where it started. -/
theorem Leads.of_nil (h : Leads o form first [] r) : r = first := by
  generalize hnil : [] = all at h
  cases h with
  | start => rfl
  | next => exact absurd hnil (by simp)

/-- The last of some visits is shown after the others. -/
theorem Leads.of_concat (h : Leads o form first (vs ++ [v]) r) :
    ∃ r₀ w, Leads o form first vs r₀ ∧ r₀.Shows o form v ∧ v.settled o form = (.goesOn r, w) := by
  generalize hall : vs ++ [v] = all at h
  cases h with
  | start => exact absurd hall (by simp)
  | next before hshows hgoes =>
      obtain ⟨rfl, hlast⟩ := List.append_inj' hall rfl
      obtain rfl := List.singleton_inj.mp hlast
      exact ⟨_, _, before, hshows, hgoes⟩

/-- **A run can be stopped between any two visits.** -/
theorem Leads.split (h : Leads o form first (vs ++ vs') r) :
    ∃ mid, Leads o form first vs mid ∧ Leads o form mid vs' r := by
  induction vs' using List.reverseRecOn generalizing r with
  | nil => exact ⟨r, by rwa [List.append_nil] at h, .start⟩
  | append_singleton vs' v ih =>
      rw [← List.append_assoc] at h
      obtain ⟨r₀, w, hbefore, hshows, hgoes⟩ := h.of_concat
      obtain ⟨mid, hfirst, hmid⟩ := ih hbefore
      exact ⟨mid, hfirst, hmid.next hshows hgoes⟩

/-- The first of some visits is shown at once. -/
theorem Leads.of_cons (h : Leads o form first (v :: vs) r) :
    ∃ mid w, first.Shows o form v ∧ v.settled o form = (.goesOn mid, w) ∧
      Leads o form mid vs r := by
  obtain ⟨mid, hone, hrest⟩ := (show Leads o form first ([v] ++ vs) r from h).split
  obtain ⟨r₀, w, hstart, hshows, hgoes⟩ :=
    (show Leads o form first ([] ++ [v]) mid from hone).of_concat
  obtain rfl := hstart.of_nil
  exact ⟨mid, w, hshows, hgoes, hrest⟩

end Run

end Interview
