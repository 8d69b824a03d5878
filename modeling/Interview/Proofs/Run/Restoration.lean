import Interview.Proofs.Run.Clearing
import Interview.Proofs.Run.Survival
/-
Going back restores the draft, except for empty objects.

When the user goes back to a field, the draft should be the one for which the field was shown when
it was answered. Taking an answer back removes the objects that it was stored in and that become
empty. But a record that a run starts from may hold an empty object itself. An answer stored under
it fills it, and when the answer is taken back the object goes with it, and never comes again.

That is the only way in which the draft can differ. The file shows that it is the draft of the
earlier visit just if no answer since then was stored under an empty object. In one direction,
writes and resets make no empty object on the way to a field, so one that was filled is lost for
good. In the other direction, the answered fields are a stack: going back takes the last answer
from it, and without an empty object on its way this is exact (`Trail`).
-/

set_option autoImplicit false

namespace Interview

/-- There is an empty object on the way to a path. -/
def Draft.HollowOn (d : Draft) (p : Path) : Prop :=
  ∃ t, t <+: p.segments ∧ t ≠ p.segments ∧ d.members.at? t = some (.object [])

/-- The visit brought an accepted answer, which was stored under an empty object. -/
def Visit.FillsHollow (v : Visit) : Prop :=
  v.accepted?.isSome = true ∧ v.run.draft.HollowOn v.field.path

/-! ## On the way to a field -/

/-- A place in a draft that some field is below. -/
def Form.OnWay (form : Form) (t : List String) : Prop :=
  ∃ f ∈ form.fields, t <+: f.path.segments ∧ t ≠ f.path.segments

namespace Form.OnWay

variable {form : Form} {t : List String} {f : Field} {d d' initial : Draft} {x a : Json}

/-- A field is apart from what is on the way to some field, or below it. -/
theorem apart_or_below (hform : form.Separate) (ht : form.OnWay t) (hf : f ∈ form.fields) :
    Apart f.path.segments t ∨ ∃ u, u ≠ [] ∧ f.path.segments = t ++ u := by
  obtain ⟨g, hg, hpre, hne⟩ := ht
  have habove : ¬f.path.segments <+: t := by
    intro hft
    obtain ⟨i, hi⟩ := List.mem_iff_getElem?.mp hf
    obtain ⟨j, hj⟩ := List.mem_iff_getElem?.mp hg
    rcases Nat.decEq i j with hij | rfl
    · exact (hform.apart hi hj hij).1 (hft.trans hpre)
    · rw [hi, Option.some.injEq] at hj
      subst hj
      exact hne (hpre.eq_of_length_le hft.length_le)
  by_cases hbelow : t <+: f.path.segments
  · obtain ⟨u, hu⟩ := hbelow
    refine Or.inr ⟨u, fun hnil => habove ?_, hu.symm⟩
    rw [← hu, hnil, List.append_nil]
  · exact Or.inl ⟨habove, hbelow⟩

/-- An answer makes no leaf on the way to a field. -/
theorem of_set (hform : form.Separate) (ht : form.OnWay t) (hf : f ∈ form.fields)
    (hx : x.isLeaf = true) (hset : d.set f.path a = .ok d') (hat : d'.members.at? t = some x) :
    d.members.at? t = some x := by
  obtain ⟨-, hset⟩ := Draft.set_eq_ok hset
  rcases ht.apart_or_below hform hf with hapart | ⟨u, hu, hpath⟩
  · rwa [← Members.at?_set?_of_apart hapart hset]
  · rw [hpath] at hset
    exact absurd hat (Members.at?_set?_above hu hx hset)

/-- A reset makes no leaf on the way to a field. -/
theorem of_reset (hform : form.Separate) (ht : form.OnWay t) (hf : f ∈ form.fields)
    (hx : x.isLeaf = true) (hreset : Run.reset initial f.path d = .ok d')
    (hat : d'.members.at? t = some x) : d.members.at? t = some x := by
  rcases ht.apart_or_below hform hf with hapart | ⟨u, hu, hpath⟩
  · rwa [← Run.at?_reset_of_segments_apart hapart hreset]
  · exact Run.at?_of_at?_reset_above hu hpath hx hreset hat

end Form.OnWay

/-! ## Tidy paths once more -/

/-- A path is tidy if the names along it ascend and it is free of null and of empty objects. -/
theorem Members.AscendsAlong.tidy_of_ne {p : List String} : ∀ {ms : Members}, ms.AscendsAlong p →
    (∀ t, t <+: p → ms.at? t ≠ some .null) →
    (∀ t, t <+: p → t ≠ p → ms.at? t ≠ some (.object [])) → ms.Tidy p := by
  induction p with
  | nil => exact fun _ _ _ => trivial
  | cons s rest ih =>
      rintro ms ⟨hasc, hinner⟩ hnull hhollow
      have hs : find? s ms ≠ some .null := hnull [s] ⟨rest, rfl⟩
      rcases rest with _ | ⟨t, rest⟩
      · exact ⟨hasc, hs⟩
      · refine tidy_cons hasc hs fun inner hobject => ⟨?_, ?_⟩
        · rintro rfl
          exact hhollow [s] ⟨t :: rest, rfl⟩ (by simp) hobject
        · -- what is read in the object is read behind the segment
          have hread : ∀ {q}, q <+: t :: rest → ∀ {v}, at? inner q = some v →
              ms.at? (s :: q) = some v := by
            intro q hq v hat
            obtain ⟨q', qs, rfl⟩ := List.exists_cons_of_ne_nil (ne_nil_of_at? hat)
            rwa [at?_cons_of_object hobject]
          refine ih (hinner inner hobject) (fun q hq hat => ?_) fun q hq hne hat => ?_
          · exact hnull (s :: q) (List.cons_prefix_cons.mpr ⟨rfl, hq⟩) (hread hq hat)
          · refine hhollow (s :: q) (List.cons_prefix_cons.mpr ⟨rfl, hq⟩) ?_ (hread hq hat)
            exact fun heq => hne (List.cons.inj heq).2

namespace Run

variable {form : Form} {initial recent : Draft} {o : Options} {first r r' : Run}
variable {vs past since : List Visit} {u v : Visit} {hs : List Nat} {d d' : Draft} {k e : Nat}

/-! ## Drafts in the course of a run -/

/-- **No visit makes a leaf on the way to a field.** -/
theorem Leads.leaf_onWay (hform : form.Separate) (h : Leads o form first vs r) {t : List String}
    (ht : form.OnWay t) {x : Json} (hx : x.isLeaf = true) (hat : r.draft.members.at? t = some x) :
    first.draft.members.at? t = some x :=
  h.draft_keeps (P := fun d => d.members.at? t = some x → first.draft.members.at? t = some x)
    (fun _ hf _ _ _ hd hset hat => hd (ht.of_set hform hf hx hset hat))
    (fun _ hf _ _ hd hreset hat => hd (ht.of_reset hform hf hx hreset hat)) id hat

/-- The names along the paths of the fields stay in order. -/
theorem Leads.ascendsAlong (hform : form.Separate) (hinitial : initial.Plain)
    (hstart : Run.start form initial recent = .ok first) (h : Leads o form first vs r) :
    ∀ f ∈ form.fields, r.draft.AscendsAlong f.path := by
  have hfirst : ∀ f ∈ form.fields, first.draft.AscendsAlong f.path := by
    rw [start_eq_ok hstart]
    exact fun f _ => Draft.ascendsAlong_of_ordered hinitial.ordered f.path
  refine h.draft_keeps (P := fun d => ∀ f ∈ form.fields, d.AscendsAlong f.path) ?_ ?_ hfirst
  · intro f hf d d' a hd hset
    obtain ⟨i, hi⟩ := List.mem_iff_getElem?.mp hf
    exact hform.forall_path hi hd fun q hq hpq => hq.set hpq hset
  · intro f hf d d' hd hreset
    obtain ⟨i, hi⟩ := List.mem_iff_getElem?.mp hf
    exact hform.forall_path hi hd fun q hq hpq => hq.reset hpq hreset

/-- **An answer that is not stored under an empty object can be taken back** to the letter. -/
theorem KeepsStart.reset_set (hinitial : initial.Plain)
    (h : v.run.KeepsStart o form initial vs v.place) (hf : form.fields[v.place]? = some v.field)
    (hasc : v.run.draft.AscendsAlong v.field.path)
    (hleaf : ∀ t, form.OnWay t → v.run.draft.members.at? t = some .null →
      initial.members.at? t = some .null)
    (hhollow : ¬v.run.draft.HollowOn v.field.path) {a : Json}
    (hset : v.run.draft.set v.field.path a = .ok d) :
    reset initial v.field.path d = .ok v.run.draft := by
  have hat := h.at?_frontier hf
  refine Draft.reset_set (Members.AscendsAlong.tidy_of_ne hasc (fun t ht hnull => ?_) ?_) hat hset
  · by_cases heq : t = v.field.path.segments
    · rw [heq, hat] at hnull
      exact hinitial.at?_ne_null _ hnull
    · exact hinitial.at?_ne_null t (hleaf t ⟨v.field, List.mem_of_getElem? hf, ht, heq⟩ hnull)
  · exact fun t ht hne hat' => hhollow ⟨t, ht, hne, hat'⟩

/-- **Going back comes to a single reset**: the later fields have no answers, and resetting them
changes nothing. -/
theorem KeepsStart.goBack (hform : form.Separate) (hinitial : initial.Plain)
    (h : r.KeepsStart o form initial vs k)
    (hasc : ∀ f ∈ form.fields, r.draft.AscendsAlong f.path) (he : r.history = hs ++ [e]) {f : Field}
    (hf : form.fields[e]? = some f) (policy : Policy) :
    ∃ r', r.goBack policy form e f.path = .ok r' ∧ r'.history = hs ∧
      reset initial f.path r.draft = .ok r'.draft := by
  obtain ⟨d, hd⟩ := h.order.answered.exists_reset_eq_ok hf
  have hlater : ∀ j g d₁ d₂, e < j → form.fields[j]? = some g → j ∉ r.assumed → d₁ = d →
      reset initial g.path d₁ = .ok d₂ → d₂ = d := by
    rintro j g d₁ d₂ hlt hg - rfl hreset
    have hnew : j ∉ r.history := by
      rw [he, List.mem_append, List.mem_singleton]
      rintro (hmem | rfl)
      · exact Nat.lt_asymm hlt (h.order.lt_last he j hmem)
      · exact Nat.lt_irrefl j hlt
    have hapart := hform.apart hf hg (Nat.ne_of_lt hlt)
    have hat : d₁.members.at? g.path.segments = initial.members.at? g.path.segments :=
      (at?_reset_of_apart hapart hd).trans (h.draft.untouched j g hg hnew)
    have hsame := Draft.reset_of_at?_eq (hinitial.at?_ne_null _)
      ((hasc g (List.mem_of_getElem? hg)).reset (Or.inr hapart) hd) hat
    exact Except.ok.inj (hreset.symm.trans hsame)
  obtain ⟨draft, recent, hok, -, rfl, -⟩ := h.order.goBack (P := fun d' => d' = d)
    (Q := fun _ => True) hform he policy hf (fun d' hd' => Except.ok.inj (hd'.symm.trans hd)) hlater
    (fun _ _ _ _ _ => id) trivial
  exact ⟨_, hok, rfl, hd⟩

/-- **Going back in a run** takes the last entry from the history and resets its field, and nothing
stands in the way. -/
theorem Leads.goBack (hform : form.Separate) (hinitial : initial.Plain)
    (hstart : Run.start form initial recent = .ok first) (h : Leads o form first vs r)
    (hshows : r.Shows o form v) (hlanding : v.run.landing? v.place = some e) :
    ∃ hs g r', v.run.history = hs ++ [e] ∧ form.fields[e]? = some g ∧
      v.run.goBack o.policy form e (((form.fields[e]?).map Field.path).getD .root) = .ok r' ∧
      r'.history = hs ∧ reset initial g.path v.run.draft = .ok r'.draft := by
  obtain ⟨k, hr⟩ := h.keepsStart hform (hinitial.canStart form) hstart
  obtain ⟨hf, -, hv⟩ := hr.shows hshows
  have hasc := h.ascendsAlong hform hinitial hstart
  rw [← draft_of_shows hshows] at hasc
  rw [landing?_eq_getLast? hv.order.history_lt] at hlanding
  obtain ⟨hs, g, hsplit, hg, htarget⟩ := hv.order.exists_landing hf hlanding
  obtain ⟨r', hback, hhistory, hreset⟩ := hv.goBack hform hinitial hasc hsplit hg o.policy
  exact ⟨hs, g, r', hsplit, hg, htarget.symm ▸ hback, hhistory, hreset⟩

/-! ## The trail of answers -/

/-- **The trail of answers behind a draft**, for a history after some visits. The last entry of the
history was answered at a visit, and since then only later fields were answered. Without an empty
object on the way, taking this answer back gives the draft of the visit, and if no answer since then
was stored under an empty object, the draft is the one that the answer made. -/
inductive Trail (initial : Draft) : List Visit → List Nat → Draft → Prop
  | empty (vs : List Visit) (d : Draft) : Trail initial vs [] d
  | held {past since : List Visit} {u : Visit} {hs : List Nat} {a : Json} {d : Draft}
    (below : Trail initial past hs u.run.draft) (lower : ∀ i ∈ hs, i < u.place)
    (accepted : u.accepted? = some a)
    (later : ∀ x ∈ since, x.accepted?.isSome = true → u.place < x.place)
    (undone : ¬u.run.draft.HollowOn u.field.path → ∀ d', u.run.draft.set u.field.path a = .ok d' →
      reset initial u.field.path d' = .ok u.run.draft)
    (stored : (∀ x ∈ since, ¬x.FillsHollow) → u.run.draft.set u.field.path a = .ok d) :
    Trail initial (past ++ u :: since) (hs ++ [u.place]) d

/-- The end of a trail: the visit that brought the last answer, and those before and since. -/
structure Trail.Ends (initial : Draft) (vs : List Visit) (hs : List Nat) (e : Nat) (d : Draft)
    (past : List Visit) (u : Visit) (since : List Visit) : Prop where
  split : vs = past ++ u :: since
  place : u.place = e
  below : Trail initial past hs u.run.draft
  lower : ∀ i ∈ hs, i < e
  isSome : u.accepted?.isSome = true
  later : ∀ x ∈ since, x.accepted?.isSome = true → e < x.place
  restored : (∀ x ∈ u :: since, ¬x.FillsHollow) → reset initial u.field.path d = .ok u.run.draft

theorem Trail.ends (h : Trail initial vs (hs ++ [e]) d) :
    ∃ past u since, Trail.Ends initial vs hs e d past u since := by
  generalize hall : hs ++ [e] = all at h
  cases h with
  | empty => exact absurd hall (by simp)
  | @held past since u hs' a d below lower accepted later undone stored =>
      obtain ⟨rfl, hlast⟩ := List.append_inj' hall rfl
      obtain rfl := List.singleton_inj.mp hlast
      refine ⟨past, u, since, rfl, rfl, below, lower, Option.isSome_of_eq_some accepted, later, ?_⟩
      intro hclean
      refine undone (fun hhollow => hclean u List.mem_cons_self ⟨?_, hhollow⟩) d ?_
      · exact Option.isSome_of_eq_some accepted
      · exact stored fun x hx => hclean x (List.mem_cons_of_mem u hx)

/-- The last entry of the history was last answered at the end of the trail. -/
theorem Trail.Ends.lastAccepted?_eq (h : Trail.Ends initial vs hs e d past u since) :
    lastAccepted? vs e = some u := by
  have hsince : since.reverse.find? (fun x => x.place = e && x.accepted?.isSome) = none := by
    refine List.find?_eq_none.mpr fun x hx hfound => ?_
    simp only [Bool.and_eq_true, decide_eq_true_eq] at hfound
    have hlt := h.later x (List.mem_reverse.mp hx) hfound.2
    exact Nat.lt_irrefl e (hfound.1 ▸ hlt)
  rw [lastAccepted?, h.split, List.reverse_append, List.reverse_cons, List.append_assoc,
    List.find?_append, hsince, Option.none_or, List.singleton_append,
    List.find?_cons_of_pos (by simp [h.place, h.isSome])]

/-- A visit without an accepted answer leaves the trail as it is. -/
theorem Trail.append (h : Trail initial vs hs d) (hv : v.accepted? = none) :
    Trail initial (vs ++ [v]) hs d := by
  cases h with
  | empty => exact .empty _ d
  | @held past since u hs a d below lower accepted later undone stored =>
      rw [List.append_assoc, List.cons_append]
      refine .held below lower accepted (fun x hx hsome => ?_) undone fun hclean => ?_
      · rcases List.mem_append.mp hx with hx | hx
        · exact later x hx hsome
        · rw [List.mem_singleton.mp hx, hv] at hsome
          exact absurd hsome Bool.false_ne_true
      · exact stored fun x hx => hclean x (List.mem_append_left _ hx)

/-- **Going back takes the last answer from the trail.** If it could be taken back to the letter, the
draft is again the one that the answer before it made. -/
theorem Trail.retreat (h : Trail initial vs (hs ++ [e]) d) (hv : v.accepted? = none) {p : Path}
    (hfield : ∀ u ∈ vs, u.place = e → u.field.path = p) (hreset : reset initial p d = .ok d') :
    Trail initial (vs ++ [v]) hs d' := by
  obtain ⟨past, u, since, hends⟩ := h.ends
  have hpath : u.field.path = p :=
    hfield u (hends.split ▸ List.mem_append_right _ List.mem_cons_self) hends.place
  -- without empty objects the draft is the one that the visit was shown with
  have hrestored : (∀ x ∈ u :: since, ¬x.FillsHollow) → d' = u.run.draft := fun hclean =>
    Except.ok.inj (hreset.symm.trans (hpath ▸ hends.restored hclean))
  have hbelow := hends.below
  have hlower := hends.lower
  generalize hsame : u.run.draft = d₀ at hbelow hrestored
  rw [hends.split]
  cases hbelow with
  | empty => exact .empty _ d'
  | @held past₁ since₁ u₁ hs₁ a₁ d₁ below₁ lower₁ accepted₁ later₁ undone₁ stored₁ =>
      have hlist : past₁ ++ u₁ :: since₁ ++ u :: since ++ [v] =
          past₁ ++ u₁ :: (since₁ ++ u :: since ++ [v]) := by simp
      have hlt : u₁.place < e := hlower u₁.place List.mem_concat_self
      rw [hlist]
      refine .held below₁ lower₁ accepted₁ (fun x hx hsome => ?_) undone₁ fun hclean => ?_
      · rw [List.mem_append, List.mem_append, List.mem_cons, List.mem_singleton] at hx
        rcases hx with (hx | rfl | hx) | rfl
        · exact later₁ x hx hsome
        · exact hends.place ▸ hlt
        · exact Nat.lt_trans hlt (hends.later x hx hsome)
        · rw [hv] at hsome
          exact absurd hsome Bool.false_ne_true
      · rw [hrestored fun x hx => hclean x (List.mem_append_left _ (List.mem_append_right _ hx))]
        exact stored₁ fun x hx => hclean x (List.mem_append_left _ (List.mem_append_left _ hx))

/-- **Every run that a start leads to has its trail.** The induction is on the visits. -/
theorem Leads.trail (hform : form.Separate) (hinitial : initial.Plain)
    (hstart : Run.start form initial recent = .ok first) (h : Leads o form first vs r) :
    Trail initial vs r.history r.draft := by
  have hfirst := start_eq_ok hstart
  induction h with
  | start =>
      rw [hfirst]
      exact .empty [] initial
  | @next vs r r' v w before hshows hgoes ih =>
      obtain ⟨k, hr⟩ := before.keepsStart hform (hinitial.canStart form) hstart
      obtain ⟨hf, hopen, hv⟩ := hr.shows hshows
      have hasc := before.ascendsAlong hform hinitial hstart
      rw [← draft_of_shows hshows] at hasc
      rw [← history_of_shows hshows, ← draft_of_shows hshows] at ih
      rcases settled_eq_goesOn hgoes with ⟨a, ha, haccept⟩ | ⟨a, message, hnone, rfl⟩ |
        ⟨e, hnone, hlanding, hback⟩
      · obtain ⟨draft, recent, hset, -, rfl⟩ := accept_eq_ok haccept
        refine .held ih hv.order.history_lt ha (fun x hx => absurd hx List.not_mem_nil)
          (fun hhollow d hset => ?_) fun _ => hset
        refine hv.reset_set hinitial hf (hasc _ (List.mem_of_getElem? hf)) (fun t ht hnull => ?_)
          hhollow hset
        rw [draft_of_shows hshows] at hnull
        have hold := before.leaf_onWay hform ht (x := .null) rfl hnull
        rwa [hfirst] at hold
      · exact ih.append hnone
      · obtain ⟨hs, g, r₂, hsplit, hg, hok, hhistory, hreset⟩ :=
          before.goBack hform hinitial hstart hshows hlanding
        obtain rfl : r' = r₂ := Except.ok.inj (hback.symm.trans hok)
        rw [hsplit] at ih
        rw [hhistory]
        refine ih.retreat hnone (fun u hu hplace => ?_) hreset
        have hfield := before.field_eq u hu
        rw [hplace, hg, Option.some.injEq] at hfield
        rw [hfield]

/-- **An empty object that was filled is lost for good**, so if the draft is the same after some
visits, then no answer was stored under one. -/
theorem Leads.not_fillsHollow (hform : form.Separate) (h : Leads o form first vs r)
    (hsame : r.draft = first.draft) : ∀ x ∈ vs, ¬x.FillsHollow := by
  rintro x hx ⟨hsome, t, hpre, hne, hhollow⟩
  obtain ⟨before, after, rfl⟩ := List.append_of_mem hx
  obtain ⟨mid, hbefore, hfrom⟩ := h.split
  obtain ⟨next, w, hshows, hgoes, hafter⟩ := hfrom.of_cons
  have ht : form.OnWay t := ⟨x.field, List.mem_of_getElem? (field_of_shows hshows), hpre, hne⟩
  -- the object was empty at first, so it is empty at the end, and was so right after the answer
  rw [draft_of_shows hshows] at hhollow
  have hfirst := hbefore.leaf_onWay hform ht (x := .object []) rfl hhollow
  rw [← hsame] at hfirst
  have hnext := hafter.leaf_onWay hform ht (x := .object []) rfl hfirst
  rcases settled_eq_goesOn hgoes with ⟨a, -, haccept⟩ | ⟨a, message, hnone, -⟩ | ⟨e, hnone, -⟩
  · obtain ⟨draft, recent, hset, -, rfl⟩ := accept_eq_ok haccept
    obtain ⟨u, hu⟩ := hpre
    obtain ⟨-, hset⟩ := Draft.set_eq_ok hset
    rw [← hu] at hset
    refine Members.at?_set?_above (fun hnil => hne ?_) rfl hset hnext
    rw [← hu, hnil, List.append_nil]
  · rw [hnone] at hsome
    exact absurd hsome Bool.false_ne_true
  · rw [hnone] at hsome
    exact absurd hsome Bool.false_ne_true

/-- An empty object that was filled is one of the start, on the way to a field that the start leaves
open. -/
theorem Leads.hollowOn_initial (hform : form.Separate) (hinitial : initial.Plain)
    (hstart : Run.start form initial recent = .ok first) (h : Leads o form first vs r) {x : Visit}
    (hx : x ∈ vs) (hfills : x.FillsHollow) :
    ∃ f ∈ form.fields, f.isFilled initial = false ∧ initial.HollowOn f.path := by
  obtain ⟨-, t, hpre, hne, hhollow⟩ := hfills
  obtain ⟨before, after, rfl⟩ := List.append_of_mem hx
  obtain ⟨mid, hbefore, hfrom⟩ := h.split
  obtain ⟨next, w, hshows, -, -⟩ := hfrom.of_cons
  obtain ⟨k, hmid⟩ := hbefore.keepsStart hform (hinitial.canStart form) hstart
  obtain ⟨hf, hopen, hrun⟩ := hmid.shows hshows
  have hmem := List.mem_of_getElem? hf
  rw [draft_of_shows hshows] at hhollow
  have hold := hbefore.leaf_onWay hform ⟨x.field, hmem, hpre, hne⟩ (x := .object []) rfl hhollow
  rw [start_eq_ok hstart] at hold
  refine ⟨x.field, hmem, ?_, t, hpre, hne, hold⟩
  exact hrun.order.isFilled_initial hf (hrun.order.not_mem_of_isOpen hf hopen).1

end Run

/-! ## Forms run from the start -/

/-- The user goes back to a place, and nothing stands in the way. -/
theorem Visit.exists_settled_of_landed? {v : Visit} {o : Options} {form : Form} {e : Nat} {r' : Run}
    (h : v.landed? = some e) (hback : v.run.goBack o.policy form e
      (((form.fields[e]?).map Field.path).getD .root) = .ok r') :
    ∃ w, v.settled o form = (.goesOn r', w) := by
  unfold landed? at h
  split at h
  · rename_i hout
    simp only [settled, hout, Run.settle, Run.settleBack, h, hback]
    exact ⟨_, rfl⟩
  · exact absurd h (by simp)

/-- **Going back restores the draft, except for empty objects.** A form is run from a record, and the
user goes back to a field. The run goes on, and its draft is the one for which the field was shown
when it was last answered, just if no answer from then on was stored under an empty object. So it is
the same whenever the record has no empty object on the way to a field that it leaves open. -/
theorem Form.restores_iff_of_landed {form : Form} {n : Nat} {o : Options} {record : Json}
    {initial recent : Draft} {w : Session} {before after : List Visit} {v : Visit} {e : Nat}
    (hform : form.Separate) (hrecord : record.Ordered) (hread : Draft.ofJson? record = .ok initial)
    (h : form.visits n o initial recent w = before ++ v :: after) (hlanded : v.landed? = some e) :
    ∃ past u since r' w', before = past ++ u :: since ∧ lastAccepted? before e = some u ∧
      v.settled o form = (.goesOn r', w') ∧
      (r'.draft = u.run.draft ↔ ∀ x ∈ u :: since, ¬x.FillsHollow) ∧
      ((∀ f ∈ form.fields, f.isFilled initial = false → ¬initial.HollowOn f.path) →
        r'.draft = u.run.draft) := by
  have hinitial : initial.Plain := Draft.plain_of_ofJson? hrecord hread
  obtain ⟨first, r, hstart, hleads, hshows, -⟩ := Form.leads_of_visits_eq h
  have htrail := hleads.trail hform hinitial hstart
  rw [← Run.history_of_shows hshows, ← Run.draft_of_shows hshows] at htrail
  -- going back lands on the last answer, and succeeds
  have hlanding : v.run.landing? v.place = some e := by
    unfold Visit.landed? at hlanded
    split at hlanded
    · exact hlanded
    · exact absurd hlanded (by simp)
  obtain ⟨hs, g, r', hsplit, hg, hback, -, hreset⟩ :=
    hleads.goBack hform hinitial hstart hshows hlanding
  obtain ⟨w', hsettled⟩ := Visit.exists_settled_of_landed? hlanded hback
  rw [hsplit] at htrail
  obtain ⟨past, u, since, hends⟩ := htrail.ends
  have hmem : ∀ x ∈ u :: since, x ∈ before := fun x hx =>
    hends.split ▸ List.mem_append_right _ hx
  have hfield : u.field.path = g.path := by
    have hu := hleads.field_eq u (hmem u List.mem_cons_self)
    rw [hends.place, hg, Option.some.injEq] at hu
    rw [hu]
  have hrestored : (∀ x ∈ u :: since, ¬x.FillsHollow) → r'.draft = u.run.draft := fun hclean =>
    Except.ok.inj (hreset.symm.trans (hfield ▸ hends.restored hclean))
  refine ⟨past, u, since, r', w', hends.split, hends.lastAccepted?_eq, hsettled,
    ⟨fun hsame x hx => ?_, hrestored⟩, fun hsolid => hrestored fun x hx hfills => ?_⟩
  · -- seen from the run that showed the field, the draft has not changed
    have hall := hleads.next hshows hsettled
    rw [hends.split, List.append_assoc, List.cons_append] at hall
    obtain ⟨mid, -, hrest⟩ := hall.split
    obtain ⟨-, -, hfirst, -, -⟩ := hrest.of_cons
    refine hrest.not_fillsHollow hform (hsame.trans (Run.draft_of_shows hfirst)) x ?_
    rw [← List.cons_append]
    exact List.mem_append_left _ hx
  · obtain ⟨f, hf, hopen, hhollow⟩ :=
      hleads.hollowOn_initial hform hinitial hstart (hmem x hx) hfills
    exact hsolid f hf hopen hhollow

/-! ## An empty target

The record has a target with nothing in it. The name of the target fills it, and when the user goes
back to the name, the target is gone. -/

/-- The form of the name. -/
def Form.shell : Form :=
  Form.empty
    |>.bind (.asking (.ofText "target.name") (.shaped .text) (.deck 0 0 false))
    |>.bind (.asking (.ofText "zone") (.shaped .text) (.deck 1 0 false))

/-- The replies of the user who goes back to the name. -/
def Session.shell : Session :=
  { Session.new (.rehearsal []) with
    decks := [Deck.new "name" (.shaped .text) [.value (.text "ant"), .value (.text "bee")],
      Deck.new "zone" (.shaped .text) [.back, .value (.text "a")]] }

/-- The draft after going back is not the one that the name was first asked for. -/
theorem unrestored_of_shell :
    Form.shell.Separate ∧ (Json.object [("target", .object [])]).Ordered ∧
    Draft.ofJson? (.object [("target", .object [])]) = .ok ⟨[("target", .object [])]⟩ ∧
    ∃ before v after u r' w',
      Form.shell.visits 10 .default ⟨[("target", .object [])]⟩ .empty .shell =
        before ++ v :: after ∧
      v.landed? = some 0 ∧ lastAccepted? before 0 = some u ∧
      v.settled .default .shell = (.goesOn r', w') ∧ u.FillsHollow ∧ r'.draft ≠ u.run.draft := by
  have hform : Form.shell.Separate := ⟨by decide, by decide⟩
  have hrecord : (Json.object [("target", .object [])]).Ordered := by
    simp [Json.Ordered, Json.OrderedMembers, Members.Ascending]
  obtain ⟨past, u, since, r', w', -, hu, hsettled, hiff, -⟩ := @Form.restores_iff_of_landed .shell 10
    .default _ ⟨[("target", .object [])]⟩ .empty .shell [_] _ _ 0 hform hrecord rfl rfl rfl
  have hfills : u.FillsHollow := by
    obtain rfl := Option.some.inj hu
    exact ⟨rfl, ["target"], ⟨["name"], rfl⟩, by decide, rfl⟩
  refine ⟨hform, hrecord, rfl, _, _, _, u, r', w', rfl, rfl, hu, hsettled, hfills, fun hsame => ?_⟩
  exact hiff.mp hsame u List.mem_cons_self hfills

end Interview
