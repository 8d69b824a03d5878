import Interview.Proofs.Run.Checked
/-
What is offered again is exactly right.

The answers to offer again are a draft of their own. Every accepted answer is written to it, going
back removes some answers from it, and a refused answer takes the place of what it has, for one
step. None of this speaks of the past. This file says what it comes to in terms of the past: of the
visits that a run has made so far (`Form.reoffer?`).

The answer that was just refused is offered with its message. Otherwise the last accepted answer is,
unless it is null, or the user went back since then in a way that made it out of date
(`Visit.invalidates`). And otherwise nothing is.

One move at a time, the draft of answers to offer again is compared with this rule. Answers and
removals concern one field each, since the paths of a form do not overlap.
-/

set_option autoImplicit false

namespace Interview

/-! ## The rule -/

namespace Visit

/-- The place that the user went back to at the visit. -/
def landed? (v : Visit) : Option Nat :=
  match v.outcome with
  | .done .back => v.run.landing? v.place
  | _ => none

/-- The field whose answer was refused at the visit, with the attempt that is made of it. -/
def retried? (v : Visit) : Option (Nat × Attempt Json) :=
  v.refused?.map fun x => (v.place, ⟨x.1, some x.2⟩)

/-- **Whether going back at the visit made the answer of a field out of date**: the user landed on a
field declared before it, and the policy is either to forget all later answers or to forget those
that depend on a cleared field, and the field is one that was cleared. -/
def invalidates (v : Visit) (o : Options) (form : Form) (i : Nat) : Bool :=
  match v.landed? with
  | none => false
  | some e =>
    decide (e < i) &&
      match o.policy with
      | .declarationOrder => true
      | .declaredDependencies =>
        match v.run.rewind .declaredDependencies form e
          (((form.fields[e]?).map Field.path).getD .root) with
        | .ok c => c.cleared.contains i
        | .error _ => false

end Visit

/-- The visits since the last accepted answer for a field. -/
def sinceAccepted (vs : List Visit) (i : Nat) : List Visit :=
  (vs.reverse.takeWhile fun v => !(v.place = i && v.accepted?.isSome)).reverse

namespace Form

/-- The last accepted answer for a field, unless it is null or out of date. -/
def standing? (form : Form) (o : Options) (past : List Visit) (i : Nat) : Option Json :=
  if (sinceAccepted past i).any fun v => v.invalidates o form i then none
  else (lastAnswer? past i).filter fun j => !j.isNull

/-- **What is to be offered at a field** in view of the visits before: the answer that was just
refused there, with the message, or else the answer that stands. -/
def reoffer? (form : Form) (o : Options) (past : List Visit) (i : Nat) : Option (Attempt Json) :=
  match past.getLast?.bind Visit.retried? with
  | some (j, a) => if j = i then some a else (form.standing? o past i).map fun v => ⟨v, none⟩
  | none => (form.standing? o past i).map fun v => ⟨v, none⟩

variable {form : Form} {o : Options} {vs : List Visit} {v : Visit} {i : Nat} {j : Json}

/-- A new answer stands, unless it is null. -/
theorem standing?_of_accepted (hplace : v.place = i) (hj : v.accepted? = some j) :
    form.standing? o (vs ++ [v]) i = (some j).filter fun j => !j.isNull := by
  have hsince : sinceAccepted (vs ++ [v]) i = [] := by
    simp [sinceAccepted, hplace, hj]
  have hlast : lastAnswer? (vs ++ [v]) i = some j := hplace ▸ lastAnswer?_of_accepted hj
  rw [standing?, hsince, hlast, List.any_nil, if_neg (by simp)]

/-- A visit without an answer for the field leaves what stands, unless it makes it out of date. -/
theorem standing?_append (hv : ¬(v.place = i ∧ v.accepted?.isSome = true)) :
    form.standing? o (vs ++ [v]) i =
      if v.invalidates o form i then none else form.standing? o vs i := by
  have hother : (decide (v.place = i) && v.accepted?.isSome) = false := by
    rw [← Bool.not_eq_true, Bool.and_eq_true, decide_eq_true_eq]
    exact hv
  have hsince : sinceAccepted (vs ++ [v]) i = sinceAccepted vs i ++ [v] := by
    rw [sinceAccepted, List.reverse_append, List.reverse_singleton, List.singleton_append,
      List.takeWhile_cons_of_pos (by rw [hother, Bool.not_false]), List.reverse_cons]
    rfl
  rw [standing?, standing?, hsince, lastAnswer?_append hv, List.any_append, List.any_cons,
    List.any_nil, Bool.or_false]
  rcases v.invalidates o form i with _ | _
  · rw [Bool.or_false]
    rfl
  · rw [Bool.or_true]
    rfl

end Form

/-! ## The moves -/

namespace Visit

variable {v : Visit} {o : Options} {form : Form} {r' : Run} {w : Session}

/-- A visit at which the user did not go back makes no answer out of date. -/
theorem invalidates_of_landed?_eq_none (h : v.landed? = none) (o : Options) (form : Form)
    (i : Nat) : v.invalidates o form i = false := by
  rw [invalidates, h]

/-- **How a visit lets a run go on**, with what it is to the visits after it. -/
theorem goesOn_cases (h : v.settled o form = (.goesOn r', w)) :
    (∃ j, v.accepted? = some j ∧ v.retried? = none ∧ v.landed? = none ∧
      v.run.accept v.place v.field.path j = .ok r') ∨
    (∃ j message, v.accepted? = none ∧ v.retried? = some (v.place, ⟨j, some message⟩) ∧
      v.landed? = none ∧ r' = v.run.reject v.place j message) ∨
    ∃ e, v.accepted? = none ∧ v.retried? = none ∧ v.landed? = some e ∧
      v.run.landing? v.place = some e ∧
      v.run.goBack o.policy form e (((form.fields[e]?).map Field.path).getD .root) = .ok r' := by
  rcases Run.settle_eq_goesOn h with
    ⟨answer, j, w₁, hout, henc, ⟨hweigh, haccept⟩ | ⟨message, hweigh, rfl⟩⟩ |
      ⟨hout, e, hlanding, hback⟩
  · exact Or.inl ⟨j, by simp [accepted?, hout, henc, hweigh],
      by simp [retried?, refused?, hout, henc, hweigh], by simp [landed?, hout], haccept⟩
  · exact Or.inr (Or.inl ⟨j, message, by simp [accepted?, hout, henc, hweigh],
      by simp [retried?, refused?, hout, henc, hweigh], by simp [landed?, hout], rfl⟩)
  · exact Or.inr (Or.inr ⟨e, by simp [accepted?, hout], by simp [retried?, refused?, hout],
      by simp [landed?, hout, hlanding], hlanding, hback⟩)

end Visit

namespace Run

variable {form : Form} {initial : Draft} {o : Options} {r r' : Run} {vs : List Visit} {k : Nat}

/-- What clearing from a place on does to the answers to offer again. It takes away exactly those of
the fields that it clears. In the order of declaration it clears every field that is not assumed. -/
structure Clears (r : Run) (policy : Policy) (form : Form) (i : Nat) (c c' : Clearing) : Prop where
  earlier : ∀ j < i, j ∈ c'.cleared ↔ j ∈ c.cleared
  recent : ∀ j f, form.fields[j]? = some f →
    c'.recent.get? f.path = if i ≤ j ∧ j ∈ c'.cleared then none else c.recent.get? f.path
  all : policy = .declarationOrder → ∀ j f, form.fields[j]? = some f → i ≤ j → j ∉ r.assumed →
    j ∈ c'.cleared

namespace Clears

variable {policy : Policy} {i : Nat} {f : Field} {c c' : Clearing} {d : Draft}

/-- Behind the last field there is nothing to clear. -/
theorem nil (hlen : form.fields.length ≤ i) : r.Clears policy form i c c := by
  have hlt : ∀ {j f}, form.fields[j]? = some f → j < i := by
    intro j f hf
    obtain ⟨hj, -⟩ := List.getElem?_eq_some_iff.mp hf
    omega
  refine ⟨fun _ _ => Iff.rfl, fun j f hf => ?_, fun _ j f hf hij _ => ?_⟩
  · rw [if_neg]
    intro hcleared
    have := hlt hf
    omega
  · have := hlt hf
    omega

/-- A field that is not cleared is passed over. -/
theorem pass (h : r.Clears policy form (i + 1) c c') (hc : ∀ j ∈ c.cleared, j < i)
    (hassumed : policy = .declarationOrder → i ∈ r.assumed) : r.Clears policy form i c c' := by
  have hnot : i ∉ c'.cleared := by
    intro hmem
    have := hc i ((h.earlier i (Nat.lt_succ_self i)).mp hmem)
    omega
  refine ⟨fun j hj => h.earlier j (by omega), fun j g hg => ?_, fun hpolicy j g hg hij hj => ?_⟩
  · rw [h.recent j g hg]
    refine if_congr ?_ rfl rfl
    constructor
    · rintro ⟨hij, hmem⟩
      exact ⟨by omega, hmem⟩
    · rintro ⟨hij, hmem⟩
      by_cases hji : i = j
      · subst hji
        exact absurd hmem hnot
      · exact ⟨by omega, hmem⟩
  · by_cases hji : i = j
    · subst hji
      exact absurd (hassumed hpolicy) hj
    · exact h.all hpolicy j g hg (by omega) hj

/-- A field that is cleared loses what would be offered again, and no other field does. -/
theorem clear (hform : form.Separate) (hf : form.fields[i]? = some f)
    (h : r.Clears policy form (i + 1) ⟨d, (c.recent.remove f.path).2, c.cleared ++ [i]⟩ c') :
    r.Clears policy form i c c' := by
  have hmem : i ∈ c'.cleared := (h.earlier i (Nat.lt_succ_self i)).mpr List.mem_concat_self
  refine ⟨fun j hj => ?_, fun j g hg => ?_, fun hpolicy j g hg hij hj => ?_⟩
  · rw [h.earlier j (by omega), List.mem_append, List.mem_singleton]
    exact or_iff_left (by omega)
  · rw [h.recent j g hg]
    by_cases hij : i = j
    · subst hij
      rw [hf, Option.some.injEq] at hg
      have hnone : (c.recent.remove f.path).2.members.at? f.path.segments = none :=
        Members.at?_remove_self _ _
      rw [if_neg (by omega), if_pos ⟨Nat.le_refl i, hmem⟩, ← hg, Draft.get?, hnone,
        Option.filter_none]
    · -- what is removed is apart from the path of another field
      rw [Draft.get?_eq_of_at?_eq (Draft.at?_remove_of_apart (hform.apart hf hg hij))]
      refine if_congr ?_ rfl rfl
      constructor
      · rintro ⟨hlt, hmem⟩
        exact ⟨by omega, hmem⟩
      · rintro ⟨hle, hmem⟩
        exact ⟨by omega, hmem⟩
  · by_cases hji : i = j
    · subst hji
      exact hmem
    · exact h.all hpolicy j g hg (by omega) hj

end Clears

/-- If some places are before one, then they and this one are before the next. -/
theorem lt_of_mem_concat {places : List Nat} {i : Nat} (h : ∀ j ∈ places, j < i) :
    ∀ j ∈ places ++ [i], j < i + 1 := by
  intro j hj
  rcases List.mem_append.mp hj with hj | hj
  · exact Nat.lt_succ_of_lt (h j hj)
  · exact List.mem_singleton.mp hj ▸ Nat.lt_succ_self i

/-- **Clearing takes away what would be offered again at the cleared fields.** -/
theorem Sweeps.clears (hform : form.Separate) {policy : Policy} {i : Nat} {c c' : Clearing}
    (h : r.Sweeps policy form i c c') (hc : ∀ j ∈ c.cleared, j < i) :
    r.Clears policy form i c c' := by
  induction h with
  | done _ last => exact .nil last
  | @spare i f c c' field stays later ih =>
      refine (ih fun j hj => Nat.lt_succ_of_lt (hc j hj)).pass hc fun hpolicy => ?_
      -- only a policy that spares independent fields has fields that are not stale
      rw [hpolicy, isStale] at stays
      exact stays.resolve_right (by simp)
  | clear field new stale reset later ih => exact .clear hform field (ih (lt_of_mem_concat hc))

/-- **What going back does to the answers to offer again**: it takes away those of the later fields
that were cleared, and no others. -/
theorem goBack_eq_ok (hform : form.Separate) {policy : Policy} {e : Nat} {path : Path}
    (h : r.goBack policy form e path = .ok r') :
    ∃ c d, r.rewind policy form e path = .ok c ∧
      r.Clears policy form (e + 1) ⟨d, r.recent, [e]⟩ c ∧ r' = { r with
        draft := c.draft
        recent := c.recent
        history := r.history.filter fun j => !c.cleared.contains j
        skipped := r.skipped.filter fun j => j < e } := by
  obtain ⟨c, hrewind, hr'⟩ := exists_rewind_of_goBack h
  obtain ⟨d, -, hsweeps⟩ := rewind_eq_ok_iff.mp hrewind
  refine ⟨c, d, hrewind, hsweeps.clears hform fun j hj => ?_, hr'⟩
  exact List.mem_singleton.mp hj ▸ Nat.lt_succ_self e

/-- The step that a search comes to is offered what the run has for it at the start of the
search. -/
theorem attempt_eq_of_seekFrom {fields : List Field} {i place : Nat} {f : Field}
    {entries : List Entry} {attempt : Option (Attempt Json)} {make : Session → Question × Session}
    (h : r.seekFrom o i fields = (entries, r', .step place f attempt make)) :
    i ≤ place ∧ attempt = r.attemptAt place f := by
  induction fields generalizing r i entries with
  | nil => simp [seekFrom] at h
  | cons g rest ih =>
      rw [seekFrom] at h
      split at h
      · obtain ⟨hle, hattempt⟩ := ih h
        exact ⟨by omega, hattempt⟩
      · split at h
        · rcases hrest : (r.skip i).seekFrom o (i + 1) rest with ⟨entries', r₂, found⟩
          rw [hrest] at h
          simp only [Prod.mk.injEq] at h
          obtain ⟨-, rfl, rfl⟩ := h
          obtain ⟨hle, hattempt⟩ := ih hrest
          exact ⟨by omega, hattempt⟩
        · rcases hoffer : g.offer ⟨g.path, r.draft, r.attemptAt i g, o⟩ with _ | cause | make'
          · -- what is given up on the way is the refused answer of a field left out
            simp only [hoffer] at h
            rcases hrest : ((r.withoutRetry i).skip i).seekFrom o (i + 1) rest with
              ⟨entries', r₂, found⟩
            rw [hrest] at h
            simp only [Prod.mk.injEq] at h
            obtain ⟨-, rfl, rfl⟩ := h
            obtain ⟨hle, hattempt⟩ := ih hrest
            have hne : i ≠ place := by omega
            refine ⟨by omega, hattempt.trans ?_⟩
            rcases hretry : r.retry with _ | ⟨j, a⟩
            · simp only [attemptAt, withoutRetry, skip, hretry]
            · by_cases hj : j = i
              · simp only [attemptAt, withoutRetry, skip, hretry, hj, if_true, if_neg hne]
              · simp only [attemptAt, withoutRetry, skip, hretry, if_neg hj]
          · simp [hoffer] at h
          · simp only [hoffer, Prod.mk.injEq, Found.step.injEq] at h
            obtain ⟨-, -, rfl, rfl, rfl, -⟩ := h
            exact ⟨Nat.le_refl i, rfl⟩

/-! ## The invariant -/

/-- **A run in order that remembers its visits**: what it would offer again at a field is the answer
that stands there, and what it would retry is what was just refused. -/
structure Mindful (o : Options) (form : Form) (initial : Draft) (vs : List Visit) (r : Run)
    (k : Nat) : Prop where
  order : r.InOrder form initial k
  recent : ∀ i f, form.fields[i]? = some f → i ∉ r.assumed →
    r.recent.get? f.path = form.standing? o vs i
  retry : r.retry = vs.getLast?.bind Visit.retried?
  /-- In the order of declaration, nothing is offered again behind the frontier, and at the frontier
  only what was just refused, or the answer of the field that the user went back to. -/
  landed : o.policy = .declarationOrder → ∀ i f, form.fields[i]? = some f → i ∉ r.assumed →
    (r.recent.get? f.path).isSome = true → i < k ∨ i = k ∧
      (vs.getLast?.bind Visit.landed? = some k ∨ ∃ a, r.retry = some (k, a))

theorem Mindful.start (h : Run.start form initial .empty = .ok r) :
    r.Mindful o form initial [] 0 := by
  have horder := InOrder.start h
  have hnone : ∀ p, Draft.empty.get? p = none := by
    intro p
    rw [Draft.get?, show Draft.empty.members = [] from rfl, Members.at?_empty, Option.filter_none]
  rw [start_eq_ok h] at horder ⊢
  refine ⟨horder, fun i f _ _ => hnone f.path, rfl, fun _ i f _ _ hsome => ?_⟩
  simp only [hnone, Option.isSome_none, Bool.false_eq_true] at hsome

/-- **The step of a visit offers what is to be offered** in view of the visits before. -/
theorem Mindful.shows (h : r.Mindful o form initial vs k) {v : Visit} (hv : r.Shows o form v) :
    form.fields[v.place]? = some v.field ∧ v.run.isClosed v.place v.field = false ∧
      v.run.InOrder form initial v.place ∧ k ≤ v.place ∧ v.run.recent = r.recent ∧
      v.run.assumed = r.assumed ∧ v.run.retry = none ∧ v.attempt = r.attemptAt v.place v.field := by
  obtain ⟨hf, horder, hopen, -, hle⟩ := h.order.shows_with (J := fun i _ _ => k ≤ i)
    (Nat.le_refl k) (fun _ _ _ _ _ _ hi => Nat.le_succ_of_le hi)
    (fun _ _ _ _ _ _ _ _ hi => Nat.le_succ_of_le hi) hv
  have hassumed : v.run.assumed = r.assumed := by
    obtain ⟨entries, make, hseek⟩ := hv
    have hfound : FoundWith o form (fun _ r' => r'.assumed = r.assumed) (r.seek o form).2.1
        (r.seek o form).2.2 :=
      seek_keeps (fun _ _ _ h => h) (fun _ _ _ _ h _ => h) (fun _ _ _ _ _ h _ _ => h) rfl
    rw [hseek] at hfound
    exact hfound.2.1
  obtain ⟨entries, make, hseek⟩ := hv
  obtain ⟨hrecent, hretry, -⟩ := attempt_of_seekFrom hseek
  exact ⟨hf, hopen, horder, hle, hrecent, hassumed, hretry, (attempt_eq_of_seekFrom hseek).2⟩

/-- What is offered is what the rule says. -/
theorem Mindful.attemptAt_eq (h : r.Mindful o form initial vs k) {i : Nat} {f : Field}
    (hf : form.fields[i]? = some f) (hi : i ∉ r.assumed) :
    r.attemptAt i f = form.reoffer? o vs i := by
  have hrecent := h.recent i f hf hi
  rcases hretry : r.retry with _ | ⟨j, a⟩
  · simp only [attemptAt, Form.reoffer?, ← h.retry, hretry, hrecent]
  · simp only [attemptAt, Form.reoffer?, ← h.retry, hretry, hrecent]

/-- An accepted answer stands from now on, and what stands at the other fields does so still. -/
theorem Mindful.accept (hform : form.Separate) (h : r.Mindful o form initial vs k) {v : Visit}
    (hv : r.Shows o form v) {j : Json} (hj : v.accepted? = some j) (hretry : v.retried? = none)
    (hlanded : v.landed? = none) (haccept : v.run.accept v.place v.field.path j = .ok r') :
    r'.Mindful o form initial (vs ++ [v]) (v.place + 1) := by
  obtain ⟨hf, hopen, horder, hle, hrecent, hassumed, hnone, -⟩ := h.shows hv
  have horder' := horder.accept hform hf hopen haccept
  obtain ⟨draft, recent, -, hset, rfl⟩ := accept_eq_ok haccept
  have hother : ∀ i f, form.fields[i]? = some f → v.place ≠ i →
      recent.get? f.path = r.recent.get? f.path := by
    intro i f hi hne
    rw [← hrecent]
    exact Draft.get?_eq_of_at?_eq (Draft.at?_set_of_apart (hform.apart hf hi hne) hset)
  refine ⟨horder', fun i f hi hnew => ?_, ?_, fun hpolicy i f hi hnew hsome => Or.inl ?_⟩
  · by_cases hi' : v.place = i
    · subst hi'
      rw [hf, Option.some.injEq] at hi
      rw [Form.standing?_of_accepted rfl hj, ← hi]
      show (recent.members.at? v.field.path.segments).filter _ = _
      rw [Draft.at?_set_self hset]
    · rw [Form.standing?_append fun hp => hi' hp.1,
        Visit.invalidates_of_landed?_eq_none hlanded, if_neg Bool.false_ne_true]
      exact (hother i f hi hi').trans (h.recent i f hi (hassumed ▸ hnew))
  · rw [List.getLast?_concat, Option.bind_some, hretry]
    exact hnone
  · by_cases hi' : v.place = i
    · omega
    · have hold : (r.recent.get? f.path).isSome = true := hother i f hi hi' ▸ hsome
      rcases h.landed hpolicy i f hi (hassumed ▸ hnew) hold with hlt | ⟨rfl, -⟩
      · omega
      · omega

/-- What stands, stands after a refusal, and the refused answer is to be offered before it. -/
theorem Mindful.reject (h : r.Mindful o form initial vs k) {v : Visit} (hv : r.Shows o form v)
    {j : Json} {message : String} (hnone : v.accepted? = none)
    (hretry : v.retried? = some (v.place, ⟨j, some message⟩)) (hlanded : v.landed? = none) :
    (v.run.reject v.place j message).Mindful o form initial (vs ++ [v]) v.place := by
  obtain ⟨-, -, horder, hle, hrecent, hassumed, -⟩ := h.shows hv
  refine ⟨horder.reject j message v.place, fun i f hi hnew => ?_, ?_,
    fun hpolicy i f hi hnew hsome => ?_⟩
  · rw [Form.standing?_append fun hp => absurd hp.2 (by rw [hnone]; exact Bool.false_ne_true),
      Visit.invalidates_of_landed?_eq_none hlanded, if_neg Bool.false_ne_true]
    exact (congrArg (Draft.get? · f.path) hrecent).trans (h.recent i f hi (hassumed ▸ hnew))
  · rw [List.getLast?_concat, Option.bind_some, hretry]
    rfl
  · have hold : (r.recent.get? f.path).isSome = true := hrecent ▸ hsome
    by_cases hi' : i = v.place
    · subst hi'
      exact Or.inr ⟨rfl, Or.inr ⟨_, rfl⟩⟩
    · rcases h.landed hpolicy i f hi (hassumed ▸ hnew) hold with hlt | ⟨rfl, -⟩
      · omega
      · omega

/-- Going back makes out of date what it clears, and everything else stands still. -/
theorem Mindful.goBack (hform : form.Separate) (h : r.Mindful o form initial vs k) {v : Visit}
    (hv : r.Shows o form v) {e : Nat} (hnone : v.accepted? = none) (hretry : v.retried? = none)
    (hlanded : v.landed? = some e) (hlanding : v.run.landing? v.place = some e)
    (hback : v.run.goBack o.policy form e (((form.fields[e]?).map Field.path).getD .root) =
      .ok r') : r'.Mindful o form initial (vs ++ [v]) e := by
  obtain ⟨hf, -, horder, hle, hrecent, hassumed, hunretried, -⟩ := h.shows hv
  obtain ⟨c, d, hrewind, hclears, hr'⟩ := goBack_eq_ok hform hback
  have horder' : r'.InOrder form initial e := by
    rw [landing?_eq_getLast? horder.history_lt] at hlanding
    obtain ⟨hs, g, hsplit, hg, htarget⟩ := horder.exists_landing hf hlanding
    rw [htarget] at hback
    obtain ⟨r₂, hok, horder₂, -⟩ := horder.exists_goBack hform hsplit o.policy hg
    rw [hback, Except.ok.injEq] at hok
    exact hok ▸ horder₂
  subst hr'
  -- what was cleared is what going back made out of date
  have hcleared : ∀ i f, form.fields[i]? = some f → i ∉ r.assumed →
      ((e < i ∧ i ∈ c.cleared) ↔ v.invalidates o form i = true) := by
    intro i f hi hnew
    rw [Visit.invalidates, hlanded]
    simp only [Bool.and_eq_true, decide_eq_true_eq]
    refine and_congr_right fun hlt => ?_
    rcases hpolicy : o.policy with _ | _
    · exact iff_of_true (hclears.all hpolicy i f hi hlt (hassumed ▸ hnew)) rfl
    · rw [hpolicy] at hrewind
      simp only [hrewind, List.contains_iff_mem]
  refine ⟨horder', fun i f hi hnew => ?_, ?_, fun hpolicy i f hi hnew hsome => ?_⟩
  · have hold : i ∉ r.assumed := hassumed ▸ hnew
    rw [Form.standing?_append fun hp => absurd hp.2 (by rw [hnone]; exact Bool.false_ne_true),
      ← h.recent i f hi hold, ← hrecent]
    exact (hclears.recent i f hi).trans (if_congr (hcleared i f hi hold) rfl rfl)
  · rw [List.getLast?_concat, Option.bind_some, hretry]
    exact hunretried
  · have hthere : (c.recent.get? f.path).isSome = true := hsome
    rcases Nat.lt_trichotomy i e with hlt | rfl | hgt
    · exact Or.inl hlt
    · exact Or.inr ⟨rfl, Or.inl (by rw [List.getLast?_concat, Option.bind_some, hlanded])⟩
    · -- a later field was cleared
      rw [hclears.recent i f hi, if_pos ⟨hgt, hclears.all hpolicy i f hi hgt hnew⟩] at hthere
      exact absurd hthere Bool.false_ne_true

/-- **Every run that a start leads to remembers its visits.** The induction is on the visits. -/
theorem Leads.mindful (hform : form.Separate) {first : Run}
    (hstart : Run.start form initial .empty = .ok first) (h : Leads o form first vs r) :
    ∃ k, r.Mindful o form initial vs k := by
  induction h with
  | start => exact ⟨0, Mindful.start hstart⟩
  | @next vs r r' v w before hshows hgoes ih =>
      obtain ⟨k, hr⟩ := ih
      rcases Visit.goesOn_cases hgoes with ⟨j, hj, hretry, hlanded, haccept⟩ |
        ⟨j, message, hnone, hretry, hlanded, rfl⟩ | ⟨e, hnone, hretry, hlanded, hlanding, hback⟩
      · exact ⟨_, hr.accept hform hshows hj hretry hlanded haccept⟩
      · exact ⟨_, hr.reject hshows hnone hretry hlanded⟩
      · exact ⟨_, hr.goBack hform hshows hnone hretry hlanded hlanding hback⟩

end Run

/-! ## Forms run from the start -/

/-- **The visit offers again what is to be offered again.** Its field was asked for the question
with this attempt, the question was restored from it, and what came of asking it is the outcome of
the visit. In the order of declaration, an answer that was not refused is offered again only where
the user has just gone back to. -/
structure Visit.Reoffers (v : Visit) (o : Options) (form : Form) (past : List Visit) : Prop where
  attempt_eq : v.attempt = form.reoffer? o past v.place
  consulted : ∃ m q w, v.Asks o form m q w
  landed : o.policy = .declarationOrder → ∀ a, v.attempt = some a → a.error = none →
    ∃ u, past.getLast? = some u ∧ u.landed? = some v.place

/-- What is retried at a field has a message. -/
theorem Visit.isSome_error_of_retried? {v : Visit} {i : Nat} {a : Attempt Json}
    (h : v.retried? = some (i, a)) : a.error.isSome = true := by
  obtain ⟨x, -, hx⟩ := Option.map_eq_some_iff.mp h
  rw [← (Prod.mk.inj hx).2]
  rfl

/-- **What is offered again is exactly right.** In a form whose paths do not overlap, every visit
is offered the answer that was just refused there, or the last accepted answer that the user has not
made out of date by going back, or nothing. -/
theorem Form.reoffers_of_visits_eq {form : Form} {o : Options} {initial : Draft} {n : Nat}
    {w : Session} {before after : List Visit} {v : Visit} (hform : form.Separate)
    (h : form.visits n o initial .empty w = before ++ v :: after) : v.Reoffers o form before := by
  obtain ⟨first, r, hstart, hleads, hshows, -⟩ := Form.leads_of_visits_eq h
  obtain ⟨k, hr⟩ := hleads.mindful hform hstart
  obtain ⟨hf, hopen, horder, hle, -, hassumed, -, hattempt⟩ := hr.shows hshows
  have hnew : v.place ∉ r.assumed := hassumed ▸ (horder.not_mem_of_isOpen hf hopen).1
  refine ⟨hattempt.trans (hr.attemptAt_eq hf hnew), ?_, fun hpolicy a ha herror => ?_⟩
  · exact Form.exists_asks (h ▸ List.mem_append_right _ List.mem_cons_self)
  · rw [ha] at hattempt
    -- an attempt without a message is not the answer that was refused just now
    have hretry : ∀ b, r.retry = some (v.place, b) → False := by
      intro b hb
      rw [Run.attemptAt, hb] at hattempt
      simp only [if_true, Option.some.injEq] at hattempt
      obtain ⟨u, -, hu⟩ := Option.bind_eq_some_iff.mp (hr.retry.symm.trans hb)
      have hmessage := Visit.isSome_error_of_retried? hu
      rw [← hattempt, herror] at hmessage
      exact absurd hmessage (by simp)
    have hsome : (r.recent.get? v.field.path).isSome = true := by
      rw [Run.attemptAt] at hattempt
      split at hattempt
      · rename_i j b hb
        split at hattempt
        · rename_i hj
          exact absurd (hj ▸ hb) (hretry b)
        · exact Option.isSome_map ▸ Option.isSome_of_eq_some hattempt.symm
      · exact Option.isSome_map ▸ Option.isSome_of_eq_some hattempt.symm
    rcases hr.landed hpolicy v.place v.field hf hnew hsome with hlt | ⟨hplace, hlast | ⟨b, hb⟩⟩
    · exact absurd hle (Nat.not_le_of_lt hlt)
    · rw [hplace]
      exact Option.bind_eq_some_iff.mp hlast
    · exact (hretry b (hplace ▸ hb)).elim

/-- The alias that was refused is offered with the message. After the user went back from there, the
name is offered again, and the alias is not. -/
theorem reoffers_of_naming :
    Form.naming.Separate ∧
    ∃ x y u v after,
      Form.naming.visits 10 .default .empty .empty .naming = [x, y, u] ++ v :: after ∧
      u.attempt = some ⟨.text "ant", some "This is the name."⟩ ∧ u.landed? = some 0 ∧
      v.place = 0 ∧ v.attempt = some ⟨.text "ant", none⟩ ∧
      v.Reoffers .default .naming [x, y, u] := by
  have hform : Form.naming.Separate := ⟨by decide, by decide⟩
  exact ⟨hform, _, _, _, _, _, rfl, rfl, rfl, rfl, rfl,
    @Form.reoffers_of_visits_eq .naming .default .empty 10 .naming _ _ _ hform rfl⟩

end Interview
