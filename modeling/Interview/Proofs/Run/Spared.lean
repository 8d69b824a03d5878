import Interview.Proofs.Run.Clearing
/-
What going back leaves of earlier answers.

Going back clears later fields by their paths, whether they were answered or not. In a form whose
paths do not overlap that is harmless to the answers before. But a later field may be bound to a
part of an earlier field's answer. Such a field is filled by that answer, so it is never asked, and
nonetheless it is reset when the user goes back to a field between the two.

This file says exactly what is lost then. Take a value in the draft that has nothing below it and is
apart from the path of the field gone back to. It is still there afterwards just if the start has it
too, or no field was cleared whose path leads to it. Nothing else is assumed, neither of the form nor
of the run.
-/

set_option autoImplicit false

namespace Interview

namespace Run

variable {form : Form} {policy : Policy} {o : Options} {r r' : Run} {vs : List Visit}

/-! ## The sweep -/

namespace Sweeps

variable {i : Nat} {c c' : Clearing} {x : Json} {s : List String}

/-- An atom that is there just if the start has it, is so after the sweep. -/
theorem at?_iff_initial (h : r.Sweeps policy form i c c') (hx : x.isAtom = true)
    (hc : c.draft.members.at? s = some x ↔ r.initial.members.at? s = some x) :
    c'.draft.members.at? s = some x ↔ r.initial.members.at? s = some x := by
  induction h with
  | done => exact hc
  | spare _ _ _ ih => exact ih hc
  | @clear i f c c' d _ _ _ hreset _ ih =>
      refine ih ?_
      by_cases hcovers : f.path.Covers s
      · exact at?_reset_of_covers hcovers hx hreset
      · exact (at?_reset_of_not_covers hcovers hx hreset).trans hc

/-- **What a sweep leaves of an atom**: it stays just if the start has it too, or no field is cleared
whose path leads to it. The induction is on the sweep. -/
theorem at?_iff (h : r.Sweeps policy form i c c') (hc : ∀ j ∈ c.cleared, j < i)
    (hx : x.isAtom = true) (hat : c.draft.members.at? s = some x) :
    c'.draft.members.at? s = some x ↔ r.initial.members.at? s = some x ∨
      ∀ j g, j ∈ c'.cleared → i ≤ j → form.fields[j]? = some g → ¬g.path.Covers s := by
  induction h with
  | @done i c last =>
      refine iff_of_true hat (Or.inr fun j g _ hij hg => ?_)
      obtain ⟨hj, -⟩ := List.getElem?_eq_some_iff.mp hg
      omega
  | @spare i f c c' field stays later ih =>
      rw [ih (fun j hj => Nat.lt_succ_of_lt (hc j hj)) hat]
      have hnot : i ∉ c'.cleared := by
        rw [later.mem_cleared_iff (Nat.lt_succ_self i)]
        exact fun hmem => Nat.lt_irrefl i (hc i hmem)
      refine or_congr_right (forall₃_congr fun j g hmem => ?_)
      have hne : i ≠ j := fun heq => hnot (heq ▸ hmem)
      exact ⟨fun hfree hij => hfree (Nat.lt_of_le_of_ne hij hne),
        fun hfree hij => hfree (Nat.le_of_succ_le hij)⟩
  | @clear i f c c' d field new stale hreset later ih =>
      have hmem : i ∈ c'.cleared :=
        (later.mem_cleared_iff (Nat.lt_succ_self i)).mpr List.mem_concat_self
      by_cases hcovers : f.path.Covers s
      · -- from here on, the atom is there just if the start has it
        have hinitial := later.at?_iff_initial hx (at?_reset_of_covers hcovers hx hreset)
        refine hinitial.trans (or_iff_left fun hfree => ?_).symm
        exact hfree i f hmem (Nat.le_refl i) field hcovers
      · rw [ih (lt_of_mem_concat hc) ((at?_reset_of_not_covers hcovers hx hreset).mpr hat)]
        refine or_congr_right (forall₃_congr fun j g _ => ?_)
        refine ⟨fun hfree hij hg => ?_, fun hfree hij => hfree (Nat.le_of_succ_le hij)⟩
        rcases Nat.eq_or_lt_of_le hij with rfl | hlt
        · rw [field, Option.some.injEq] at hg
          exact hg ▸ hcovers
        · exact hfree hlt hg

end Sweeps

/-- **What going back leaves of an atom** that is apart from the path of the field gone back to. -/
theorem at?_rewind_iff {place : Nat} {path : Path} {c : Clearing} {x : Json} {s : List String}
    (h : r.rewind policy form place path = .ok c) (hx : x.isAtom = true)
    (hapart : Apart path.segments s) (hat : r.draft.members.at? s = some x) :
    c.draft.members.at? s = some x ↔ r.initial.members.at? s = some x ∨
      ∀ j g, j ∈ c.cleared → place < j → form.fields[j]? = some g → ¬g.path.Covers s := by
  obtain ⟨d, hreset, hsweeps⟩ := rewind_eq_ok_iff.mp h
  have hnot : ¬path.Covers s := fun hcovers => hapart.1 hcovers.2
  refine hsweeps.at?_iff (fun j hj => ?_) hx ((at?_reset_of_not_covers hnot hx hreset).mpr hat)
  exact List.mem_singleton.mp hj ▸ Nat.lt_succ_self place

/-! ## The history -/

/-- **Every field in the history of a run was answered.** The induction is on the visits. -/
theorem Leads.answered {first : Run} (h : Leads o form first vs r) (hfirst : first.history = []) :
    ∀ q ∈ r.history, ∃ a, lastAnswer? vs q = some a := by
  induction h with
  | start => exact fun q hq => absurd (hfirst ▸ hq) List.not_mem_nil
  | @next vs r r' v w before hshows hgoes ih =>
      -- an answer stays the last one, or there is a new one
      have hlater : ∀ q ∈ r.history, ∃ a, lastAnswer? (vs ++ [v]) q = some a := by
        intro q hq
        by_cases hplace : v.place = q ∧ v.accepted?.isSome = true
        · obtain ⟨rfl, hsome⟩ := hplace
          obtain ⟨a, ha⟩ := Option.isSome_iff_exists.mp hsome
          exact ⟨a, lastAnswer?_of_accepted ha⟩
        · rw [lastAnswer?_append hplace]
          exact ih q hq
      have hhistory := history_of_shows hshows
      rcases settled_eq_goesOn hgoes with ⟨a, ha, haccept⟩ | ⟨a, message, -, rfl⟩ |
        ⟨e, -, -, hback⟩
      · obtain ⟨draft, recent, -, -, rfl⟩ := accept_eq_ok haccept
        intro q hq
        rcases List.mem_append.mp hq with hq | hq
        · exact hlater q (hhistory ▸ hq)
        · exact List.mem_singleton.mp hq ▸ ⟨a, lastAnswer?_of_accepted ha⟩
      · exact fun q hq => hlater q (hhistory ▸ hq)
      · obtain ⟨c, -, rfl⟩ := exists_rewind_of_goBack hback
        exact fun q hq => hlater q (hhistory ▸ (List.mem_filter.mp hq).1)

/-- Going back lands on an answered field, and clears from there on. -/
theorem Leads.rewinds {first : Run} (h : Leads o form first vs r) (hfirst : first.history = [])
    {v : Visit} (hshows : r.Shows o form v) {e : Nat} (hlanded : v.landed? = some e) {w : Session}
    (hgoes : v.settled o form = (.goesOn r', w)) :
    ∃ f c, form.fields[e]? = some f ∧ v.run.rewind o.policy form e f.path = .ok c ∧
      r'.draft = c.draft ∧ r'.history = v.run.history.filter fun j => !c.cleared.contains j := by
  rcases Visit.goesOn_cases hgoes with ⟨_, -, -, hnone, -⟩ | ⟨_, _, -, -, hnone, -⟩ |
    ⟨e', -, -, hlanded', hlanding, hback⟩
  · exact absurd (hnone.symm.trans hlanded) (by simp)
  · exact absurd (hnone.symm.trans hlanded) (by simp)
  · obtain rfl : e' = e := Option.some.inj (hlanded'.symm.trans hlanded)
    have hmem : e' ∈ r.history :=
      history_of_shows hshows ▸ List.mem_reverse.mp (List.mem_of_find?_eq_some hlanding)
    obtain ⟨a, ha⟩ := h.answered hfirst e' hmem
    obtain ⟨u, hu, -, rfl, -⟩ := exists_of_lastAnswer?_eq_some ha
    have hf := h.field_eq u hu
    rw [target_eq hf] at hback
    obtain ⟨c, hrewind, rfl⟩ := exists_rewind_of_goBack hback
    exact ⟨u.field, c, hf, hrewind, rfl, rfl⟩

end Run

/-! ## Earlier answers -/

/-- The answer that a visit brought put a value at a place in the draft: at the path of its field,
or below. -/
def Visit.Puts (u : Visit) (s : List String) (x : Json) : Prop :=
  ∃ a d, u.accepted? = some a ∧ u.run.draft.set u.field.path a = .ok d ∧
    u.field.path.segments <+: s ∧ d.members.at? s = some x

/-- **What going back leaves of earlier answers.** The user goes back to a field. Every field before
it that was answered is still answered, and what its last accepted answer put into the draft, at a
place apart from the field gone back to, stays there just if the start has it too, or no later field
is cleared whose path leads there. -/
theorem Form.stays_iff_of_landed {form : Form} {n : Nat} {o : Options} {initial recent : Draft}
    {w w' : Session} {before after : List Visit} {v : Visit} {e : Nat} {r' : Run}
    (h : form.visits n o initial recent w = before ++ v :: after) (hlanded : v.landed? = some e)
    (hgoes : v.settled o form = (.goesOn r', w')) :
    ∃ f c, form.fields[e]? = some f ∧ v.run.rewind o.policy form e f.path = .ok c ∧
      ∀ q ∈ v.run.history, q < e → q ∈ r'.history ∧
        ∃ u, lastAccepted? before q = some u ∧ ∀ s x, u.Puts s x → x.isAtom = true →
          v.run.draft.members.at? s = some x → Apart f.path.segments s →
          (r'.draft.members.at? s = some x ↔ initial.members.at? s = some x ∨
            ∀ j g, j ∈ c.cleared → e < j → form.fields[j]? = some g → ¬g.path.Covers s) := by
  obtain ⟨first, r, hstart, hleads, hshows, -⟩ := Form.leads_of_visits_eq h
  have hfirst := Run.start_eq_ok hstart
  have hnone : first.history = [] := by rw [hfirst]
  obtain ⟨f, c, hf, hrewind, hdraft, hhistory⟩ := hleads.rewinds hnone hshows hlanded hgoes
  refine ⟨f, c, hf, hrewind, fun q hq hlt => ⟨?_, ?_⟩⟩
  · -- only fields from there on are cleared
    rw [hhistory]
    refine List.mem_filter.mpr ⟨hq, ?_⟩
    have hnot : q ∉ c.cleared := fun hmem =>
      Nat.not_le_of_lt hlt (Run.le_of_mem_cleared hrewind hmem)
    simpa using hnot
  · obtain ⟨a, ha⟩ := hleads.answered hnone q (Run.history_of_shows hshows ▸ hq)
    obtain ⟨u, -, hu, -, -⟩ := exists_of_lastAnswer?_eq_some ha
    refine ⟨u, hu, fun s x _ hx hat hapart => ?_⟩
    have hsame : v.run.initial = initial := by
      rw [Run.initial_of_shows hshows, hleads.initial_eq, hfirst]
    rw [hdraft, ← hsame]
    exact Run.at?_rewind_iff hrewind hx hapart hat

/-! ## A target and its kind

The target is answered as a whole, so its kind is never asked for. The user goes back from the zone to
the runtime, and the kind is reset although it belongs to the answer of the target. -/

/-- The form in which the kind of the target has a field of its own. -/
def Form.retarget : Form :=
  Form.empty
    |>.bind (.asking (.ofText "target") (.shaped .anything) (.deck 0 0 false))
    |>.bind (.asking (.ofText "runtime") (.shaped .text) (.deck 1 0 false))
    |>.bind (.asking (.ofText "target.kind") (.shaped .text) .unanswered)
    |>.bind (.asking (.ofText "zone") (.shaped .text) (.deck 2 0 false))

/-- The replies of the user who goes back from the zone. -/
def Session.retarget : Session :=
  { Session.new (.rehearsal []) with
    decks := [Deck.new "target" (.shaped .anything) [.value (.object [("kind", .text "code")])],
      Deck.new "runtime" (.shaped .text) [.value (.text "java"), .value (.text "node")],
      Deck.new "zone" (.shaped .text) [.back, .value (.text "a")]] }

/-- The target is still answered after going back to the runtime, and its kind is lost. -/
theorem lost_of_retarget :
    ∃ before v after r' w',
      Form.retarget.visits 10 .default .empty .empty .retarget = before ++ v :: after ∧
      v.landed? = some 1 ∧ v.settled .default .retarget = (.goesOn r', w') ∧ 0 ∈ v.run.history ∧
      v.run.draft.members.at? ["target", "kind"] = some (.text "code") ∧ 0 ∈ r'.history ∧
      (∃ u, lastAccepted? before 0 = some u ∧ u.Puts ["target", "kind"] (.text "code")) ∧
      r'.draft.members.at? ["target", "kind"] ≠ some (.text "code") := by
  obtain ⟨f, c, hf, hrewind, hkept⟩ := @Form.stays_iff_of_landed .retarget 10 .default .empty .empty
    .retarget _ [_, _] _ _ 1 _ rfl rfl rfl
  obtain rfl := Option.some.inj hf
  obtain rfl := Except.ok.inj hrewind
  obtain ⟨hstill, u, hu, hiff⟩ := hkept 0 List.mem_cons_self Nat.zero_lt_one
  have hputs : u.Puts ["target", "kind"] (.text "code") := by
    obtain rfl := Option.some.inj hu
    exact ⟨_, _, rfl, rfl, ⟨["kind"], rfl⟩, rfl⟩
  refine ⟨_, _, _, _, _, rfl, rfl, rfl, List.mem_cons_self, rfl, hstill, ⟨u, hu, hputs⟩, ?_⟩
  intro hat
  rcases (hiff _ _ hputs rfl rfl ⟨by decide, by decide⟩).mp hat with hinitial | hfree
  · exact absurd hinitial (by simp [Draft.empty, Members.at?_empty])
  · exact hfree 2 _ (by decide) (by decide) rfl ⟨rfl, List.prefix_refl _⟩

end Interview
