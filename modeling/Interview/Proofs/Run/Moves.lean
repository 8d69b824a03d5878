import Interview.Proofs.Draft.Frame
import Interview.Proofs.Run.Visits
/-
The moves of a run: searching, accepting, rejecting and going back.

Each move is described once here, by what it does to the run, and no later file opens its
definition again. A search is a walk over the fields in order, so it is described by an
induction principle: what holds at the first field and is kept by passing over a closed field
and by leaving out an open one holds where the search stops (`Run.seek_keeps`). Going back is
a series of resets, so it is described the same way: what every reset keeps holds after all
of them, and if no reset fails then going back does not fail (`Run.exists_goBack_eq_ok`). What
depends on the order of the resets is proved by induction on `Run.Sweeps`, which has a constructor
for the fields that are spared and one for those that are cleared.
-/

set_option autoImplicit false

namespace Interview

/-! ## Fields with nothing to ask -/

/-- Whether there is no question. -/
def Offer.isDecline : Offer → Bool
  | .decline => true
  | _ => false

/-- Whether a field has nothing to ask for a draft: it does not apply, or there is no question for
it. -/
def Field.declines (f : Field) (o : Options) (d : Draft) (attempt : Option (Attempt Json)) : Bool :=
  !f.condition d || (f.offer ⟨f.path, d, attempt, o⟩).isDecline

/-- A field that applies has nothing to ask when there is no question for it. -/
theorem Field.declines_of_condition {f : Field} {d : Draft} (h : f.condition d = true)
    (o : Options) (attempt : Option (Attempt Json)) :
    f.declines o d attempt = (f.offer ⟨f.path, d, attempt, o⟩).isDecline := by
  rw [declines, h, Bool.not_true, Bool.false_or]

variable {form : Form} {o : Options} {r r' : Run}

namespace Run

/-! ## The start -/

/-- A run starts with the given drafts, nothing answered and nothing left out. -/
theorem start_eq_ok {initial recent : Draft} (h : Run.start form initial recent = .ok r) :
    r = { initial, recent, assumed := filledPlaces form initial, draft := initial, history := []
          skipped := [], retry := none } := by
  unfold Run.start at h
  split at h
  · exact absurd h (by simp)
  · exact (Except.ok.inj h).symm

/-- The places that a draft fills are those of the fields that it fills. -/
theorem mem_filledPlaces {d : Draft} {i : Nat} :
    i ∈ filledPlaces form d ↔ ∃ f, form.fields[i]? = some f ∧ f.isFilled d = true := by
  unfold filledPlaces
  simp only [List.mem_map, List.mem_filter, Prod.exists, exists_eq_right]
  constructor
  · rintro ⟨f, hf, hfilled⟩
    exact ⟨f, List.mem_zipIdx_iff_getElem?.mp hf, hfilled⟩
  · rintro ⟨f, hf, hfilled⟩
    exact ⟨f, List.mem_zipIdx_iff_getElem?.mpr hf, hfilled⟩

/-! ## Searching -/

/-- A field is open when it is neither left out, nor answered, nor filled. -/
theorem isClosed_eq_false_iff {i : Nat} {f : Field} :
    r.isClosed i f = false ↔ i ∉ r.skipped ∧ i ∉ r.history ∧ f.isFilled r.draft = false := by
  simp [isClosed, and_assoc]

/-- A list that begins at a place of another begins with what is there. -/
theorem drop_eq_cons {α : Type} {xs rest : List α} {i : Nat} {x : α} (h : x :: rest = xs.drop i) :
    xs[i]? = some x ∧ rest = xs.drop (i + 1) := by
  constructor
  · have hhead := congrArg List.head? h
    rwa [List.head?_drop, List.head?_cons, eq_comm] at hhead
  · have htail := congrArg List.tail h
    rwa [List.tail_drop, List.tail_cons] at htail

variable {I : Nat → Run → Prop}

/-- What a search has come to, when `I i` holds of the run whenever the search is at place `i`. -/
def FoundWith (o : Options) (form : Form) (I : Nat → Run → Prop) (r : Run) : Found → Prop
  | .nothing => I form.fields.length r
  | .failed _ => True
  | .step i f attempt make =>
    form.fields[i]? = some f ∧ I i r ∧ r.isClosed i f = false ∧
      f.declines o r.draft attempt = false ∧ f.offer ⟨f.path, r.draft, attempt, o⟩ = .ask make

/-- Giving up the refused answer of a place changes nothing else. -/
theorem exists_withoutRetry_eq (r : Run) (i : Nat) :
    ∃ x, r.withoutRetry i = { r with retry := x } := by
  unfold withoutRetry
  split
  · split
    · exact ⟨none, rfl⟩
    · exact ⟨r.retry, rfl⟩
  · exact ⟨r.retry, rfl⟩

/-- **What a search keeps.** The walk over the fields passes over the closed ones and leaves out
those that have nothing to ask. The refused answer is given up on the way, so the property must
not depend on it. -/
theorem seek_keeps (hretry : ∀ i r x, I i r → I i { r with retry := x })
    (hclosed : ∀ i f r, form.fields[i]? = some f → I i r → r.isClosed i f = true → I (i + 1) r)
    (hskip : ∀ i f r a, form.fields[i]? = some f → I i r → r.isClosed i f = false →
      f.declines o r.draft a = true → I (i + 1) (r.skip i)) (h : I 0 r) :
    FoundWith o form I (r.seek o form).2.1 (r.seek o form).2.2 := by
  have walk : ∀ (fields : List Field) (i : Nat) (r : Run), fields = form.fields.drop i →
      i ≤ form.fields.length → I i r →
      FoundWith o form I (r.seekFrom o i fields).2.1 (r.seekFrom o i fields).2.2 := by
    intro fields
    induction fields with
    | nil =>
        intro i r hfields hi hr
        have hlen : form.fields.length ≤ i := List.drop_eq_nil_iff.mp hfields.symm
        have heq : i = form.fields.length := Nat.le_antisymm hi hlen
        exact heq ▸ hretry i r none hr
    | cons f rest ih =>
        intro i r hfields hi hr
        obtain ⟨hf, hrest⟩ := drop_eq_cons hfields
        have hlt : i + 1 ≤ form.fields.length := (List.getElem?_eq_some_iff.mp hf).1
        rw [seekFrom]
        split
        · rename_i hc
          exact ih (i + 1) r hrest hlt (hclosed i f r hf hr hc)
        · rename_i hc
          have hopen : r.isClosed i f = false := by simpa using hc
          split
          · -- the field does not apply
            rename_i hcond
            refine ih (i + 1) (r.skip i) hrest hlt (hskip i f r none hf hr hopen ?_)
            simp only [Field.declines, hcond, Bool.true_or]
          · rename_i hcond
            have happlies : f.condition r.draft = true := by simpa using hcond
            -- the attempt is read off before the refused answer is given up
            obtain ⟨x, hx⟩ := exists_withoutRetry_eq r i
            have hr' : I i { r with retry := x } := hretry i r x hr
            rcases hoffer : f.offer ⟨f.path, r.draft, r.attemptAt i f, o⟩ with _ | cause | make
            · -- the field applies, but has no question
              simp only [hoffer, hx]
              refine ih (i + 1) _ hrest hlt (hskip i f _ (r.attemptAt i f) hf hr' hopen ?_)
              show f.declines o r.draft (r.attemptAt i f) = true
              rw [Field.declines_of_condition happlies, hoffer]
              rfl
            · simp only [hoffer]
              trivial
            · simp only [hoffer, hx]
              refine ⟨hf, hretry i r none hr, hopen, ?_, hoffer⟩
              show f.declines o r.draft (r.attemptAt i f) = false
              rw [Field.declines_of_condition happlies, hoffer]
              rfl
  exact walk form.fields 0 r rfl (Nat.zero_le _) h

/-- A search leaves the answers and the draft as they are. -/
theorem kept_of_seek {entries : List Entry} {found : Found}
    (hseek : r.seek o form = (entries, r', found)) :
    FoundWith o form (fun _ next => next.history = r.history ∧ next.assumed = r.assumed ∧
      next.draft = r.draft) r' found := by
  have hkept : FoundWith o form (fun _ next => next.history = r.history ∧
      next.assumed = r.assumed ∧ next.draft = r.draft) (r.seek o form).2.1 (r.seek o form).2.2 :=
    seek_keeps (fun _ _ _ hr => hr) (fun _ _ _ _ hr _ => hr) (fun _ _ _ _ _ hr _ _ => hr)
      ⟨rfl, rfl, rfl⟩
  rwa [hseek] at hkept

/-- The step that a search comes to is that of a field, with a question that the field offered. -/
theorem offer_of_seek_eq {entries : List Entry} {i : Nat} {f : Field}
    {attempt : Option (Attempt Json)} {make : Session → Question × Session}
    (h : r.seek o form = (entries, r', .step i f attempt make)) :
    form.fields[i]? = some f ∧ f.offer ⟨f.path, r'.draft, attempt, o⟩ = .ask make := by
  have hfound : FoundWith o form (fun _ _ => True) (r.seek o form).2.1 (r.seek o form).2.2 :=
    seek_keeps (fun _ _ _ _ => trivial) (fun _ _ _ _ _ _ => trivial)
      (fun _ _ _ _ _ _ _ _ => trivial) trivial
  rw [h] at hfound
  obtain ⟨hf, -, -, -, hoffer⟩ := hfound
  exact ⟨hf, hoffer⟩

end Run

/-- **What is asked at a visit.** The field was asked for its question with the draft and the attempt
of the visit, the question was prepared with this attempt, and what it came to is the outcome. -/
def Visit.Asks (v : Visit) (o : Options) (form : Form) (m : Nat) (q : Question) (w : Session) :
    Prop :=
  ∃ make w₀, v.field.offer ⟨v.field.path, v.run.draft, v.attempt, o⟩ = .ask make ∧
    v.run.present o form v.place v.field v.attempt make w₀ = (q, w) ∧ v.outcome = (q.ask m w).1

theorem Run.exists_asks_of_visit? {n : Nat} {v : Visit} {w : Session}
    (h : r.visit? n form o w = some v) : ∃ q w', v.Asks o form n q w' := by
  unfold visit? at h
  split at h
  · rename_i entries run place field attempt make hseek
    obtain rfl := Option.some.inj h
    exact ⟨_, _, make, w.emit entries, (offer_of_seek_eq hseek).2, rfl, rfl⟩
  · exact absurd h (by simp)

/-- Something is asked at every visit of a form. -/
theorem Form.exists_asks {n : Nat} {initial recent : Draft} {w : Session} {v : Visit}
    (hv : v ∈ form.visits n o initial recent w) : ∃ m q w', v.Asks o form m q w' := by
  rcases n with _ | n
  · exact absurd hv List.not_mem_nil
  · rcases hstart : Run.start form initial recent with e | first
    · unfold Form.visits at hv
      simp only [hstart] at hv
      exact absurd hv List.not_mem_nil
    · rw [Form.visits_eq hstart] at hv
      obtain ⟨_, _, r, -, -, -, m, w', hvisit⟩ := Run.Leads.of_mem_visits .start hv
      exact ⟨m, Run.exists_asks_of_visit? hvisit⟩

namespace Run

/-! ## Accepting -/

/-- An accepted answer is stored in both drafts, and its place goes to the end of the history. -/
theorem accept_eq_ok {i : Nat} {p : Path} {v : Json} (h : r.accept i p v = .ok r') :
    ∃ draft recent, r.draft.set p v = .ok draft ∧ r.recent.set p v = .ok recent ∧
      r' = { r with draft, recent, history := r.history ++ [i] } := by
  unfold accept at h
  cases hd : r.draft.set p v with
  | error e => simp [hd, bind, Except.bind] at h
  | ok draft =>
      cases hrec : r.recent.set p v with
      | error e => simp [hd, hrec, bind, Except.bind] at h
      | ok recent =>
          simp only [hd, hrec, bind, Except.bind, pure, Except.pure, Except.ok.injEq] at h
          exact ⟨draft, recent, rfl, rfl, h.symm⟩

/-- An answer is stored if nothing stands in its way in either draft. -/
theorem exists_accept_eq_ok {p : Path} (hdraft : r.draft.Admits p) (hrecent : r.recent.Admits p)
    (i : Nat) (v : Json) : ∃ r', r.accept i p v = .ok r' := by
  obtain ⟨draft, hd⟩ := Draft.exists_set_eq_ok hdraft v
  obtain ⟨recent, hrec⟩ := Draft.exists_set_eq_ok hrecent v
  refine ⟨{ r with draft, recent, history := r.history ++ [i] }, ?_⟩
  simp only [accept, hd, hrec, bind, Except.bind, pure, Except.pure]

/-! ## Going back -/

/-- A reset leaves alone what is read at a path that is apart. -/
theorem at?_reset_of_apart {initial d d' : Draft} {p q : Path}
    (hpq : Apart p.segments q.segments) (h : reset initial p d = .ok d') :
    d'.members.at? q.segments = d.members.at? q.segments := by
  unfold reset at h
  split at h
  · exact (Draft.at?_set_of_apart hpq h).trans (Draft.at?_remove_of_apart hpq)
  · rw [Except.ok.injEq] at h
    rw [← h]
    exact Draft.at?_remove_of_apart hpq

/-- What is read at a path that was reset is what the start has there. -/
theorem get?_reset_self {initial d d' : Draft} {p : Path} (h : reset initial p d = .ok d') :
    d'.get? p = initial.get? p := by
  unfold reset at h
  split at h
  · rename_i v hv
    have hnull := (Option.filter_eq_some_iff.mp hv).2
    rw [hv, Draft.get?, Draft.at?_set_self h, Option.filter_some, if_pos hnull]
  · rename_i hnone
    rw [Except.ok.injEq] at h
    rw [← h, hnone, Draft.get?]
    have hat : (d.remove p).2.members.at? p.segments = none := Members.at?_remove_self _ _
    rw [hat, Option.filter_none]

/-- A reset leaves paths free that were free, if they are apart from its own or the same. -/
theorem admits_reset {initial d d' : Draft} {p q : Path} (hq : d.Admits q)
    (hpq : p = q ∨ Apart p.segments q.segments) (h : reset initial p d = .ok d') : d'.Admits q := by
  unfold reset at h
  split at h
  · exact Draft.Admits.set hq.remove hpq h
  · rw [Except.ok.injEq] at h
    exact h ▸ hq.remove

/-- A reset succeeds where nothing stands in the way. -/
theorem exists_reset_eq_ok {d : Draft} {p : Path} (initial : Draft) (h : d.Admits p) :
    ∃ d', reset initial p d = .ok d' := by
  unfold reset
  split
  · exact Draft.exists_set_eq_ok h.remove _
  · exact ⟨_, rfl⟩

/-- A reset succeeds where something is read, or where the start has nothing to put back. -/
theorem exists_reset_eq_ok_of_get? {initial d : Draft} {p : Path}
    (h : d.Admits p ∨ initial.get? p = none) : ∃ d', reset initial p d = .ok d' := by
  rcases h with h | h
  · exact exists_reset_eq_ok initial h
  · exact ⟨_, by rw [reset, h]⟩

/-! ## The sweep over the later fields -/

section Sweeping

variable {policy : Policy} {f : Field} {i place : Nat} {path : Path} {c c' : Clearing}

/-- **The sweep over the fields from a place on**, from what is cleared so far to what is cleared at
the end. -/
inductive Sweeps (r : Run) (policy : Policy) (form : Form) : Nat → Clearing → Clearing → Prop
  /-- There are no more fields. -/
  | done {i : Nat} (c : Clearing) (last : form.fields.length ≤ i) : Sweeps r policy form i c c
  /-- An assumed field stays, and so does one that is not stale. -/
  | spare {i : Nat} {f : Field} {c c' : Clearing} (field : form.fields[i]? = some f)
    (stays : i ∈ r.assumed ∨ isStale policy form c.cleared f = false)
    (later : Sweeps r policy form (i + 1) c c') : Sweeps r policy form i c c'
  /-- A stale field is reset, and its answer is not offered again. -/
  | clear {i : Nat} {f : Field} {c c' : Clearing} {d : Draft} (field : form.fields[i]? = some f)
    (new : i ∉ r.assumed) (stale : isStale policy form c.cleared f = true)
    (reset : Run.reset r.initial f.path c.draft = .ok d)
    (later : Sweeps r policy form (i + 1) ⟨d, (c.recent.remove f.path).2, c.cleared ++ [i]⟩ c') :
    Sweeps r policy form i c c'

namespace Sweeps

/-- A sweep is over behind the last field. -/
theorem iff_of_last (hlast : form.fields.length ≤ i) : r.Sweeps policy form i c c' ↔ c = c' := by
  refine ⟨fun h => ?_, fun heq => heq ▸ .done c hlast⟩
  have hnone : form.fields[i]? = none := List.getElem?_eq_none hlast
  cases h with
  | done => rfl
  | spare field => exact absurd (hnone.symm.trans field) (by simp)
  | clear field => exact absurd (hnone.symm.trans field) (by simp)

/-- A sweep moves over a field that stays. -/
theorem iff_of_stays (hf : form.fields[i]? = some f)
    (hstays : i ∈ r.assumed ∨ isStale policy form c.cleared f = false) :
    r.Sweeps policy form i c c' ↔ r.Sweeps policy form (i + 1) c c' := by
  refine ⟨fun h => ?_, .spare hf hstays⟩
  cases h with
  | done _ last => exact absurd (hf.symm.trans (List.getElem?_eq_none last)) (by simp)
  | spare _ _ later => exact later
  | clear field new stale =>
      obtain rfl := Option.some.inj (hf.symm.trans field)
      rw [hstays.resolve_left new] at stale
      exact absurd stale Bool.false_ne_true

/-- A sweep begins with the reset of a field that is stale. -/
theorem iff_of_stale (hf : form.fields[i]? = some f) (hnew : i ∉ r.assumed)
    (hstale : isStale policy form c.cleared f = true) : r.Sweeps policy form i c c' ↔
      ∃ d, Run.reset r.initial f.path c.draft = .ok d ∧
        r.Sweeps policy form (i + 1) ⟨d, (c.recent.remove f.path).2, c.cleared ++ [i]⟩ c' := by
  refine ⟨fun h => ?_, fun ⟨d, hreset, later⟩ => .clear hf hnew hstale hreset later⟩
  cases h with
  | done _ last => exact absurd (hf.symm.trans (List.getElem?_eq_none last)) (by simp)
  | spare field stays =>
      obtain rfl := Option.some.inj (hf.symm.trans field)
      rw [stays.resolve_left hnew] at hstale
      exact absurd hstale Bool.false_ne_true
  | clear field _ _ reset later =>
      obtain rfl := Option.some.inj (hf.symm.trans field)
      exact ⟨_, reset, later⟩

end Sweeps

/-- **Clearing that succeeds is a sweep**, and the other way round. -/
theorem clearFrom_eq_ok_iff :
    r.clearFrom policy form i (form.fields.drop i) c = .ok c' ↔ r.Sweeps policy form i c c' := by
  generalize hfields : form.fields.drop i = fields
  induction fields generalizing i c with
  | nil => rw [clearFrom, Except.ok.injEq, Sweeps.iff_of_last (List.drop_eq_nil_iff.mp hfields)]
  | cons f rest ih =>
      obtain ⟨hf, hrest⟩ := drop_eq_cons hfields.symm
      rw [clearFrom]
      by_cases hassumed : i ∈ r.assumed
      · rw [if_pos (by simpa using hassumed), ih hrest.symm,
          Sweeps.iff_of_stays hf (Or.inl hassumed)]
      · rw [if_neg (by simpa using hassumed)]
        rcases hstale : isStale policy form c.cleared f with _ | _
        · rw [if_neg Bool.false_ne_true, ih hrest.symm, Sweeps.iff_of_stays hf (Or.inr hstale)]
        · rw [if_pos rfl, Sweeps.iff_of_stale hf hassumed hstale]
          rcases reset r.initial f.path c.draft with e | d
          · simp [bind, Except.bind]
          · simp only [bind, Except.bind, Except.ok.injEq, exists_eq_left', ih hrest.symm]

/-- **Going back, as far as drafts are concerned**: a reset of the field that it lands on, and a sweep
over the later ones. -/
theorem rewind_eq_ok_iff :
    r.rewind policy form place path = .ok c ↔ ∃ d, reset r.initial path r.draft = .ok d ∧
      r.Sweeps policy form (place + 1) ⟨d, r.recent, [place]⟩ c := by
  unfold rewind
  rcases reset r.initial path r.draft with e | d
  · simp [bind, Except.bind]
  · simp only [bind, Except.bind, Except.ok.injEq, exists_eq_left', clearFrom_eq_ok_iff]

/-- What going back comes to when it succeeds. -/
theorem exists_rewind_of_goBack (h : r.goBack policy form place path = .ok r') :
    ∃ c, r.rewind policy form place path = .ok c ∧ r' = { r with
      draft := c.draft
      recent := c.recent
      history := r.history.filter fun j => !c.cleared.contains j
      skipped := r.skipped.filter fun j => j < place } := by
  unfold goBack at h
  rcases hrewind : r.rewind policy form place path with e | c
  · simp [hrewind, bind, Except.bind] at h
  · simp only [hrewind, bind, Except.bind, pure, Except.pure, Except.ok.injEq] at h
    exact ⟨c, rfl, h.symm⟩

end Sweeping

variable {P Q : Draft → Prop}

/-- **What clearing keeps.** From a place on, the stale fields are reset one after the other. If
every reset succeeds and keeps `P`, so does clearing, and if every removal of an answer keeps `Q`,
the answers to offer again keep it. Only places from there on are cleared in addition. -/
theorem exists_sweeps (policy : Policy) (form : Form) (r : Run) (i : Nat)
    (hP : ∀ j f d, i ≤ j → form.fields[j]? = some f → j ∉ r.assumed → P d →
      ∃ d', reset r.initial f.path d = .ok d' ∧ P d')
    (hQ : ∀ j f d, i ≤ j → form.fields[j]? = some f → Q d → Q (d.remove f.path).2)
    (c : Clearing) (hc : P c.draft) (hrec : Q c.recent) :
    ∃ c', r.Sweeps policy form i c c' ∧ P c'.draft ∧ Q c'.recent ∧
      (∀ j ∈ c.cleared, j ∈ c'.cleared) ∧ ∀ j ∈ c'.cleared, j ∈ c.cleared ∨ i ≤ j := by
  generalize hfields : form.fields.drop i = fields
  induction fields generalizing i c with
  | nil =>
      exact ⟨c, .done c (List.drop_eq_nil_iff.mp hfields), hc, hrec, fun _ hj => hj,
        fun _ hj => Or.inl hj⟩
  | cons f rest ih =>
      obtain ⟨hf, hrest⟩ := drop_eq_cons hfields.symm
      have hP' : ∀ j f d, i + 1 ≤ j → form.fields[j]? = some f → j ∉ r.assumed → P d →
          ∃ d', reset r.initial f.path d = .ok d' ∧ P d' :=
        fun j f d hj => hP j f d (Nat.le_of_succ_le hj)
      have hQ' : ∀ j f d, i + 1 ≤ j → form.fields[j]? = some f → Q d → Q (d.remove f.path).2 :=
        fun j f d hj => hQ j f d (Nat.le_of_succ_le hj)
      have hlater : ∀ {c₁ c' : Clearing}, (∀ j ∈ c₁.cleared, j ∈ c.cleared ∨ i ≤ j) →
          (∀ j ∈ c'.cleared, j ∈ c₁.cleared ∨ i + 1 ≤ j) →
          ∀ j ∈ c'.cleared, j ∈ c.cleared ∨ i ≤ j := by
        intro c₁ c' h₁ h' j hj
        rcases h' j hj with hj | hj
        · exact h₁ j hj
        · exact Or.inr (Nat.le_of_succ_le hj)
      by_cases hstays : i ∈ r.assumed ∨ isStale policy form c.cleared f = false
      · obtain ⟨c', hsweeps, hd, hr, hsub, hnew⟩ := ih (i + 1) hP' hQ' c hc hrec hrest.symm
        exact ⟨c', .spare hf hstays hsweeps, hd, hr, hsub, hlater (fun j hj => Or.inl hj) hnew⟩
      · -- a stale field is reset, and is cleared from now on
        obtain ⟨hnot, hstale⟩ := not_or.mp hstays
        rw [Bool.not_eq_false] at hstale
        obtain ⟨d, hreset, hd⟩ := hP i f c.draft (Nat.le_refl i) hf hnot hc
        obtain ⟨c', hsweeps, hd', hr', hsub, hnew⟩ :=
          ih (i + 1) hP' hQ' ⟨d, (c.recent.remove f.path).2, c.cleared ++ [i]⟩ hd
            (hQ i f c.recent (Nat.le_refl i) hf hrec) hrest.symm
        refine ⟨c', .clear hf hnot hstale hreset hsweeps, hd', hr', ?_, hlater ?_ hnew⟩
        · exact fun j hj => hsub j (List.mem_append_left _ hj)
        · intro j hj
          rcases List.mem_append.mp hj with hj | hj
          · exact Or.inl hj
          · exact Or.inr (Nat.le_of_eq (List.mem_singleton.mp hj).symm)

/-- **What going back keeps.** The field gone back to is reset, and after it the stale ones of the
later fields. If each of these resets succeeds and keeps `P`, going back succeeds. Nothing but the
answers of this field and of later ones leaves the history. -/
theorem exists_goBack_eq_ok (policy : Policy) (form : Form) (r : Run) (place : Nat) (path : Path)
    {d : Draft} (hreset : reset r.initial path r.draft = .ok d) (hd : P d)
    (hP : ∀ j f d, place < j → form.fields[j]? = some f → j ∉ r.assumed → P d →
      ∃ d', reset r.initial f.path d = .ok d' ∧ P d')
    (hQ : ∀ j f d, place < j → form.fields[j]? = some f → Q d → Q (d.remove f.path).2)
    (hrec : Q r.recent) :
    ∃ (c : Clearing), r.goBack policy form place path = .ok { r with
        draft := c.draft
        recent := c.recent
        history := r.history.filter fun j => !c.cleared.contains j
        skipped := r.skipped.filter fun j => j < place } ∧
      P c.draft ∧ Q c.recent ∧ place ∈ c.cleared ∧ ∀ j ∈ c.cleared, place ≤ j := by
  obtain ⟨c, hsweeps, hPc, hQc, hsub, hnew⟩ :=
    exists_sweeps policy form r (place + 1) hP hQ ⟨d, r.recent, [place]⟩ hd hrec
  have hrewind : r.rewind policy form place path = .ok c :=
    rewind_eq_ok_iff.mpr ⟨d, hreset, hsweeps⟩
  refine ⟨c, ?_, hPc, hQc, hsub place (List.mem_singleton_self place), ?_⟩
  · simp only [goBack, hrewind, bind, Except.bind, pure, Except.pure]
  · intro j hj
    rcases hnew j hj with hj | hj
    · exact Nat.le_of_eq (List.mem_singleton.mp hj).symm
    · exact Nat.le_of_succ_le hj

/-! ## Settling -/

/-- Only a check refuses an answer. -/
theorem isSome_check_of_weigh {f : Field} {v : Json} {d : Draft} {w w' : Session}
    {message : String} (h : weigh f v d w = (.rejected message, w')) : f.check.isSome = true := by
  unfold weigh at h
  split at h
  · simp at h
  · rename_i hcheck
    rw [hcheck]
    rfl

/-- What an outcome lets a run go on with: an answer that was accepted or refused, or the wish to go
back. -/
theorem settle_eq_goesOn {place : Nat} {f : Field} {outcome : Outcome (Reply Json)}
    {w w' : Session} (h : r.settle o form place f outcome w = (.goesOn r', w')) :
    (∃ answer v w₁, outcome = .done (.value answer) ∧ f.type.encode answer = .ok v ∧
      ((weigh f v r.draft w = (.accepted, w₁) ∧ r.accept place f.path v = .ok r') ∨
        ∃ message, weigh f v r.draft w = (.rejected message, w₁) ∧
          r' = r.reject place v message)) ∨
    (outcome = .done .back ∧ ∃ earlier, r.landing? place = some earlier ∧
      r.goBack o.policy form earlier
        (((form.fields[earlier]?).map Field.path).getD .root) = .ok r') := by
  unfold settle at h
  split at h
  · -- an answer: it is encoded, weighed and stored, and each of these can fail
    rename_i answer
    unfold settleAnswer at h
    split at h
    · simp at h
    · rename_i v henc
      split at h
      · simp at h
      · simp at h
      · rename_i message w₁ hweigh
        simp only [Prod.mk.injEq, Course.goesOn.injEq] at h
        exact Or.inl ⟨answer, v, w₁, rfl, henc, Or.inr ⟨message, hweigh, h.1.symm⟩⟩
      · rename_i w₁ hweigh
        split at h
        · simp at h
        · rename_i haccept
          simp only [Prod.mk.injEq, Course.goesOn.injEq] at h
          have hok := haccept.trans (congrArg Except.ok h.1)
          exact Or.inl ⟨answer, v, w₁, rfl, henc, Or.inl ⟨hweigh, hok⟩⟩
  · -- going back: without an earlier answer the run is left
    unfold settleBack at h
    split at h
    · simp at h
    · rename_i earlier hlanding
      simp only at h
      split at h
      · simp at h
      · rename_i hback
        simp only [Prod.mk.injEq, Course.goesOn.injEq] at h
        exact Or.inr ⟨rfl, earlier, hlanding, hback.trans (congrArg Except.ok h.1)⟩
  all_goals simp at h

/-- Only the wish to go back lets a run end by going back. -/
theorem outcome_of_settle_eq_back {place : Nat} {f : Field} {outcome : Outcome (Reply Json)}
    {w w' : Session} (h : r.settle o form place f outcome w = (.ends (.done .back), w')) :
    outcome = .done .back := by
  unfold settle settleAnswer settleBack at h
  grind

/-- **How a visit lets a run go on.** Its answer was accepted, or refused, or the user went back to
an earlier field. -/
theorem settled_eq_goesOn {v : Visit} {w : Session} (h : v.settled o form = (.goesOn r', w)) :
    (∃ j, v.accepted? = some j ∧ v.run.accept v.place v.field.path j = .ok r') ∨
    (∃ j message, v.accepted? = none ∧ r' = v.run.reject v.place j message) ∨
    ∃ earlier, v.accepted? = none ∧ v.run.landing? v.place = some earlier ∧
      v.run.goBack o.policy form earlier
        (((form.fields[earlier]?).map Field.path).getD .root) = .ok r' := by
  rcases settle_eq_goesOn h with
    ⟨answer, j, w₁, hout, henc, ⟨hweigh, haccept⟩ | ⟨message, hweigh, rfl⟩⟩ |
      ⟨hout, earlier, hlanding, hback⟩
  · exact Or.inl ⟨j, by simp [Visit.accepted?, hout, henc, hweigh], haccept⟩
  · exact Or.inr (Or.inl ⟨j, message, by simp [Visit.accepted?, hout, henc, hweigh], rfl⟩)
  · exact Or.inr (Or.inr ⟨earlier, by simp [Visit.accepted?, hout], hlanding, hback⟩)

end Run

end Interview
