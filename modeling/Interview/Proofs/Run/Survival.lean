import Mathlib
import Interview.Proofs.Run.Recollection
import Interview.Proofs.Run.ForwardPass
/-
What a form was started with survives every visit.

A form may be started with a draft that is filled in part, and a form inside it is started with the
part that the draft has at its path. The user may go back out of the inner form, into it and past
it, and each time it is started afresh. Then two things could go wrong. Something that the start
had could be lost or asked for, and an answer of an earlier visit could come in as if the start had
it. Neither happens.

The second is the point at which the draft and the answers to offer again come apart: a field that
is open has in the draft what the start has there, whatever was answered before. So every run of an
inner form starts with what the outermost start has for it, and all that is said of one run holds
of the runs inside it as well, at any depth.
-/

set_option autoImplicit false

namespace Interview

/-! ## Drafts that keep the start -/

/-- **A draft that keeps the start.** Some fields have been answered, each with a given answer. The
others have what the start has, and so have all paths that no field overlaps. -/
structure Form.Keeps (form : Form) (initial : Draft) (answer : Nat → Option Json)
    (places : List Nat) (d : Draft) : Prop where
  elsewhere : ∀ q : Path, (∀ f ∈ form.fields, f.path.overlaps q = false) →
    d.members.at? q.segments = initial.members.at? q.segments
  untouched : ∀ j f, form.fields[j]? = some f → j ∉ places →
    d.members.at? f.path.segments = initial.members.at? f.path.segments
  answered : ∀ j f, form.fields[j]? = some f → j ∈ places →
    ∃ v, answer j = some v ∧ d.members.at? f.path.segments = some v

namespace Form.Keeps

variable {form : Form} {initial d d' : Draft} {answer answer' : Nat → Option Json}
variable {places places' : List Nat} {k : Nat} {f : Field} {v : Json}

/-- Only the answers for the answered fields count. -/
theorem congr (h : form.Keeps initial answer places d)
    (hanswer : ∀ j ∈ places, answer' j = answer j) : form.Keeps initial answer' places d where
  elsewhere := h.elsewhere
  untouched := h.untouched
  answered := by
    intro j f hf hj
    rw [hanswer j hj]
    exact h.answered j f hf hj

/-- One more answer is stored. -/
theorem set (hform : form.Separate) (h : form.Keeps initial answer places d)
    (hf : form.fields[k]? = some f) (hset : d.set f.path v = .ok d') (hk : answer k = some v) :
    form.Keeps initial answer (places ++ [k]) d' where
  elsewhere := by
    intro q hq
    have hapart := Path.apart_of_overlaps (hq f (List.mem_of_getElem? hf))
    rw [Draft.at?_set_of_apart hapart hset]
    exact h.elsewhere q hq
  untouched := by
    intro j g hg hj
    have hkj : k ≠ j := by
      rintro rfl
      exact hj List.mem_concat_self
    rw [Draft.at?_set_of_apart (hform.apart hf hg hkj) hset]
    exact h.untouched j g hg fun hmem => hj (List.mem_append_left _ hmem)
  answered := by
    intro j g hg hj
    by_cases hkj : k = j
    · subst hkj
      rw [hf, Option.some.injEq] at hg
      exact ⟨v, hk, hg ▸ Draft.at?_set_self hset⟩
    · rw [Draft.at?_set_of_apart (hform.apart hf hg hkj) hset]
      rcases List.mem_append.mp hj with hj | hj
      · exact h.answered j g hg hj
      · exact absurd (List.mem_singleton.mp hj).symm hkj

/-- One answer is taken back, if there was one. -/
theorem reset (hform : form.Separate) (hinitial : form.CanStart initial)
    (h : form.Keeps initial answer places d) (hf : form.fields[k]? = some f)
    (hreset : Run.reset initial f.path d = .ok d')
    (hplaces : ∀ j, j ∈ places' ↔ j ∈ places ∧ j ≠ k) :
    form.Keeps initial answer places' d' where
  elsewhere := by
    intro q hq
    have hapart := Path.apart_of_overlaps (hq f (List.mem_of_getElem? hf))
    rw [Run.at?_reset_of_apart hapart hreset]
    exact h.elsewhere q hq
  untouched := by
    intro j g hg hj
    by_cases hkj : k = j
    · -- the field itself has what the start has again
      subst hkj
      rw [hf, Option.some.injEq] at hg
      exact hg ▸ Draft.at?_reset_self (hinitial.not_null f (List.mem_of_getElem? hf)) hreset
    · rw [Run.at?_reset_of_apart (hform.apart hf hg hkj) hreset]
      exact h.untouched j g hg fun hmem => hj ((hplaces j).mpr ⟨hmem, Ne.symm hkj⟩)
  answered := by
    intro j g hg hj
    obtain ⟨hmem, hjk⟩ := (hplaces j).mp hj
    rw [Run.at?_reset_of_apart (hform.apart hf hg hjk.symm) hreset]
    exact h.answered j g hg hmem

end Form.Keeps

/-! ## Runs that keep the start -/

/-- A field that can be left out: for some draft it has nothing to ask. -/
def Field.CanDecline (f : Field) (o : Options) : Prop :=
  ∃ d a, f.declines o d a = true

/-- The field of a form is never left out. -/
theorem Form.not_canDecline_asField (path : Path) (inner : Form) (o : Options) :
    ¬(asField path inner).CanDecline o := by
  rintro ⟨d, a, h⟩
  rw [declines_asField] at h
  exact absurd h (by simp)

namespace Run

variable {form : Form} {initial : Draft} {o : Options} {r r' : Run} {vs : List Visit} {k : Nat}

/-- What was left out is what can be. -/
def SkipsProperly (r : Run) (o : Options) (form : Form) : Prop :=
  ∀ j ∈ r.skipped, ∃ f, form.fields[j]? = some f ∧ f.CanDecline o

/-- **A run in order that keeps the start**, with the last answers of its visits. -/
structure KeepsStart (o : Options) (form : Form) (initial : Draft) (vs : List Visit) (r : Run)
    (frontier : Nat) : Prop where
  order : r.InOrder form initial frontier
  draft : form.Keeps initial (lastAnswer? vs) r.history r.draft
  skipped : r.SkipsProperly o form

theorem KeepsStart.start {recent : Draft} (h : Run.start form initial recent = .ok r) :
    r.KeepsStart o form initial [] 0 := by
  have horder := InOrder.start h
  rw [start_eq_ok h] at horder ⊢
  refine ⟨horder, ⟨fun _ _ => rfl, fun _ _ _ _ => rfl, ?_⟩, ?_⟩
  · exact fun _ _ _ hj => absurd hj List.not_mem_nil
  · exact fun _ hj => absurd hj List.not_mem_nil

/-- A search leaves out fields that can be left out. -/
theorem SkipsProperly.seek (h : r.SkipsProperly o form) :
    FoundWith o form (fun _ r => r.SkipsProperly o form) (r.seek o form).2.1
      (r.seek o form).2.2 := by
  refine seek_keeps (fun _ _ _ hr => hr) (fun _ _ _ _ hr _ => hr) ?_ h
  intro i f r a hf hr _ hdeclines j hj
  rcases List.mem_cons.mp hj with rfl | hj
  · exact ⟨f, hf, r.draft, a, hdeclines⟩
  · exact hr j hj

/-- A search keeps the start. -/
theorem KeepsStart.seek (h : r.KeepsStart o form initial vs k) :
    FoundWith o form (fun i r => ∃ k, i ≤ k ∧ r.KeepsStart o form initial vs k)
      (r.seek o form).2.1 (r.seek o form).2.2 := by
  have horder := h.order.seek (o := o) (J := fun _ hs d => form.Keeps initial (lastAnswer? vs) hs d)
    h.draft (fun _ _ _ _ _ _ hd => hd) (fun _ _ _ _ _ _ _ _ hd => hd)
  have hskips := h.skipped.seek
  rcases hseek : r.seek o form with ⟨entries, r', _ | e | ⟨i, f, attempt, make⟩⟩
  · rw [hseek] at horder hskips
    obtain ⟨k, hk, hr, hd⟩ := horder
    exact ⟨k, hk, hr, hd, hskips⟩
  · trivial
  · rw [hseek] at horder hskips
    obtain ⟨hf, ⟨k, hk, hr, hd⟩, hrest⟩ := horder
    exact ⟨hf, ⟨k, hk, hr, hd, hskips.2.1⟩, hrest⟩

/-- The step of a visit is shown in a run that keeps the start. -/
theorem KeepsStart.shows (h : r.KeepsStart o form initial vs k) {v : Visit}
    (hv : r.Shows o form v) :
    form.fields[v.place]? = some v.field ∧ v.run.isClosed v.place v.field = false ∧
      v.run.KeepsStart o form initial vs v.place := by
  obtain ⟨hf, horder, hopen⟩ := h.order.shows hv
  obtain ⟨entries, make, hseek⟩ := hv
  have hfound := h.seek
  rw [hseek] at hfound
  obtain ⟨-, ⟨k, -, hr⟩, -⟩ := hfound
  exact ⟨hf, hopen, horder, hr.draft, hr.skipped⟩

/-- The field at the frontier of a run has what the start has there. -/
theorem KeepsStart.at?_frontier (h : r.KeepsStart o form initial vs k) {f : Field}
    (hf : form.fields[k]? = some f) :
    r.draft.members.at? f.path.segments = initial.members.at? f.path.segments := by
  refine h.draft.untouched k f hf fun hmem => ?_
  have := h.order.history_lt k hmem
  omega

/-- **What every visit keeps**, when it lets the run go on. -/
theorem KeepsStart.next (hform : form.Separate) (hinitial : form.CanStart initial)
    (h : r.KeepsStart o form initial vs k) {v : Visit} (hv : r.Shows o form v) {w : Session}
    (hgoes : v.settled o form = (.goesOn r', w)) :
    ∃ k', r'.KeepsStart o form initial (vs ++ [v]) k' := by
  obtain ⟨hf, hopen, hr⟩ := h.shows hv
  -- what was answered before the frontier stays the last answer
  have hearlier : form.Keeps initial (lastAnswer? (vs ++ [v])) v.run.history v.run.draft := by
    refine hr.draft.congr fun j hj => lastAnswer?_append fun hplace => ?_
    have := hr.order.history_lt j hj
    omega
  rcases settled_eq_goesOn hgoes with ⟨j, hj, haccept⟩ | ⟨j, message, -, rfl⟩ |
    ⟨e, -, hlanding, hback⟩
  · have horder := hr.order.accept hform hf hopen haccept
    obtain ⟨draft, recent, hset, -, rfl⟩ := accept_eq_ok haccept
    exact ⟨_, horder, hearlier.set hform hf hset (lastAnswer?_of_accepted hj), hr.skipped⟩
  · exact ⟨_, hr.order.reject j message v.place, hearlier, hr.skipped⟩
  · rw [landing?_eq_getLast? hr.order.history_lt] at hlanding
    obtain ⟨hs, g, hsplit, hg, htarget⟩ := hr.order.exists_landing hf hlanding
    rw [htarget] at hback
    have hlt := hr.order.lt_last hsplit
    -- the first reset takes the last answer back, and the later ones find none to take back
    obtain ⟨draft, recent, hok, horder, hd, -⟩ := hr.order.goBack (Q := fun _ => True)
      (P := form.Keeps initial (lastAnswer? (vs ++ [v])) hs) hform hsplit o.policy hg
      (fun d hreset => by
        refine hearlier.reset hform hinitial hg hreset fun i => ?_
        rw [hsplit, List.mem_append, List.mem_singleton]
        constructor
        · intro hi
          have := hlt i hi
          exact ⟨Or.inl hi, by omega⟩
        · exact fun ⟨hi, hie⟩ => hi.resolve_right hie)
      (fun i f' d d' hi hf' _ hd hreset => by
        refine hd.reset hform hinitial hf' hreset fun j => ?_
        constructor
        · intro hj
          have := hlt j hj
          exact ⟨hj, by omega⟩
        · exact And.left)
      (fun _ _ _ _ _ => id) trivial
    rw [hback, Except.ok.injEq] at hok
    subst hok
    exact ⟨e, horder, hd, fun i hi => hr.skipped i (List.mem_filter.mp hi).1⟩

/-- **Every run that a start leads to keeps the start.** The induction is on the visits. -/
theorem Leads.keepsStart (hform : form.Separate) (hinitial : form.CanStart initial) {first : Run}
    {recent : Draft} (hstart : Run.start form initial recent = .ok first)
    (h : Leads o form first vs r) : ∃ k, r.KeepsStart o form initial vs k := by
  induction h with
  | start => exact ⟨0, .start hstart⟩
  | next before hshows hgoes ih =>
      obtain ⟨k, hr⟩ := ih
      exact hr.next hform hinitial hshows hgoes

end Run

/-! ## Completed runs, and the runs inside them -/

/-- A form that was run from a start until it was completed. -/
structure Completion (o : Options) where
  bound : Nat
  form : Form
  initial : Draft
  recent : Draft
  session : Session
  /-- The draft that it was completed with. -/
  final : Draft
  completed : (conductForm bound form o initial recent session).1 = .done (.completed final)

/-- What is accepted at the field of a form is what the form came to. -/
theorem Visit.outcome_eq_of_accepted {v : Visit} {path : Path} {inner : Form} {j : Json}
    (hfield : v.field = Form.asField path inner) (h : v.accepted? = some j) :
    v.outcome = .done (.value j) := by
  unfold Visit.accepted? at h
  split at h
  · rename_i answer hout
    rw [hfield] at h
    split at h
    · rename_i j' henc
      obtain rfl : answer = j' := Except.ok.inj henc
      split at h
      · rw [hout, Option.some.inj h]
      · exact absurd h (by simp)
    · exact absurd h (by simp)
  · exact absurd h (by simp)

namespace Completion

variable {o : Options} {c c' : Completion o}

/-- The visits of the run, in order. -/
def visits (c : Completion o) : List Visit :=
  c.form.visits c.bound o c.initial c.recent c.session

/-- All that happened in the run. -/
def account (c : Completion o) : Account :=
  Form.account c.bound [] c.form o c.initial c.recent c.session

/-- **The run that the object at the field of a form comes from.** It was run at the last visit of
the field that brought an accepted answer, it was started with what the outer start has there, and
what it was completed with is what the outer form was completed with at its path. -/
structure Stores (c : Completion o) (i : Nat) (c' : Completion o) : Prop where
  field : ∃ path, c.form.fields[i]? = some (Form.asField path c'.form) ∧
    c.initial.startAt path = .ok c'.initial ∧
    c.final.members.at? path.segments = some c'.final.toJson
  visit : ∃ v, lastAccepted? c.visits i = some v ∧
    v.Asks o c.form (c'.bound + 1) (.nested c'.form c'.initial c'.recent o) c'.session

/-- **What a completed run has of its start and of its answers.** Paths that no field overlaps and
fields that the start fills have what the start has. Every other field has what the start has or
what was last accepted for it in this run, and if it is the field of a form, then what is there was
stored by a run of that form. -/
structure Survives (c : Completion o) : Prop where
  elsewhere : ∀ q : Path, (∀ f ∈ c.form.fields, f.path.overlaps q = false) →
    c.final.members.at? q.segments = c.initial.members.at? q.segments
  filled : ∀ f ∈ c.form.fields, f.isFilled c.initial = true →
    c.final.members.at? f.path.segments = c.initial.members.at? f.path.segments
  unfilled : ∀ i f, c.form.fields[i]? = some f → f.isFilled c.initial = false →
    c.final.members.at? f.path.segments = c.initial.members.at? f.path.segments ∨
      ∃ v, lastAnswer? c.visits i = some v ∧ c.final.members.at? f.path.segments = some v
  inside : ∀ i path inner, c.form.fields[i]? = some (Form.asField path inner) →
    (Form.asField path inner).isFilled c.initial = false → ∃ c', c.Stores i c'

/-- What is accepted at the field of a form is what a run of the form was completed with. -/
theorem exists_stores (hform : c.form.Separate)
    (hinitial : c.form.CanStart c.initial) {i : Nat} {path : Path} {inner : Form}
    (hf : c.form.fields[i]? = some (Form.asField path inner)) {j : Json}
    (hlast : lastAnswer? c.visits i = some j)
    (hfinal : c.final.members.at? path.segments = some j) : ∃ c', c.Stores i c' := by
  obtain ⟨v, hmem, hv, rfl, hj⟩ := exists_of_lastAnswer?_eq_some hlast
  obtain ⟨first, r, before, hstart, hleads, hshows⟩ := Form.leads_of_mem_visits hmem
  obtain ⟨k, hr⟩ := hleads.keepsStart hform hinitial hstart
  obtain ⟨hfield, -, hrun⟩ := hr.shows hshows
  obtain hsame : Form.asField path inner = v.field := Option.some.inj (hf.symm.trans hfield)
  obtain ⟨m, q, w, hasks⟩ := Form.exists_asks hmem
  obtain ⟨make, w₀, hoffer, hpresent, hout⟩ := hasks
  rw [← hsame] at hoffer hpresent
  obtain ⟨s, hs, rfl⟩ := Form.offer_asField_eq_ask hoffer
  have hask : q = .nested inner s (Draft.offered v.attempt) o := by
    rw [Run.present_asField] at hpresent
    exact (Prod.mk.inj hpresent).1.symm
  subst hask
  -- the form was started with what the start has here, since nothing was answered here then
  have hs' : c.initial.startAt path = .ok s := by
    rw [← hsame] at hfield
    have hat : v.run.draft.members.at? path.segments = c.initial.members.at? path.segments :=
      hrun.at?_frontier hfield
    exact (Draft.startAt_congr (Draft.get?_eq_of_at?_eq hat)).symm.trans hs
  have hvalue : v.outcome = .done (.value j) := Visit.outcome_eq_of_accepted hsame.symm hj
  rcases m with _ | m
  · rw [hvalue, Question.ask] at hout
    exact absurd hout (by simp)
  · have hreply : (conductForm m inner o s (Draft.offered v.attempt) w).1.map Ending.reply =
        .done (.value j) := by
      rw [← hvalue, hout, Question.ask]
    obtain ⟨d, hd, rfl⟩ := map_reply_eq_value.mp hreply
    refine ⟨⟨m, inner, s, Draft.offered v.attempt, w, d, hd⟩, ⟨path, hf, hs', hfinal⟩, v, hv, ?_⟩
    exact ⟨_, w₀, hsame ▸ hoffer, hsame ▸ hpresent, hout⟩

/-- **A completed run has what its start has**, and its own answers. -/
theorem survives (hform : c.form.Separate) (hinitial : c.form.CanStart c.initial) :
    c.Survives := by
  have hcompleted : conductForm c.bound c.form o c.initial c.recent c.session =
      (.done (.completed c.final), (conductForm c.bound c.form o c.initial c.recent c.session).2) :=
    Prod.ext c.completed rfl
  obtain ⟨first, r, last, entries, hstart, hleads, hseek, hd, -⟩ :=
    Form.leads_of_completed hcompleted
  obtain ⟨k, hr⟩ := hleads.keepsStart hform hinitial hstart
  have hfound := hr.seek
  rw [hseek] at hfound
  obtain ⟨k, hk, hlast⟩ := hfound
  have hdraft : c.form.Keeps c.initial (lastAnswer? c.visits) last.history c.final :=
    hd ▸ hlast.draft
  refine ⟨hdraft.elsewhere, fun f hf hfilled => ?_, fun i f hf hopen => ?_,
    fun i path inner hf hopen => ?_⟩
  · obtain ⟨i, hi⟩ := List.mem_iff_getElem?.mp hf
    refine hdraft.untouched i f hi fun hmem => ?_
    exact (hlast.order.history_new i hmem).1 ((hlast.order.mem_assumed i).mpr ⟨f, hi, hfilled⟩)
  · by_cases hmem : i ∈ last.history
    · exact Or.inr (hdraft.answered i f hf hmem)
    · exact Or.inl (hdraft.untouched i f hf hmem)
  · obtain ⟨hi, -⟩ := List.getElem?_eq_some_iff.mp hf
    have hmem : i ∈ last.history := by
      rcases hlast.order.covered i (by omega) with hassumed | hmem | hskipped
      · obtain ⟨f, hf', hfilled⟩ := (hlast.order.mem_assumed i).mp hassumed
        rw [hf, Option.some.injEq] at hf'
        rw [← hf', hopen] at hfilled
        exact absurd hfilled (by simp)
      · exact hmem
      · -- a form is never left out
        obtain ⟨f, hf', hdeclines⟩ := hlast.skipped i hskipped
        rw [hf, Option.some.injEq] at hf'
        exact absurd (hf' ▸ hdeclines) (Form.not_canDecline_asField path inner o)
    obtain ⟨j, hj, hat⟩ := hdraft.answered i _ hf hmem
    exact c.exists_stores hform hinitial hf hj hat

/-- A run whose result is part of another: the run itself, or one that stored an object at the field
of a form in such a run. -/
inductive Within : Completion o → Completion o → Prop
  | self (c : Completion o) : Within c c
  | inside {c c' c'' : Completion o} {i : Nat} (stores : c.Stores i c') (within : Within c' c'') :
    Within c c''

end Completion

/-! ## What the start fills is not asked for -/

/-- The paths of the form are separate, and so are those of every form inside it. What the other
fields ask does not matter. -/
inductive Form.DeeplySeparate : Form → Prop
  | of {form : Form} (own : form.Separate)
    (inside : ∀ path inner, asField path inner ∈ form.fields → inner.DeeplySeparate) :
    DeeplySeparate form

theorem Form.DeeplySeparate.own {form : Form} (h : form.DeeplySeparate) : form.Separate := by
  obtain ⟨hown, -⟩ := h
  exact hown

theorem Form.DeeplySeparate.inside {form inner : Form} {path : Path} (h : form.DeeplySeparate)
    (hf : asField path inner ∈ form.fields) : inner.DeeplySeparate := by
  obtain ⟨-, hinside⟩ := h
  exact hinside path inner hf

theorem Form.Throughout.deeplySeparate {form : Form} {L : Field → Prop}
    (h : form.Throughout Form.Separate L) : form.DeeplySeparate := by
  induction h with
  | of own fields inside ih => exact .of own ih

/-- **The start fills the field at an address**: a field of the form itself, or one of a form inside
it, which is started with what the start has at its path. -/
inductive Form.FilledAt : Form → Draft → List Nat → Prop
  | here {form : Form} {initial : Draft} {i : Nat} {f : Field} (field : form.fields[i]? = some f)
    (filled : f.isFilled initial = true) : FilledAt form initial [i]
  | inside {form : Form} {initial : Draft} {i : Nat} {path : Path} {inner : Form} {s : Draft}
    {rest : List Nat} (field : form.fields[i]? = some (Form.asField path inner))
    (start : initial.startAt path = .ok s) (filled : FilledAt inner s rest) :
    FilledAt form initial (i :: rest)

/-- Nothing in the account is about a field that the start fills. All of it is about fields under an
address. -/
def Account.Spares (acc : Account) (a : List Nat) (form : Form) (initial : Draft) : Prop :=
  ∀ e ∈ acc, ∀ b, e.address? = some b → ∃ rest, b = a ++ rest ∧ ¬form.FilledAt initial rest

namespace Account.Spares

variable {acc acc' : Account} {a : List Nat} {form : Form} {initial : Draft}

theorem append (h : acc.Spares a form initial) (h' : acc'.Spares a form initial) :
    (acc ++ acc').Spares a form initial := by
  intro e he
  rcases List.mem_append.mp he with he | he
  · exact h e he
  · exact h' e he

theorem nil : Account.Spares [] a form initial :=
  fun _ he => absurd he List.not_mem_nil

/-- What the observer is told is about no field. -/
theorem ofEntries (es : List Entry) : (Account.ofEntries es).Spares a form initial := by
  intro e he b hb
  obtain ⟨entry, -, rfl⟩ := List.mem_map.mp he
  exact absurd hb (by simp [Episode.address?])

/-- One more thing, about a field of the form that the start does not fill. -/
theorem cons {e : Episode} {i : Nat} (he : e.address? = some (a ++ [i]))
    (hi : ¬form.FilledAt initial [i]) (h : acc.Spares a form initial) :
    Account.Spares (e :: acc) a form initial := by
  intro e' he' b hb
  rcases List.mem_cons.mp he' with rfl | he'
  · rw [he, Option.some.injEq] at hb
    exact ⟨[i], hb.symm, hi⟩
  · exact h e' he' b hb

end Account.Spares

namespace Form

variable {form : Form} {initial : Draft} {i : Nat} {f : Field}

/-- An open field is not filled by the start. -/
theorem not_filledAt_singleton (hf : form.fields[i]? = some f)
    (hopen : f.isFilled initial = false) : ¬form.FilledAt initial [i] := by
  intro h
  cases h with
  | here hg hfilled =>
      rw [hf, Option.some.injEq] at hg
      rw [← hg, hopen] at hfilled
      exact absurd hfilled (by simp)
  | inside _ _ hinner => nomatch hinner

/-- Under an open field that is no form, nothing is filled by the start. -/
theorem not_filledAt_of_no_form (hf : form.fields[i]? = some f)
    (hopen : f.isFilled initial = false) (hnone : ∀ path inner, f ≠ asField path inner)
    (rest : List Nat) : ¬form.FilledAt initial (i :: rest) := by
  intro h
  cases h with
  | here hg hfilled => exact not_filledAt_singleton hf hopen (.here hg hfilled)
  | inside hg _ _ =>
      rw [hf, Option.some.injEq] at hg
      exact hnone _ _ hg

/-- What is not filled in an open inner form is not filled in the form around it. -/
theorem not_filledAt_cons {path : Path} {inner : Form} {s : Draft} {rest : List Nat}
    (hf : form.fields[i]? = some (asField path inner))
    (hopen : (asField path inner).isFilled initial = false) (hs : initial.startAt path = .ok s)
    (hrest : ¬inner.FilledAt s rest) : ¬form.FilledAt initial (i :: rest) := by
  intro h
  cases h with
  | here hg hfilled => exact not_filledAt_singleton hf hopen (.here hg hfilled)
  | inside hg hs' hinner =>
      rw [hf, Option.some.injEq] at hg
      obtain ⟨rfl, rfl⟩ := asField_inj hg
      rw [hs, Except.ok.injEq] at hs'
      exact hrest (hs' ▸ hinner)

end Form

variable {form : Form} {initial : Draft} {o : Options} {r r' : Run} {k : Nat} {a : List Nat}

namespace Run

/-- What is said of runs in the induction: they do not ask for what the start fills. -/
def AsksOpen (n : Nat) : Prop :=
  ∀ {a : List Nat} {form : Form} {initial : Draft} {o : Options} {r : Run} {k : Nat} {w : Session},
    form.DeeplySeparate → r.InOrder form initial k → (r.account n a form o w).Spares a form initial

end Run

/-- A form that is run from the start does not ask for what the start fills. -/
theorem Form.spares_of_asksOpen {n : Nat} (ih : ∀ m < n, Run.AsksOpen m) {recent : Draft}
    {w : Session} (hform : form.DeeplySeparate) :
    (Form.account n a form o initial recent w).Spares a form initial := by
  rcases n with _ | n
  · exact .nil
  · rw [Form.account]
    rcases hstart : Run.start form initial recent with e | first
    · exact .nil
    · exact ih n (Nat.lt_succ_self n) hform (Run.InOrder.start hstart)

namespace Run

/-- The question of an open field does not ask for what the start fills. -/
theorem InOrder.spares {n : Nat} (ih : ∀ m < n, AsksOpen m) (hform : form.DeeplySeparate)
    (h : r.InOrder form initial k) {f : Field} (hf : form.fields[k]? = some f)
    (hopen : f.isFilled initial = false) {attempt : Option (Attempt Json)}
    {make : Session → Question × Session} {q : Question} {w w₁ : Session}
    (hoffer : f.offer ⟨f.path, r.draft, attempt, o⟩ = .ask make)
    (hpresent : r.present o form k f attempt make w = (q, w₁)) :
    (q.account n (a ++ [k]) w₁).Spares a form initial := by
  by_cases hnested : ∃ path inner, f = Form.asField path inner
  · obtain ⟨path, inner, rfl⟩ := hnested
    obtain ⟨s, hs, rfl⟩ := Form.offer_asField_eq_ask hoffer
    rw [present_asField, Prod.mk.injEq] at hpresent
    obtain ⟨rfl, rfl⟩ := hpresent
    rcases n with _ | n
    · exact .nil
    have hread : r.draft.get? path = initial.get? path := by
      refine h.answered.kept k _ hf fun hmem => ?_
      have := h.history_lt k hmem
      omega
    have hstart : initial.startAt path = .ok s := (Draft.startAt_congr hread).symm.trans hs
    have hinner := hform.inside (List.mem_of_getElem? hf)
    rw [Question.account]
    refine .append ?_ (.cons rfl (Form.not_filledAt_singleton hf hopen) .nil)
    intro e he b hb
    obtain ⟨rest, rfl, hrest⟩ :=
      Form.spares_of_asksOpen (fun m hm => ih m (Nat.lt_succ_of_lt hm)) hinner e he b hb
    exact ⟨k :: rest, by simp, Form.not_filledAt_cons hf hopen hstart hrest⟩
  · -- what else is asked there is under the field
    intro e he b hb
    obtain ⟨rest, rfl⟩ := q.under_account (fun m _ => Run.staysUnder m) (a ++ [k]) w₁ e he b hb
    refine ⟨k :: rest, by simp, Form.not_filledAt_of_no_form hf hopen (fun path inner heq => ?_) _⟩
    exact hnested ⟨path, inner, heq⟩

/-- One turn of a run does not ask for what the start fills. -/
theorem Turn.spares {n : Nat} (ih : ∀ m ≤ n, AsksOpen m) (hform : form.DeeplySeparate)
    (hr : r.InOrder form initial k) {acc : Account} {out : Outcome Ending} (h : r.Turn n a form o acc out) : acc.Spares a form initial := by
  cases h with
  | failed sought => exact .ofEntries _
  | finished sought => exact .append (.ofEntries _) (.ofEntries _)
  | @step entries run place f attempt make q w w₁ w₂ w₃ course sought presented settled =>
      obtain ⟨hf, horder, hopen⟩ :=
        hr.shows (v := ⟨run, place, f, attempt, (q.ask n w₁).1, w₂⟩) ⟨entries, make, sought⟩
      have hunfilled := horder.isFilled_initial hf (horder.not_mem_of_isOpen hf hopen).1
      have hshown : (run.announced a o form place f.path).Spares a form initial :=
        .cons rfl (Form.not_filledAt_singleton hf hunfilled) (.ofEntries _)
      have hasked := horder.spares (a := a) (fun m hm => ih m (Nat.le_of_lt hm)) hform hf hunfilled
        (offer_of_seek_eq sought).2 presented
      refine .append (.ofEntries _) (.append (.append hshown hasked) (.append (.ofEntries _) ?_))
      rcases course with e | r'
      · exact .nil
      · obtain ⟨k', hr'⟩ := horder.of_goesOn
          (v := ⟨run, place, f, attempt, (q.ask n w₁).1, w₂⟩) hform.own hf hopen settled
        exact ih n (Nat.le_refl n) hform hr'

/-- **No run asks for what the start fills**, in whatever run inside it. The induction is on the
bound, over the turns of the run and the runs inside it. -/
theorem asksOpen (n : Nat) : AsksOpen n := by
  induction n using Nat.strong_induction_on with
  | _ n ih =>
    intro a form initial o r k w hform hr
    rcases n with _ | n
    · exact .nil
    · exact (r.turn n a form o w).spares (fun m hm => ih m (Nat.lt_succ_of_le hm)) hform hr

end Run

namespace Completion

variable {o : Options} {c c' : Completion o}

/-- The runs inside a run have forms and starts like it. -/
theorem Stores.sound {i : Nat} (h : c.Stores i c') (hform : c.form.DeeplySeparate)
    (hinitial : c.initial.Plain) : c'.form.DeeplySeparate ∧ c'.initial.Plain := by
  obtain ⟨⟨path, hf, hstart, -⟩, -⟩ := h
  exact ⟨hform.inside (List.mem_of_getElem? hf), Draft.plain_of_startAt hinitial.ordered hstart⟩

/-- **What a form was started with survives every visit.** In a run that was completed, no field
that the start fills was asked for, in whatever run inside it. The final draft has what the start
has, apart from the last answers of this run; and where it has the object of an inner form, the same
holds of the run that this object comes from, so at any depth. -/
theorem survives_of_within (hform : c.form.DeeplySeparate) (hinitial : c.initial.Plain) :
    (∀ e ∈ c.account, ∀ a, e.address? = some a → ¬c.form.FilledAt c.initial a) ∧
      ∀ c', c.Within c' → c'.Survives := by
  constructor
  · intro e he a ha
    obtain ⟨rest, rfl, hrest⟩ :=
      Form.spares_of_asksOpen (fun m _ => Run.asksOpen m) hform e he a ha
    exact hrest
  · intro c' h
    induction h with
    | self c => exact c.survives hform.own (hinitial.canStart c.form)
    | inside hstores _ ih =>
        obtain ⟨hform', hinitial'⟩ := hstores.sound hform hinitial
        exact ih hform' hinitial'

end Completion

/-- The excursion as it goes, from the start that has the handler. -/
def Completion.excursion : Completion .default where
  bound := 12
  form := .excursion
  initial := .excursion
  recent := .empty
  session := .excursion
  final := ⟨[("name", .text "second"), ("runtime", .text "java"),
    ("target", .object [("handler", .text "main"), ("kind", .text "code")])]⟩
  completed := by cbv

example : Completion.excursion.visits.map Visit.place = [0, 1, 2, 1, 0, 1, 2] := by
  decide +kernel

/-- On the excursion the handler is in the draft from the start, and is not asked for, although the
user goes back into the target and out of it. It ends up in the object of the target, beside the kind
that was given last. -/
theorem survives_of_excursion :
    Form.excursion.DeeplySeparate ∧ Draft.excursion.Plain ∧
    Form.excursion.FilledAt .excursion [1, 1] ∧
    (∀ e ∈ Completion.excursion.account, ∀ a, e.address? = some a →
      ¬Form.excursion.FilledAt .excursion a) ∧
    ∃ c', Completion.excursion.Stores 1 c' ∧ c'.Survives := by
  have hthroughout : Form.excursion.Throughout Form.Separate fun _ => True :=
    Form.throughout_excursion fun _ _ _ => trivial
  have hform := hthroughout.deeplySeparate
  obtain ⟨hasks, hsurvives⟩ :=
    Completion.survives_of_within (c := .excursion) hform Draft.plain_excursion
  obtain ⟨c', hstores⟩ := (hsurvives _ (.self _)).inside 1 (.ofText "target") .target rfl (by cbv)
  have hfilled : Form.target.FilledAt ⟨[("handler", .text "main")]⟩ [1] := .here rfl (by cbv)
  exact ⟨hform, Draft.plain_excursion, .inside rfl (by cbv) hfilled, hasks, c', hstores,
    hsurvives c' (.inside hstores (.self c'))⟩

end Interview
