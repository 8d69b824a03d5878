import Interview.Proofs.Run.Inner
/-
Recollections: the answers to offer again.

Besides its draft a run keeps the answers to offer again, and these are a draft too. Every accepted
answer is written to both, so a value in the second draft that stands in the way of an answer would
end the run, although nothing is wrong with the answer itself. This file shows that there is never
such a value: what can be written to the draft can be written to the answers to offer again.

For the fields of one form this is plain, since only their own answers are stored. But an inner form
is offered what an earlier run of it came to, and that has everything in it that the inner form was
started with. So the answers to offer again are compared with the start: whatever is free there is
free in them (`Form.Recalls`), and what they hold at the field of an inner form stands in the same
relation to what that form starts with. The draft itself stands in this relation to the start at
all times, so that a form that completes leaves an answer that it can be offered again.
-/

set_option autoImplicit false

namespace Interview

/-! ## What can be offered again -/

/-- **A draft that the form can be offered again** when it is run from this start: what is free at
the start is free in it, and what it has at the field of an inner form can be offered to that. -/
inductive Form.Recalls : Form → Draft → Draft → Prop
  | of {form : Form} {initial d : Draft}
    (free : ∀ f ∈ form.fields, initial.Admits f.path → d.Admits f.path)
    (inside : ∀ path inner v s s', Form.asField path inner ∈ form.fields →
      d.get? path = some v → Draft.ofJson? v = .ok s' → initial.startAt path = .ok s →
        Form.Recalls inner s s') : Form.Recalls form initial d

/-- An answer that the field can be offered again. Only forms ask for something here. -/
def Field.Recalls (f : Field) (initial : Draft) (v : Json) : Prop :=
  ∀ path inner s s', f = Form.asField path inner → Draft.ofJson? v = .ok s' →
    initial.startAt path = .ok s → inner.Recalls s s'

/-- Every answer of a leaf can be offered again. -/
theorem Field.IsLeaf.recalls {f : Field} (h : f.IsLeaf) (initial : Draft) (v : Json) :
    f.Recalls initial v := by
  rintro path inner s s' rfl
  exact absurd h (Form.not_isLeaf_asField path inner)

namespace Form.Recalls

variable {form : Form} {initial d d' : Draft} {k : Nat} {f : Field} {v : Json}
variable {P : Form → Prop} {L : Field → Prop}

theorem free (h : form.Recalls initial d) (hf : f ∈ form.fields) (hadmits : initial.Admits f.path) :
    d.Admits f.path := by
  obtain ⟨hfree, -⟩ := h
  exact hfree f hf hadmits

/-- What is held at a field can be offered there. -/
theorem field (h : form.Recalls initial d) (hf : f ∈ form.fields) (hv : d.get? f.path = some v) :
    f.Recalls initial v := by
  obtain ⟨-, hinside⟩ := h
  rintro path inner s s' rfl hread hstart
  exact hinside path inner v s s' hf hv hread hstart

/-- The start can be offered. -/
theorem refl (h : form.Throughout P L) (initial : Draft) : form.Recalls initial initial := by
  induction h generalizing initial with
  | of _ _ _ ih =>
      refine .of (fun _ _ hadmits => hadmits) ?_
      intro path inner v s s' hf hv hread hstart
      rw [Draft.startAt, hv] at hstart
      obtain rfl : s' = s := Except.ok.inj (hread.symm.trans hstart)
      exact ih path inner hf s'

/-- Nothing can be offered. -/
theorem empty (hform : form.Separate) (initial : Draft) : form.Recalls initial .empty := by
  refine .of (fun f hf _ => Members.admits_empty ?_) ?_
  · intro hnil
    have hroot := hform.not_root f hf
    rw [Path.isRoot, hnil] at hroot
    exact absurd hroot (by simp)
  · intro path inner v s s' _ hv
    rw [Draft.get?, show Draft.empty.members = [] from rfl, Members.at?_empty] at hv
    exact absurd hv (by simp)

/-- A change at one field that frees no less and leaves something there that can be offered. -/
theorem of_change (hform : form.Separate) (h : form.Recalls initial d)
    (hf : form.fields[k]? = some f)
    (hadmits : ∀ q, d.Admits q → (f.path = q ∨ Apart f.path.segments q.segments) → d'.Admits q)
    (hother : ∀ q : Path, Apart f.path.segments q.segments → d'.get? q = d.get? q)
    (hself : ∀ v, d'.get? f.path = some v → f.Recalls initial v) : form.Recalls initial d' := by
  refine .of ?_ ?_
  · exact hform.forall_path (P := fun q => initial.Admits q → d.Admits q) hf
      (fun g hg => h.free hg) fun q hq hpq hq' => hadmits q (hq hq') hpq
  · intro path inner v s s' hg hv hread hstart
    obtain ⟨j, hj⟩ := List.mem_iff_getElem?.mp hg
    rcases Nat.decEq k j with hkj | rfl
    · -- another field holds what it held before
      rw [hother path (hform.apart hf hj hkj)] at hv
      exact h.field hg hv path inner s s' rfl hread hstart
    · rw [hf, Option.some.injEq] at hj
      subst hj
      exact hself v hv path inner s s' rfl hread hstart

/-- One more answer is stored. -/
theorem set (hform : form.Separate) (h : form.Recalls initial d) (hf : form.fields[k]? = some f)
    (hv : f.Recalls initial v) (hset : d.set f.path v = .ok d') : form.Recalls initial d' := by
  refine h.of_change hform hf (fun _ hq hpq => hq.set hpq hset)
    (fun _ hpq => Draft.get?_eq_of_at?_eq (Draft.at?_set_of_apart hpq hset)) fun v' hv' => ?_
  rw [Draft.get?, Draft.at?_set_self hset] at hv'
  rwa [← Option.some.inj (Option.filter_eq_some_iff.mp hv').1]

/-- An answer is forgotten. -/
theorem remove (hform : form.Separate) (h : form.Recalls initial d)
    (hf : form.fields[k]? = some f) : form.Recalls initial (d.remove f.path).2 := by
  refine h.of_change hform hf (fun _ hq _ => hq.remove)
    (fun _ hpq => Draft.get?_eq_of_at?_eq (Draft.at?_remove_of_apart hpq)) fun v' hv' => ?_
  have hnone : (d.remove f.path).2.members.at? f.path.segments = none :=
    Members.at?_remove_self _ _
  rw [Draft.get?, hnone] at hv'
  exact absurd hv' (by simp)

/-- An answer is taken back. -/
theorem reset (hform : form.Throughout Form.Separate L) (h : form.Recalls initial d)
    (hf : form.fields[k]? = some f) (hreset : Run.reset initial f.path d = .ok d') :
    form.Recalls initial d' := by
  refine h.of_change hform.own hf (fun _ hq hpq => Run.admits_reset hq hpq hreset)
    (fun _ hpq => Draft.get?_eq_of_at?_eq (Run.at?_reset_of_apart hpq hreset)) fun v' hv' => ?_
  rw [Run.get?_reset_self hreset] at hv'
  exact (refl hform initial).field (List.mem_of_getElem? hf) hv'

/-- What can be offered can be offered when it was written out and read again. -/
theorem reread (h : form.Recalls initial d) (hasc : ∀ f ∈ form.fields, d.AscendsAlong f.path)
    (hread : Draft.ofJson? d.toJson = .ok d') : form.Recalls initial d' := by
  have hmembers : d'.members = Json.membersWithoutNulls d.members := by
    rcases Draft.ofJson?_eq_ok hread with ⟨hnull, -⟩ | hread
    · exact absurd hnull (by simp [Draft.toJson])
    · rw [Draft.toJson, Json.withoutNulls?, Option.some.injEq] at hread
      exact (Json.object.inj hread).symm
  refine .of (fun f hf hadmits => ?_) fun path inner v' s s' hf hv' hread' hstart => ?_
  · rw [Draft.Admits, hmembers]
    exact (h.free hf hadmits).withoutNulls (hasc f hf)
  · -- the record at the field of an inner form is the same one, and is only read once more
    have hat := (Option.filter_eq_some_iff.mp hv').1
    have hpath : d.members.AscendsAlong path.segments := hasc _ hf
    rw [hmembers, Members.at?_membersWithoutNulls hpath] at hat
    obtain ⟨v, hv, hnulls⟩ := Option.bind_eq_some_iff.mp hat
    have hget : d.get? path = some v := by
      rw [Draft.get?]
      refine Option.filter_eq_some_iff.mpr ⟨hv, ?_⟩
      cases v with
      | null => simp [Json.withoutNulls?] at hnulls
      | _ => rfl
    have hsame : Draft.ofJson? v = Draft.ofJson? v' := by
      rw [Draft.ofJson?, Draft.ofJson?, hnulls,
        Json.withoutNulls?_of_nullFree (Json.nullFree_of_withoutNulls? hnulls)]
    exact h.field hf hget path inner s s' rfl (hsame.trans hread') hstart

end Form.Recalls

/-! ## Drafts in the middle of a run -/

/-- **A draft that the form can be run from**: its names are in order, and it does not have null in
the place of a field. Null reads as absent, and going back would neither keep it nor put it back. -/
structure Form.CanStart (form : Form) (initial : Draft) : Prop where
  ordered : initial.toJson.Ordered
  not_null : ∀ f ∈ form.fields, initial.members.at? f.path.segments ≠ some .null

/-- Every form can be run from a plain draft, such as any that was read from a record. -/
theorem Draft.Plain.canStart {d : Draft} (h : d.Plain) (form : Form) : form.CanStart d :=
  ⟨h.ordered, fun _ _ => h.at?_ne_null _⟩

/-- A draft with answers at some places. At the other fields it reads as the start. Writing it is no
freer than writing the start, and a form that stops with it can be offered it again. -/
structure Form.Holds (form : Form) (initial : Draft) (places : List Nat) (d : Draft) : Prop where
  ascends : ∀ f ∈ form.fields, d.AscendsAlong f.path
  untouched : ∀ j f, form.fields[j]? = some f → j ∉ places →
    d.members.at? f.path.segments = initial.members.at? f.path.segments
  bound : ∀ f ∈ form.fields, d.Admits f.path → initial.Admits f.path
  recalls : form.Recalls initial d

namespace Form.Holds

variable {form : Form} {initial d d' : Draft} {places places' : List Nat} {k : Nat} {f : Field}
variable {L : Field → Prop}

theorem start (hform : form.Throughout Form.Separate L) (hinitial : form.CanStart initial) :
    form.Holds initial [] initial where
  ascends f _ := Draft.ascendsAlong_of_ordered hinitial.ordered f.path
  untouched _ _ _ _ := rfl
  bound _ _ hadmits := hadmits
  recalls := .refl hform initial

/-- One more answer is stored. -/
theorem set (hform : form.Separate) (h : form.Holds initial places d)
    (hf : form.fields[k]? = some f) {v : Json} (hv : f.Recalls initial v)
    (hset : d.set f.path v = .ok d') : form.Holds initial (places ++ [k]) d' where
  ascends := hform.forall_path hf h.ascends fun _ hq hpq => hq.set hpq hset
  untouched j g hg hj := by
    have hkj : k ≠ j := by
      rintro rfl
      exact hj (List.mem_append_right _ (List.mem_singleton_self k))
    rw [Draft.at?_set_of_apart (hform.apart hf hg hkj) hset]
    exact h.untouched j g hg fun hmem => hj (List.mem_append_left _ hmem)
  bound := hform.forall_path (P := fun q => d.Admits q → initial.Admits q)
    (Q := fun q => d'.Admits q → initial.Admits q) hf h.bound
    fun _ hq hpq hq' => hq (hq'.of_set hpq hset)
  recalls := h.recalls.set hform hf hv hset

/-- An answer is taken back. -/
theorem reset (hform : form.Throughout Form.Separate L) (hinitial : form.CanStart initial)
    (h : form.Holds initial places d) (hf : form.fields[k]? = some f)
    (hreset : Run.reset initial f.path d = .ok d')
    (hplaces : ∀ j, j ∈ places → j ∈ places' ∨ j = k) : form.Holds initial places' d' where
  ascends := hform.own.forall_path hf h.ascends fun _ hq hpq => hq.reset hpq hreset
  untouched j g hg hj := by
    rcases Nat.decEq k j with hkj | rfl
    · rw [Run.at?_reset_of_apart (hform.own.apart hf hg hkj) hreset]
      exact h.untouched j g hg fun hmem => (hplaces j hmem).elim hj (Ne.symm hkj)
    · -- the field itself reads as the start again
      rw [hf, Option.some.injEq] at hg
      exact hg ▸ Draft.at?_reset_self (hinitial.not_null f (List.mem_of_getElem? hf)) hreset
  bound := hform.own.forall_path (P := fun q => d.Admits q → initial.Admits q)
    (Q := fun q => d'.Admits q → initial.Admits q) hf h.bound
    fun _ hq hpq hq' => hq (hq'.of_reset hpq hreset)
  recalls := h.recalls.reset hform hf hreset

/-- A field without an answer is as it was, so resetting it changes nothing. -/
theorem reset_eq (hinitial : form.CanStart initial) (h : form.Holds initial places d)
    (hf : form.fields[k]? = some f) (hk : k ∉ places) : Run.reset initial f.path d = .ok d :=
  have hmem := List.mem_of_getElem? hf
  Draft.reset_of_at?_eq (hinitial.not_null f hmem) (h.ascends f hmem) (h.untouched k f hf hk)

end Form.Holds

namespace Run

variable {form : Form} {initial : Draft} {o : Options} {r r' : Run} {k : Nat} {f : Field}
variable {L : Field → Prop}

/-! ## Searching once more -/

/-- Giving up the refused answer of a place leaves nothing else to give up. -/
theorem retry_withoutRetry {i j : Nat} {a : Attempt Json}
    (h : (r.withoutRetry i).retry = some (j, a)) : r.retry = some (j, a) := by
  unfold withoutRetry at h
  split at h
  · split at h
    · exact absurd h (by simp)
    · exact h
  · exact h

theorem recent_withoutRetry (r : Run) (i : Nat) : (r.withoutRetry i).recent = r.recent := by
  obtain ⟨x, hx⟩ := exists_withoutRetry_eq r i
  rw [hx]

/-- The step that a search comes to offers the answer that was just refused, or else the one to
offer again. The search itself leaves these alone, and the refused answer is given up. -/
theorem attempt_of_seekFrom {fields : List Field} {i place : Nat} {entries : List Entry}
    {attempt : Option (Attempt Json)} {make : Session → Question × Session}
    (h : r.seekFrom o i fields = (entries, r', .step place f attempt make)) :
    r'.recent = r.recent ∧ r'.retry = none ∧
      (attempt = (r.recent.get? f.path).map (fun v => ⟨v, none⟩) ∨
        ∃ a, r.retry = some (place, a)) := by
  induction fields generalizing r i entries with
  | nil => simp [seekFrom] at h
  | cons g rest ih =>
      rw [seekFrom] at h
      split at h
      · exact ih h
      · split at h
        · -- the field does not apply, and the search goes on
          rcases hrest : (r.skip i).seekFrom o (i + 1) rest with ⟨entries', r₂, found⟩
          rw [hrest] at h
          simp only [Prod.mk.injEq] at h
          obtain ⟨-, rfl, rfl⟩ := h
          exact ih (r := r.skip i) hrest
        · rcases hoffer : g.offer ⟨g.path, r.draft, r.attemptAt i g, o⟩ with _ | cause | make'
          · -- there is no question for it, and the search goes on without its refused answer
            simp only [hoffer] at h
            rcases hrest : ((r.withoutRetry i).skip i).seekFrom o (i + 1) rest with
              ⟨entries', r₂, found⟩
            rw [hrest] at h
            simp only [Prod.mk.injEq] at h
            obtain ⟨-, rfl, rfl⟩ := h
            obtain ⟨hrecent, hretry, hattempt⟩ := ih hrest
            have hkept : ((r.withoutRetry i).skip i).recent = r.recent := recent_withoutRetry r i
            rw [hkept] at hrecent hattempt
            exact ⟨hrecent, hretry, hattempt.imp_right fun h => h.imp fun _ => retry_withoutRetry⟩
          · simp [hoffer] at h
          · simp only [hoffer, Prod.mk.injEq, Found.step.injEq] at h
            obtain ⟨-, rfl, rfl, rfl, rfl, -⟩ := h
            refine ⟨recent_withoutRetry r i, rfl, ?_⟩
            unfold attemptAt
            split
            · rename_i j a hretry
              split
              · rename_i hj
                exact Or.inr ⟨a, hj ▸ hretry⟩
              · exact Or.inl rfl
            · exact Or.inl rfl

/-! ## Runs that never fail to remember -/

/-- **A run in order, with a draft and with answers to offer again** that stand to the start as they
should. Only a field with a check can have had an answer refused. -/
structure Recollects (form : Form) (initial : Draft) (r : Run) (frontier : Nat) : Prop where
  order : r.InOrder form initial frontier
  draft : form.Holds initial r.history r.draft
  recent : form.Recalls initial r.recent
  retry : ∀ i a, r.retry = some (i, a) → ∃ f, form.fields[i]? = some f ∧ f.check.isSome = true

theorem Recollects.start {recent : Draft} (hform : form.Throughout Form.Separate L)
    (hinitial : form.CanStart initial) (hrecent : form.Recalls initial recent)
    (h : Run.start form initial recent = .ok r) : r.Recollects form initial 0 := by
  have horder := InOrder.start h
  rw [start_eq_ok h] at horder ⊢
  exact ⟨horder, .start hform hinitial, hrecent, fun _ _ hretry => absurd hretry (by simp)⟩

/-- The step of a search is shown where the run has its frontier. What it offers to an inner form
can be offered to it. -/
theorem Recollects.shows_of_seek (hform : form.Throughout Form.Separate L)
    (h : r.Recollects form initial k) {entries : List Entry} {place : Nat}
    {attempt : Option (Attempt Json)} {make : Session → Question × Session}
    (hseek : r.seek o form = (entries, r', .step place f attempt make)) :
    form.fields[place]? = some f ∧ r'.isClosed place f = false ∧
      r'.Recollects form initial place ∧
      ∀ path inner s, f = Form.asField path inner → initial.startAt path = .ok s →
        inner.Recalls s (Draft.offered attempt) := by
  obtain ⟨hf, horder, hopen, -, hdraft⟩ := h.order.shows_with
    (J := fun _ hs d => form.Holds initial hs d) h.draft (fun _ _ _ _ _ _ hd => hd)
    (fun _ _ _ _ _ _ _ _ hd => hd) (v := ⟨r', place, f, attempt, .exhausted, .new (.rehearsal [])⟩)
    ⟨entries, make, hseek⟩
  obtain ⟨hrecent, hretry, hattempt⟩ := attempt_of_seekFrom hseek
  refine ⟨hf, hopen, ⟨horder, hdraft, hrecent ▸ h.recent, ?_⟩, ?_⟩
  · intro i a ha
    rw [hretry] at ha
    exact absurd ha (by simp)
  · rintro path inner s rfl hstart
    have hmem := List.mem_of_getElem? hf
    have hinner : inner.Throughout Form.Separate L := by
      obtain ⟨-, -, hinside⟩ := hform
      exact hinside path inner hmem
    rcases hattempt with rfl | ⟨a, ha⟩
    · -- what is offered is what was stored at the field
      cases hv : r.recent.get? (Form.asField path inner).path with
      | none => exact .empty hinner.own s
      | some v =>
          rcases Draft.offered_cases ⟨v, none⟩ with ⟨d, hd, hoffered⟩ | hoffered
          · rw [Option.map_some, hoffered]
            exact h.recent.field hmem hv path inner s d rfl hd hstart
          · rw [Option.map_some, hoffered]
            exact .empty hinner.own s
    · -- the field of a form has no check, so none of its answers was refused
      obtain ⟨g, hg, hcheck⟩ := h.retry place a ha
      rw [hf, Option.some.injEq] at hg
      rw [← hg] at hcheck
      exact absurd hcheck (by simp [Form.asField])

/-- An accepted answer can be stored among the answers to offer again as well. -/
theorem Recollects.accept (hform : form.Throughout Form.Separate L)
    (h : r.Recollects form initial k) (hf : form.fields[k]? = some f)
    (hopen : r.isClosed k f = false) {v : Json} (hv : f.Recalls initial v)
    (haccept : r.accept k f.path v = .ok r') : r'.Recollects form initial (k + 1) := by
  have horder := h.order.accept hform.own hf hopen haccept
  obtain ⟨draft, recent, hdraft, hrecent, rfl⟩ := accept_eq_ok haccept
  exact ⟨horder, h.draft.set hform.own hf hv hdraft, h.recent.set hform.own hf hv hrecent, h.retry⟩

/-- **Going back** takes the last answer back and, as far as the draft is concerned, does nothing
else, whatever the policy is. -/
theorem Recollects.goBack (hform : form.Throughout Form.Separate L)
    (hinitial : form.CanStart initial)
    (h : r.Recollects form initial k) {hs : List Nat} {e : Nat} (he : r.history = hs ++ [e])
    (policy : Policy) (hf : form.fields[e]? = some f) :
    ∃ draft recent, Run.reset initial f.path r.draft = .ok draft ∧
      r.goBack policy form e f.path = .ok { r with
        draft, recent, history := hs, skipped := r.skipped.filter fun j => j < e } ∧
      Recollects form initial { r with
        draft, recent, history := hs, skipped := r.skipped.filter fun j => j < e } e := by
  have hlt := h.order.lt_last he
  obtain ⟨draft, hreset⟩ := h.order.answered.exists_reset_eq_ok hf
  have hdraft : form.Holds initial hs draft := by
    refine h.draft.reset hform hinitial hf hreset fun j hj => ?_
    rw [he, List.mem_append, List.mem_singleton] at hj
    exact hj
  obtain ⟨d, recent, hok, horder, rfl, hrecent⟩ := h.order.goBack (P := (· = draft))
    (Q := form.Recalls initial) hform.own he policy hf
    (fun _ hd => Except.ok.inj (hd.symm.trans hreset))
    (fun j g d d' hj hg _ hd hreset' => by
      have hnew : j ∉ hs := fun hmem => Nat.lt_asymm hj (hlt j hmem)
      rw [hd, hdraft.reset_eq hinitial hg hnew] at hreset'
      exact (Except.ok.inj hreset').symm)
    (fun _ _ _ _ hg hq => hq.remove hform.own hg) h.recent
  exact ⟨d, recent, hreset, hok, horder, hdraft, hrecent, h.retry⟩

/-- What every outcome keeps, when it lets the run go on. -/
theorem Recollects.of_settle (hform : form.Throughout Form.Separate L)
    (hinitial : form.CanStart initial)
    (h : r.Recollects form initial k) (hf : form.fields[k]? = some f)
    (hopen : r.isClosed k f = false) {out : Outcome (Reply Json)}
    (hout : ∀ answer v, out = .done (.value answer) → f.type.encode answer = .ok v →
      f.Recalls initial v) {w w' : Session}
    (hsettle : r.settle o form k f out w = (.goesOn r', w')) :
    ∃ k', r'.Recollects form initial k' := by
  rcases settle_eq_goesOn hsettle with
    ⟨answer, v, w₁, rfl, henc, ⟨-, haccept⟩ | ⟨message, hweigh, rfl⟩⟩ | ⟨-, e, hlanding, hback⟩
  · exact ⟨k + 1, h.accept hform hf hopen (hout answer v rfl henc) haccept⟩
  · refine ⟨k, h.order.reject v message k, h.draft, h.recent, ?_⟩
    rintro i a ha
    obtain ⟨rfl, -⟩ := Prod.mk.inj (Option.some.inj ha)
    exact ⟨f, hf, isSome_check_of_weigh hweigh⟩
  · rw [landing?_eq_getLast? h.order.history_lt] at hlanding
    obtain ⟨hs, g, hsplit, hg, htarget⟩ := h.order.exists_landing hf hlanding
    rw [htarget] at hback
    obtain ⟨draft, recent, -, hok, hr⟩ := h.goBack hform hinitial hsplit o.policy hg
    rw [hback, Except.ok.injEq] at hok
    exact ⟨e, hok ▸ hr⟩

/-! ## Forms that complete -/

/-- What is said of a run in the induction: a form that it completes can be offered what it
completed with. -/
def Remembers (L : Field → Prop) (n : Nat) : Prop :=
  ∀ {form : Form} {initial : Draft} {o : Options} {r : Run} {k : Nat} {w : Session} {d d' : Draft},
    form.Throughout Form.Separate L → form.CanStart initial → r.Recollects form initial k →
    (conduct n form o r w).1 = .done (.completed d) → Draft.ofJson? d.toJson = .ok d' →
    form.Recalls initial d'

/-- **What is answered at a field can be offered there again.** -/
theorem Recollects.answer {n : Nat} (ih : ∀ m < n, Remembers L m)
    (hform : form.Throughout Form.Separate L) (hinitial : form.CanStart initial)
    (h : r.Recollects form initial k) (hf : form.fields[k]? = some f)
    {attempt : Option (Attempt Json)} {make : Session → Question × Session} {q : Question}
    {w w₁ : Session} (hoffer : f.offer ⟨f.path, r.draft, attempt, o⟩ = .ask make)
    (hattempt : ∀ path inner s, f = Form.asField path inner → initial.startAt path = .ok s →
      inner.Recalls s (Draft.offered attempt))
    (hpresent : r.present o form k f attempt make w = (q, w₁)) {answer v : Json}
    (hask : (q.ask n w₁).1 = .done (.value answer)) (henc : f.type.encode answer = .ok v) :
    f.Recalls initial v := by
  rcases hform.field (List.mem_of_getElem? hf) with ⟨hleaf, -⟩ | ⟨path, inner, rfl, hinner⟩
  · exact hleaf.recalls initial v
  obtain ⟨s, hs, rfl⟩ := Form.offer_asField_eq_ask hoffer
  rw [present_asField, Prod.mk.injEq] at hpresent
  obtain ⟨rfl, rfl⟩ := hpresent
  obtain rfl : answer = v := Except.ok.inj henc
  -- the inner form was started with what the start has here, since nothing is answered here yet
  have hread : r.draft.get? path = initial.get? path :=
    h.order.answered.kept k _ hf fun hmem => Nat.lt_irrefl k (h.order.history_lt k hmem)
  have hstart : initial.startAt path = .ok s := (Draft.startAt_congr hread).symm.trans hs
  rcases n with _ | _ | n
  · simp [Question.ask] at hask
  · simp [Question.ask, conductForm, Outcome.map] at hask
  · rw [Question.ask, conductForm] at hask
    rcases hrun : Run.start inner s (Draft.offered attempt) with e | first
    · simp [hrun, Outcome.map] at hask
    · simp only [hrun] at hask
      obtain ⟨d, hd, rfl⟩ := map_reply_eq_value.mp hask
      rintro path' inner' s₁ s' hfield hread' hstart'
      obtain ⟨rfl, rfl⟩ := Form.asField_inj hfield
      rw [hstart, Except.ok.injEq] at hstart'
      subst hstart'
      have hs' := (Draft.plain_of_startAt hinitial.ordered hstart).canStart inner
      exact ih n (Nat.lt_succ_of_lt (Nat.lt_succ_self n)) hinner hs'
        (.start hinner hs' (hattempt path inner s rfl hstart) hrun) hd hread'

/-- One turn of a run that completes: there is nothing left to ask, or the run goes on after a
question. -/
theorem Turn.remembers {n : Nat} (ih : ∀ m ≤ n, Remembers L m)
    (hform : form.Throughout Form.Separate L) (hinitial : form.CanStart initial)
    (hr : r.Recollects form initial k) {a : List Nat} {acc : Account} {out : Outcome Ending}
    (h : r.Turn n a form o acc out) {d d' : Draft} (hout : out = .done (.completed d))
    (hread : Draft.ofJson? d.toJson = .ok d') : form.Recalls initial d' := by
  cases h with
  | failed sought => exact absurd hout (by simp)
  | finished sought =>
      have hfound := hr.order.seek (o := o) (J := fun _ hs d => form.Holds initial hs d) hr.draft
        (fun _ _ _ _ _ _ hd => hd) (fun _ _ _ _ _ _ _ _ hd => hd)
      rw [sought] at hfound
      obtain ⟨-, -, -, hdraft⟩ := hfound
      obtain ⟨rfl, -⟩ := conclude_eq_completed (Prod.ext hout rfl)
      exact hdraft.recalls.reread hdraft.ascends hread
  | @step entries run place f attempt make q w w₁ w₂ w₃ course sought presented settled =>
      obtain ⟨hf, hopen, hrun, hattempt⟩ := hr.shows_of_seek hform sought
      rcases course with e | r'
      · obtain rfl : e = _ := hout
        exact absurd settled
          (settled_ne_completed (v := ⟨run, place, f, attempt, (q.ask n w₁).1, w₂⟩))
      · obtain ⟨i, hr'⟩ := hrun.of_settle hform hinitial hf hopen (fun answer v hask henc =>
          hrun.answer (fun m hm => ih m (Nat.le_of_lt hm)) hform hinitial hf
            (offer_of_seek_eq sought).2 hattempt presented hask henc) settled
        exact ih n (Nat.le_refl n) hform hinitial hr' hout hread

/-- **What a form completes with can be offered to it again.** The induction is on the bound, over
the turns of the run and the runs inside it. -/
theorem remembers (L : Field → Prop) (n : Nat) : Remembers L n := by
  induction n using Nat.strong_induction_on with
  | _ n ih =>
    intro form initial o r k w d d' hform hinitial hr hd hread
    rcases n with _ | n
    · simp [conduct] at hd
    · exact (r.turn n [] form o w).remembers (fun m hm => ih m (Nat.lt_succ_of_le hm)) hform
        hinitial hr hd hread

end Run

end Interview
