import Interview.Screen
/-
Contents that answer: lines of text with a prompt validator, and lists that have their items
ready.

Some contents do not depend on anything but their user. Their validators judge a text at once,
always in the same way and without failing, and their items are ready when they are shown, even if
they are loaded then. Such a content is calm. It never fails, and what it answers with is what it promises: a text that its
validator does not refuse, or the data of one of its items.

The state of a line of text is the delicate part. A verdict is remembered with the text it
belongs to, a check may be in flight, and an acceptance may wait for it. Calm means that these
three fit together, whatever the order of the events was.
-/

set_option autoImplicit false

namespace Interview

open Control (Event)

/-! ## Lines of text -/

namespace TextEntry

/-- A line of text whose validator judges at once, with the refusals of a function. What it
remembers and what it waits for are verdicts of that function. -/
structure Calm (refuse : String → Option String) (t : TextEntry) : Prop where
  validator : t.validator = some fun _ s => .now (refuse s)
  checked : ∀ s verdict, t.checked = some (s, verdict) → verdict = refuse s
  pending : ∀ p, t.pending = some p → p.delay.isOver = true ∧ p.verdict = .ok (refuse p.text)
  waits : t.acceptWaits = true → ∃ p, t.pending = some p ∧ p.text = t.value

variable {refuse : String → Option String} {t : TextEntry}

/-- A line of text that was not used yet is calm. -/
theorem calm_new (value : String) :
    Calm refuse { new with value, validator := some fun _ s => .now (refuse s) } where
  validator := rfl
  checked _ _ h := absurd h (by simp [new])
  pending _ h := absurd h (by simp [new])
  waits h := absurd h (by simp [new])

theorem Calm.copy (h : t.Calm refuse) : t.copy.Calm refuse where
  validator := h.validator
  checked := h.checked
  pending _ hp := absurd hp (by simp [TextEntry.copy])
  waits hw := absurd hw (by simp [TextEntry.copy])

theorem Calm.restore (h : t.Calm refuse) (a : Attempt Json) : (t.restore a).Calm refuse where
  validator := h.validator
  checked _ _ hc := absurd hc (by simp [TextEntry.restore])
  pending _ hp := absurd hp (by simp [TextEntry.restore])
  waits hw := absurd hw (by simp [TextEntry.restore])

/-- Putting a message on display changes nothing else. -/
theorem display_snd (t : TextEntry) (message : Option String) :
    (t.display message).2 = { t with shown := message } := by
  unfold display
  split
  · rename_i heq
    rw [← heq]
  · rfl

theorem Calm.display (h : t.Calm refuse) (message : Option String) :
    (t.display message).2.Calm refuse := by
  rw [display_snd]
  exact ⟨h.validator, h.checked, h.pending, h.waits⟩

theorem Calm.start (h : t.Calm refuse) : t.start.2.Calm refuse := by
  unfold TextEntry.start
  split
  · have ht : Calm refuse { t with reproach := none } :=
      ⟨h.validator, h.checked, h.pending, h.waits⟩
    exact ht.display _
  · exact h

/-- A text that is there already is not accepted before its verdict: no acceptance waits at the
start. -/
theorem acceptWaits_start (t : TextEntry) : t.start.2.acceptWaits = t.acceptWaits := by
  unfold start
  split
  · rw [display_snd]
  · rfl

theorem Calm.beginCheck (h : t.Calm refuse) :
    (t.beginCheck fun _ s => .now (refuse s)).2.Calm refuse where
  validator := h.validator
  checked := h.checked
  pending := by
    intro p hp
    simp only [TextEntry.beginCheck, Option.some.injEq] at hp
    exact hp ▸ ⟨rfl, rfl⟩
  waits _ := ⟨_, rfl, rfl⟩

/-- What judging the current text leads to. -/
structure Judged (refuse : String → Option String) (t : TextEntry)
    (x : List Act × TextEntry × Option (Option String)) : Prop where
  calm : x.2.1.Calm refuse
  value_eq : x.2.1.value = t.value
  /-- A verdict is that of the current text. -/
  verdict : ∀ verdict, x.2.2 = some verdict → verdict = refuse t.value
  /-- Without one, the current text is being checked. -/
  underway : x.2.2 = none → ∃ p, x.2.1.pending = some p ∧ p.text = t.value

theorem Calm.underway (h : t.Calm refuse) :
    Judged refuse t (judge.underway t fun _ s => .now (refuse s)) := by
  unfold judge.underway
  split
  · -- a check of this text is in flight, and no second one is begun
    rename_i hany
    obtain ⟨p, hp, htext⟩ : ∃ p, t.pending = some p ∧ p.text = t.value := by
      simpa [Option.any_eq_true] using hany
    exact {
      calm := h
      value_eq := rfl
      verdict := fun _ hv => absurd hv (by simp)
      underway := fun _ => ⟨p, hp, htext⟩ }
  · exact {
      calm := h.beginCheck
      value_eq := rfl
      verdict := fun _ hv => absurd hv (by simp)
      underway := fun _ => ⟨_, rfl, rfl⟩ }

theorem Calm.judge (h : t.Calm refuse) : Judged refuse t t.judge := by
  unfold TextEntry.judge
  rw [h.validator]
  simp only
  split
  · rename_i text verdict hchecked
    split
    · -- the last verdict is about the current text
      rename_i heq
      refine ⟨h.display verdict, ?_, ?_, fun hnone => absurd hnone (by simp)⟩
      · rw [display_snd]
      · intro verdict' hv
        simp only [Option.some.injEq] at hv
        rw [← hv, h.checked text verdict hchecked, heq]
    · exact h.underway
  · exact h.underway

/-- A look at the check in flight never brings a failure. If an acceptance falls due, the current
text has its verdict. -/
theorem Calm.look (h : t.Calm refuse) :
    t.look.2.1.Calm refuse ∧
      ((t.look.2.2 = .await ∧ t.look.2.1.acceptWaits = false) ∨
        (t.look.2.2 = .replay ∧ t.acceptWaits = true ∧ t.look.2.1.acceptWaits = false ∧
          ∃ verdict, t.look.2.1.checked = some (t.look.2.1.value, verdict))) := by
  unfold TextEntry.look
  split
  · -- no check is in flight, so no acceptance waits for one
    rename_i hnone
    refine ⟨h, Or.inl ⟨rfl, ?_⟩⟩
    rcases hwaits : t.acceptWaits with _ | _
    · rfl
    · obtain ⟨p, hp, -⟩ := h.waits hwaits
      rw [hnone] at hp
      exact absurd hp (by simp)
  · rename_i p hp
    obtain ⟨hover, hverdict⟩ := h.pending p hp
    rw [if_pos hover]
    simp only [hverdict, display_snd]
    refine ⟨⟨h.validator, ?_, fun _ hq => absurd hq (by simp), fun hw => absurd hw (by simp)⟩, ?_⟩
    · intro s verdict hchecked
      simp only [Option.some.injEq, Prod.mk.injEq] at hchecked
      rw [← hchecked.1, ← hchecked.2]
    · -- the verdict is in; an acceptance that waited was for the text it is about
      rcases hwaits : t.acceptWaits with _ | _
      · exact Or.inl ⟨by simp, trivial⟩
      · obtain ⟨q, hq, htext⟩ := h.waits hwaits
        rw [hp, Option.some.injEq] at hq
        exact Or.inr ⟨by simp, rfl, trivial, refuse p.text, by rw [hq, htext]⟩

/-- **What an event comes to.** An answer is a text that the validator does not refuse. -/
theorem Calm.handle (h : t.Calm refuse) (e : Event) :
    (t.handle e).2.1.Calm refuse ∧
      ∀ r, (t.handle e).2.2 = some r → ∃ s, r = .value (.text s) ∧ refuse s = none := by
  unfold TextEntry.handle
  split
  · -- another text: an acceptance that waited is off
    rename_i text
    have hchanged : Calm refuse { t with value := text, acceptWaits := false } :=
      ⟨h.validator, h.checked, h.pending, fun hw => absurd hw (by simp)⟩
    simp only
    split
    · exact ⟨hchanged.judge.calm, fun _ hr => absurd hr (by simp)⟩
    · have hidle : Calm refuse { t with value := text, pending := none, acceptWaits := false } :=
        ⟨h.validator, h.checked, fun _ hp => absurd hp (by simp), fun hw => absurd hw (by simp)⟩
      exact ⟨hidle.display none, fun _ hr => absurd hr (by simp)⟩
  · -- an acceptance: it waits for the verdict, or is refused, or stands
    have hjudge := h.judge
    split
    · rename_i heq
      rw [heq] at hjudge
      refine ⟨⟨hjudge.calm.validator, hjudge.calm.checked, hjudge.calm.pending, fun _ => ?_⟩,
        fun _ hr => absurd hr (by simp)⟩
      obtain ⟨p, hp, htext⟩ := hjudge.underway rfl
      exact ⟨p, hp, htext.trans hjudge.value_eq.symm⟩
    · rename_i heq
      rw [heq] at hjudge
      exact ⟨hjudge.calm, fun _ hr => absurd hr (by simp)⟩
    · rename_i acts t' heq
      rw [heq] at hjudge
      refine ⟨hjudge.calm, fun r hr => ?_⟩
      rw [Option.some.injEq] at hr
      refine ⟨t'.value, hr.symm, ?_⟩
      rw [hjudge.value_eq]
      exact (hjudge.verdict none rfl).symm
  · exact ⟨h, fun _ hr => absurd hr (by simp)⟩

/-- An acceptance of a text that has its verdict does not wait. -/
theorem Calm.acceptWaits_handle (h : t.Calm refuse) (hwaits : t.acceptWaits = false)
    {verdict : Option String} (hchecked : t.checked = some (t.value, verdict)) :
    (t.handle .accept).2.1.acceptWaits = false := by
  unfold TextEntry.handle TextEntry.judge
  rw [h.validator]
  simp only [hchecked, if_true, display_snd]
  rcases verdict with _ | message
  · exact hwaits
  · exact hwaits

end TextEntry

/-! ## Lists -/

/-- All the batches are ready at once and bring nothing but such items. -/
def Batch.Prompt (items : List Item) (batches : List Batch) : Prop :=
  ∀ b ∈ batches, b.delay.isOver = true ∧ ∃ is, b.outcome = .ok is ∧ ∀ i ∈ is, i ∈ items

/-- A source that has its items ready when the list is shown, and no other items than these. -/
def ItemSource.Prompt (items : List Item) : ItemSource → Prop
  | .fixed is => ∀ i ∈ is, i ∈ items
  | .lazy load => Batch.Prompt items load.batches ∧ load.ending.isOver = true

namespace PickList

/-- A list of one choice among items that are ready when it is shown. -/
structure Calm (items : List Item) (l : PickList) : Prop where
  source : l.source.Prompt items
  many : l.many = false
  loading : ∀ batches ending, l.loading = some (batches, ending) →
    Batch.Prompt items batches ∧ ending.isOver = true
  items_sub : ∀ i ∈ l.items, i ∈ items

variable {items : List Item} {l : PickList}

theorem calm_new {source : ItemSource} (h : source.Prompt items) : Calm items (new source false) :=
  ⟨h, rfl, fun _ _ hl => absurd hl (by simp [new]), fun _ hi => absurd hi List.not_mem_nil⟩

/-- A list of items that are there from the start. -/
theorem calm_fixed (items : List Item) : Calm items (new (.fixed items) false) :=
  calm_new fun _ hi => hi

theorem Calm.copy (h : l.Calm items) : l.copy.Calm items :=
  ⟨h.source, h.many, fun _ _ hl => absurd hl (by simp [PickList.copy, new]),
    fun _ hi => absurd hi List.not_mem_nil⟩

/-- What was picked at an earlier time only says which items are marked. -/
theorem Calm.withRecent (h : l.Calm items) (recent : List Json) :
    Calm items { l with recent } :=
  ⟨h.source, h.many, h.loading, h.items_sub⟩

theorem Calm.restore (h : l.Calm items) (a : Attempt Json) : (l.restore a).Calm items := by
  unfold PickList.restore
  split
  · exact h.withRecent _
  · exact h
  · exact h.withRecent _

theorem Calm.render (h : l.Calm items) (w : Wording) (finished : Bool) :
    (l.render w finished).2.Calm items := by
  unfold PickList.render
  split
  · exact ⟨h.source, h.many, h.loading, h.items_sub⟩
  · exact ⟨h.source, h.many, h.loading, h.items_sub⟩

theorem Calm.start (h : l.Calm items) (w : Wording) : (l.start w).2.Calm items := by
  have hsource := h.source
  unfold PickList.start
  split
  · rename_i is hfixed
    rw [hfixed] at hsource
    have hl : Calm items { l with items := is } := ⟨h.source, h.many, h.loading, hsource⟩
    exact hl.render w true
  · rename_i load hlazy
    rw [hlazy] at hsource
    refine ⟨h.source, h.many, fun batches ending hl => ?_, h.items_sub⟩
    simp only [Option.some.injEq, Prod.mk.injEq] at hl
    exact hl.1 ▸ hl.2 ▸ hsource

/-- **Everything is taken in at the first look**, and nothing fails. The induction is on the
batches. -/
theorem Calm.takeIn (w : Wording) {ending : Delay} (hending : ending.isOver = true) :
    ∀ {batches : List Batch} {l : PickList}, l.Calm items → Batch.Prompt items batches →
      (takeIn w ending batches l).2.1.Calm items ∧ (takeIn w ending batches l).2.2 = .await
  | [], l, h, _ => by
      have hl : Calm items { l with loading := none } :=
        ⟨h.source, h.many, fun _ _ hl => absurd hl (by simp), h.items_sub⟩
      rw [PickList.takeIn, if_pos hending]
      exact ⟨hl.render w true, rfl⟩
  | b :: rest, l, h, hbatches => by
      obtain ⟨hover, is, hok, his⟩ := hbatches b List.mem_cons_self
      have hrest : Batch.Prompt items rest := fun b hb => hbatches b (List.mem_cons_of_mem _ hb)
      have hl : Calm items { l with items := l.items ++ is, loading := some (rest, ending) } := by
        refine ⟨h.source, h.many, fun batches' ending' hl => ?_, fun i hi => ?_⟩
        · simp only [Option.some.injEq, Prod.mk.injEq] at hl
          exact hl.1 ▸ hl.2 ▸ ⟨hrest, hending⟩
        · rcases List.mem_append.mp hi with hi | hi
          · exact h.items_sub i hi
          · exact his i hi
      rw [PickList.takeIn, if_pos hover]
      simp only [hok]
      exact takeIn w hending (hl.render w false) hrest

theorem Calm.look (h : l.Calm items) (w : Wording) :
    (l.look w).2.1.Calm items ∧ (l.look w).2.2 = .await := by
  unfold PickList.look
  split
  · exact ⟨h, rfl⟩
  · rename_i batches ending hloading
    obtain ⟨hbatches, hending⟩ := h.loading batches ending hloading
    exact h.takeIn w hending hbatches

/-- **What an event comes to.** An answer is the data of one of the items. -/
theorem Calm.handle (h : l.Calm items) (e : Event) :
    (l.handle e).1.Calm items ∧
      ∀ r, (l.handle e).2 = some r → r = .back ∨ ∃ i ∈ items, r = .value i.data := by
  unfold PickList.handle
  split
  · exact ⟨⟨h.source, h.many, h.loading, h.items_sub⟩, fun _ hr => absurd hr (by simp)⟩
  · refine ⟨h, fun r hr => ?_⟩
    unfold accept at hr
    split at hr
    · exact Or.inl (Option.some.inj hr).symm
    · rw [h.many, if_neg (by simp)] at hr
      obtain ⟨i, hi, hdata⟩ := Option.map_eq_some_iff.mp hr
      exact Or.inr ⟨i, h.items_sub i (List.mem_of_getElem? hi), hdata.symm⟩
  · exact ⟨h, fun _ hr => absurd hr (by simp)⟩

end PickList

end Interview
