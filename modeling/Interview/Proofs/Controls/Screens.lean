import Interview.Proofs.Controls.Books
import Interview.Proofs.Turns
/-
Screens use their control and nothing else.

A screen touches the world through the acts of its content, through the events it waits for,
and through the making and disposing of its control. The contents never dispose anything and
never speak of other controls, whatever their validators and loads are; that is checked for
every act they perform. So one turn of a screen keeps its control in use, and so does being
asked. Disposing and dropping a screen end the use of its control, if it has one.
-/

set_option autoImplicit false

namespace Interview

/-! ## Mild acts -/

/-- Whether an act leaves its control undisposed and all other controls alone. -/
def Act.isMild : Act → Bool
  | .call c => c != .dispose
  | .entry e => e.isNeutral

/-- All the acts are mild. -/
def Mild (acts : List Act) : Prop :=
  ∀ a ∈ acts, a.isMild = true

@[simp] theorem mild_nil : Mild [] :=
  fun _ ha => absurd ha List.not_mem_nil

@[simp] theorem mild_cons {a : Act} {acts : List Act} :
    Mild (a :: acts) ↔ a.isMild = true ∧ Mild acts :=
  List.forall_mem_cons

@[simp] theorem mild_append {acts acts' : List Act} :
    Mild (acts ++ acts') ↔ Mild acts ∧ Mild acts' :=
  List.forall_mem_append

@[simp] theorem mild_ofNotes (notes : List Note) : Mild (Act.ofNotes notes) := by
  intro a ha
  obtain ⟨n, -, rfl⟩ := List.mem_map.mp ha
  rfl

theorem mild_entries {es : List Entry} (h : ∀ e ∈ es, e.isNeutral = true) :
    Mild (es.map Act.entry) := by
  intro a ha
  obtain ⟨e, he, rfl⟩ := List.mem_map.mp ha
  exact h e he

/-! ## Lines of text -/

namespace TextEntry

variable (t : TextEntry)

theorem mild_display (message : Option String) : Mild (t.display message).1 := by
  unfold display
  split
  · exact mild_nil
  · simp [Act.isMild]

theorem mild_start : Mild t.start.1 := by
  unfold start
  split
  · exact mild_display _ _
  · exact mild_nil

theorem mild_beginCheck (v : Validator) : Mild (t.beginCheck v).1 := by
  unfold beginCheck
  refine mild_append.mpr ⟨?_, mild_ofNotes _⟩
  split
  · simp [Act.isMild]
  · exact mild_nil

theorem mild_underway (v : Validator) : Mild (judge.underway t v).1 := by
  unfold judge.underway
  split
  · exact mild_nil
  · exact t.mild_beginCheck v

theorem mild_judge : Mild t.judge.1 := by
  unfold judge
  split
  · exact t.mild_display none
  · split
    · split
      · exact t.mild_display _
      · exact t.mild_underway _
    · exact t.mild_underway _

theorem mild_look : Mild t.look.1 := by
  unfold look
  split
  · exact mild_nil
  · split
    · split
      · simp [Act.isMild]
      · exact mild_cons.mpr ⟨rfl, mild_display _ _⟩
    · exact mild_nil

theorem mild_handle (e : Control.Event) : Mild (t.handle e).1 := by
  unfold handle
  split
  · rename_i text
    simp only
    split
    · exact mild_judge _
    · refine mild_append.mpr ⟨?_, mild_display _ _⟩
      split
      · simp [Act.isMild]
      · exact mild_nil
  · have hjudge := t.mild_judge
    split
    · rename_i hj
      rwa [hj] at hjudge
    · rename_i hj
      rwa [hj] at hjudge
    · rename_i hj
      rwa [hj] at hjudge
  · exact mild_nil

end TextEntry

/-! ## Lists -/

/-- What is noted when the batch arrives is not about controls. -/
def Batch.Quiet (b : Batch) : Prop :=
  ∀ e ∈ b.notes, e.isNeutral = true

/-- What is noted when items are loaded is not about controls. -/
def Load.Quiet (l : Load) : Prop :=
  (∀ e ∈ l.notes, e.isNeutral = true) ∧ ∀ b ∈ l.batches, b.Quiet

def ItemSource.Quiet : ItemSource → Prop
  | .fixed _ => True
  | .lazy load => load.Quiet

namespace PickList

/-- Loading the items of the list notes nothing about controls. -/
structure Quiet (l : PickList) : Prop where
  source : l.source.Quiet
  loading : ∀ batches ending, l.loading = some (batches, ending) → ∀ b ∈ batches, b.Quiet

variable {l : PickList} (w : Wording)

/-- A list that loads nothing at the moment is quiet if its source is. -/
theorem quiet_of_idle (h : l.source.Quiet) (hidle : l.loading = none) : l.Quiet := by
  refine ⟨h, fun batches ending hloading => ?_⟩
  rw [hidle] at hloading
  exact absurd hloading (by simp)

theorem quiet_of_loading {batches : List Batch} {ending : Delay} (h : l.source.Quiet)
    (hloading : l.loading = some (batches, ending)) (hbatches : ∀ b ∈ batches, b.Quiet) :
    l.Quiet := by
  refine ⟨h, fun batches' ending' hloading' => ?_⟩
  rw [hloading, Option.some.injEq, Prod.mk.injEq] at hloading'
  exact hloading'.1 ▸ hbatches

theorem Quiet.copy (h : l.Quiet) : l.copy.Quiet :=
  quiet_of_idle h.source rfl

theorem Quiet.restore (h : l.Quiet) (a : Attempt Json) : (l.restore a).Quiet := by
  unfold PickList.restore
  split
  · exact ⟨h.source, h.loading⟩
  · exact h
  · exact ⟨h.source, h.loading⟩

theorem mild_render (finished : Bool) : Mild (l.render w finished).1 := by
  unfold render
  split
  · simp [Act.isMild]
  · simp [Act.isMild]

theorem Quiet.render (h : l.Quiet) (finished : Bool) : (l.render w finished).2.Quiet := by
  unfold PickList.render
  split
  · exact ⟨h.source, h.loading⟩
  · exact ⟨h.source, h.loading⟩

theorem mild_finishLoading : Mild (l.finishLoading w).1 :=
  mild_cons.mpr ⟨rfl, mild_cons.mpr ⟨rfl, mild_render w true⟩⟩

theorem Quiet.finishLoading (h : l.Quiet) : (l.finishLoading w).2.Quiet := by
  have hl : Quiet { l with loading := none } := quiet_of_idle h.source rfl
  exact hl.render w true

theorem Quiet.start (h : l.Quiet) : Mild (l.start w).1 ∧ (l.start w).2.Quiet := by
  have hsource := h.source
  unfold PickList.start
  split
  · rename_i items _
    have hl : Quiet { l with items } := ⟨h.source, h.loading⟩
    exact ⟨mild_render w true, hl.render w true⟩
  · rename_i load hlazy
    rw [hlazy] at hsource
    -- the source of a list that loads is what it loads from
    refine ⟨mild_append.mpr ⟨mild_entries hsource.1, by simp [Act.isMild]⟩, ?_⟩
    exact quiet_of_loading h.source rfl hsource.2

/-- **Taking in what was loaded** notes nothing about controls. The induction is on the batches that
are left. -/
theorem Quiet.takeIn {batches : List Batch} (ending : Delay) (hbatches : ∀ b ∈ batches, b.Quiet) :
    ∀ {l : PickList}, l.Quiet →
      Mild (takeIn w ending batches l).1 ∧ (takeIn w ending batches l).2.1.Quiet := by
  induction batches with
  | nil =>
      intro l h
      rw [PickList.takeIn]
      split
      · exact ⟨mild_finishLoading w, h.finishLoading w⟩
      · refine ⟨mild_nil, quiet_of_loading h.source rfl ?_⟩
        exact fun b hb => absurd hb List.not_mem_nil
  | cons b rest ih =>
      intro l h
      have hb := hbatches b List.mem_cons_self
      have hrest : ∀ b ∈ rest, b.Quiet := fun b hb => hbatches b (List.mem_cons_of_mem _ hb)
      rw [PickList.takeIn]
      split
      · simp only
        split
        · -- the items of a batch are shown at once, and the rest is still to come
          rename_i items _
          have hl : Quiet { l with items := l.items ++ items, loading := some (rest, ending) } :=
            quiet_of_loading h.source rfl hrest
          obtain ⟨hmild, hquiet⟩ := ih hrest (hl.render w false)
          refine ⟨?_, hquiet⟩
          exact mild_append.mpr ⟨mild_append.mpr ⟨mild_entries hb, mild_render w false⟩, hmild⟩
        · split
          · refine ⟨?_, h.finishLoading w⟩
            exact mild_append.mpr ⟨mild_entries hb, mild_cons.mpr ⟨rfl, mild_finishLoading w⟩⟩
          · refine ⟨mild_append.mpr ⟨mild_entries hb, by simp [Act.isMild]⟩, ?_⟩
            exact quiet_of_idle h.source rfl
      · -- the batch is not in yet
        exact ⟨mild_nil, quiet_of_loading h.source rfl (List.forall_mem_cons.mpr ⟨hb, hrest⟩)⟩

theorem Quiet.look (h : l.Quiet) : Mild (l.look w).1 ∧ (l.look w).2.1.Quiet := by
  unfold PickList.look
  split
  · exact ⟨mild_nil, h⟩
  · rename_i batches ending hloading
    exact Quiet.takeIn w ending (h.loading batches ending hloading) h

theorem Quiet.handle (h : l.Quiet) (e : Control.Event) : (l.handle e).1.Quiet := by
  unfold PickList.handle
  split
  · exact ⟨h.source, h.loading⟩
  · exact h
  · exact h

end PickList

/-! ## Contents -/

namespace Content

/-- Whatever the content loads notes nothing about controls. -/
def Quiet : Content → Prop
  | text _ => True
  | list l => l.Quiet

variable {c : Content}

theorem Quiet.copy (h : c.Quiet) : c.copy.Quiet := by
  cases c with
  | text t => trivial
  | list l => exact PickList.Quiet.copy h

theorem Quiet.restore (h : c.Quiet) (a : Attempt Json) : (c.restore a).Quiet := by
  cases c with
  | text t => trivial
  | list l => exact PickList.Quiet.restore h a

theorem Quiet.start (h : c.Quiet) (w : Wording) (chrome : Chrome) :
    Mild (c.start w chrome).1 ∧ (c.start w chrome).2.Quiet := by
  cases c with
  | text t => exact ⟨t.mild_start, trivial⟩
  | list l =>
      have hl : PickList.Quiet { l with placeholder := chrome.placeholder } := ⟨h.source, h.loading⟩
      exact hl.start w

theorem Quiet.look (h : c.Quiet) (w : Wording) :
    Mild (c.look w).1 ∧ (c.look w).2.1.Quiet := by
  cases c with
  | text t => exact ⟨t.mild_look, trivial⟩
  | list l => exact PickList.Quiet.look w h

theorem Quiet.handle (h : c.Quiet) (e : Control.Event) :
    Mild (c.handle e).1 ∧ (c.handle e).2.1.Quiet := by
  cases c with
  | text t => exact ⟨t.mild_handle e, trivial⟩
  | list l => exact ⟨mild_nil, PickList.Quiet.handle h e⟩

end Content

/-! ## Screens -/

namespace Screen

/-- A screen that gives up its control when it is disposed, with a content that is quiet. -/
structure Sound (s : Screen) : Prop where
  quiet : s.content.Quiet
  given_up : s.disposed = true → s.control = none

variable {s : Screen} {w : Session} {id : Nat}

/-- A screen that was not disposed yet is sound if its content is quiet. -/
theorem sound_of_quiet (h : s.content.Quiet) (hdisposed : s.disposed = false) : s.Sound := by
  refine ⟨h, fun hgone => ?_⟩
  rw [hdisposed] at hgone
  exact absurd hgone (by decide)

theorem Sound.copy (h : s.Sound) : s.copy.Sound :=
  ⟨h.quiet.copy, fun _ => rfl⟩

theorem Sound.restore (h : s.Sound) (a : Attempt Json) : (s.restore a).Sound :=
  ⟨h.quiet.restore a, h.given_up⟩

/-- Mild acts keep the control in use. -/
theorem uses_perform {acts : List Act} (hacts : Mild acts) (h : w.Uses (some id)) :
    (perform id acts w).Uses (some id) := by
  induction acts generalizing w with
  | nil => exact h
  | cons a acts ih =>
      obtain ⟨ha, hrest⟩ := mild_cons.mp hacts
      cases a with
      | call c =>
          refine ih hrest (h.call ?_)
          simpa [Act.isMild] using ha
      | entry e =>
          refine ih hrest (h.emit fun e' he' => ?_)
          exact List.mem_singleton.mp he' ▸ ha

/-- A screen that has a place changes at most the title of its control. -/
theorem Sound.place (h : s.Sound) (hw : w.Uses s.control) (current total : Nat) :
    (s.place current total w).1.Sound ∧
      (s.place current total w).2.Uses (s.place current total w).1.control := by
  unfold Screen.place
  simp only
  split
  · rename_i title id _ hcontrol
    refine ⟨⟨h.quiet, h.given_up⟩, ?_⟩
    rw [hcontrol] at hw ⊢
    exact hw.call (by simp)
  · exact ⟨⟨h.quiet, h.given_up⟩, hw⟩

/-- **A screen that was disposed leaves no control in use.** -/
theorem Sound.dispose (h : s.Sound) (hw : w.Uses s.control) : (s.dispose w).2.Uses none := by
  unfold Screen.dispose
  split
  · -- a disposed screen gave its control up already
    rename_i hdisposed
    rwa [h.given_up hdisposed] at hw
  · split
    · rename_i id hcontrol
      rw [hcontrol] at hw
      exact hw.dispose
    · rename_i hcontrol
      rwa [hcontrol] at hw

/-- **A screen appears on its control**, which is in use from then on. -/
theorem Sound.appear (h : s.Sound) (hs : s.disposed = false) (hw : w.Uses s.control) :
    (s.appear w).2.1.Sound ∧ (s.appear w).2.1.control = some (s.appear w).1 ∧
      (s.appear w).2.2.Uses (some (s.appear w).1) := by
  unfold Screen.appear
  split
  · -- a screen that is asked again shows the control it has
    rename_i id hcontrol
    rw [hcontrol] at hw
    exact ⟨h, hcontrol, hw.call (by simp)⟩
  · rename_i hcontrol
    rw [hcontrol] at hw
    obtain ⟨hmild, hquiet⟩ := h.quiet.start s.wording s.chrome
    refine ⟨⟨hquiet, fun hdisposed => ?_⟩, rfl, ?_⟩
    · exact absurd (hs.symm.trans hdisposed) (by simp)
    · exact uses_perform (mild_cons.mpr ⟨rfl, hmild⟩) (hw.make _ _)

/-! ## Turns -/

/-- What a turn leaves: a sound screen with its control in use. -/
def Turn.Keeps (id : Nat) : Turn → Prop
  | .stays s w => s.Sound ∧ s.control = some id ∧ w.Uses (some id)
  | .ends _ s w => s.Sound ∧ s.control = some id ∧ w.Uses (some id)

theorem Sound.handle (h : s.Sound) (e : Control.Event) :
    Mild (s.handle e).1 ∧ (s.handle e).2.1.Sound ∧ (s.handle e).2.1.control = s.control := by
  have hhandled := s.handled_handle e
  generalize s.handle e = handled at hhandled ⊢
  cases hhandled with
  | hides | misses => exact ⟨mild_nil, h, rfl⟩
  | clicks => exact ⟨mild_ofNotes _, h, rfl⟩
  | passes =>
    obtain ⟨hmild, hquiet⟩ := h.quiet.handle e
    exact ⟨hmild, ⟨hquiet, h.given_up⟩, rfl⟩

theorem Sound.react (h : s.Sound) (hs : s.control = some id) (hw : w.Uses (some id))
    (e : Control.Event) : (s.react id e w).Keeps id := by
  obtain ⟨hmild, hsound, hcontrol⟩ := h.handle e
  have huses := uses_perform hmild hw
  unfold Screen.react
  simp only
  split
  · exact ⟨hsound, hcontrol.trans hs, huses⟩
  · exact ⟨hsound, hcontrol.trans hs, huses⟩
  · exact ⟨hsound, hcontrol.trans hs, huses⟩

/-- **One turn keeps the control in use.** -/
theorem Sound.turn (h : s.Sound) (hs : s.control = some id) (hw : w.Uses (some id)) :
    (s.turn id w).Keeps id := by
  obtain ⟨hmild, hquiet⟩ := h.quiet.look s.wording
  have hsound : Sound { s with content := (s.content.look s.wording).2.1 } := ⟨hquiet, h.given_up⟩
  have huses := uses_perform hmild hw
  have hnext := huses.next
  unfold Screen.turn
  simp only
  split
  · exact ⟨hsound, hs, huses⟩
  · exact hsound.react hs huses .accept
  · -- waiting for the control hands out an event, or nothing yet
    split
    · rename_i e w' heq
      rw [heq] at hnext
      exact hsound.react hs hnext e
    · rename_i w' heq
      rw [heq] at hnext
      exact ⟨hsound, hs, hnext⟩
    · rename_i w' heq
      rw [heq] at hnext
      split
      · exact ⟨hsound, hs, hnext⟩
      · exact ⟨hsound, hs, hnext⟩

theorem Sound.converse {n : Nat} (h : s.Sound) (hs : s.control = some id)
    (hw : w.Uses (some id)) :
    (s.converse id n w).2.1.Sound ∧
      (s.converse id n w).2.2.Uses (s.converse id n w).2.1.control := by
  induction n generalizing s w with
  | zero =>
      rw [Screen.converse, hs]
      exact ⟨h, hw⟩
  | succ n ih =>
      have hturn := h.turn hs hw
      rw [Screen.converse]
      split
      · rename_i s' w' heq
        rw [heq] at hturn
        exact ih hturn.1 hturn.2.1 hturn.2.2
      · rename_i o s' w' heq
        rw [heq] at hturn
        obtain ⟨hsound, hcontrol, huses⟩ := hturn
        rw [hcontrol]
        exact ⟨hsound, huses⟩

/-- **Asking a screen** leaves it sound, with its control in use, if it has one. -/
theorem Sound.ask (h : s.Sound) (hw : w.Uses s.control) (n : Nat) :
    (s.ask n w).2.1.Sound ∧ (s.ask n w).2.2.Uses (s.ask n w).2.1.control := by
  unfold Screen.ask
  split
  · exact ⟨h, hw⟩
  · rename_i hdisposed
    obtain ⟨hsound, hcontrol, huses⟩ := h.appear (by simpa using hdisposed) hw
    exact hsound.converse hcontrol huses

end Screen

end Interview
