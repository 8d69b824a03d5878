import Interview.Conduct
import Interview.Proofs.Run.Settling
import Interview.Proofs.Typing.Conversations
/-
Questions that tell the observer nothing.

What the observer of a run is told are the reports in the transcript. Only a run makes reports, so a
question in which there is no form leaves them as they are, whatever it shows and whatever its user
does. There is nothing more to it than going through everything that a question does, once: what it
does to its control, the events it waits for, and the notes that collaborators leave. Lists are the
only ones of which something has to be assumed, that no report is among the notes of what they load.
-/

set_option autoImplicit false

namespace Interview

/-! ## Reports -/

/-- What the observer is told by an entry of the transcript. -/
def Entry.report? : Entry → Option Report
  | .reported r => some r
  | _ => none

/-- What was told by some entries. -/
def reportsOf (es : List Entry) : List Report :=
  es.filterMap Entry.report?

@[simp] theorem reportsOf_append (es es' : List Entry) :
    reportsOf (es ++ es') = reportsOf es ++ reportsOf es' :=
  List.filterMap_append

theorem reportsOf_eq_nil {es : List Entry} (h : ∀ e ∈ es, e.report? = none) : reportsOf es = [] :=
  List.filterMap_eq_nil_iff.mpr h

/-- Notes of collaborators tell the observer nothing. -/
@[simp] theorem reportsOf_notes (notes : List Note) : reportsOf (notes.map Entry.noted) = [] := by
  refine reportsOf_eq_nil fun e he => ?_
  obtain ⟨note, -, rfl⟩ := List.mem_map.mp he
  rfl

variable {o : Options}

/-- An observer that records is told what is reported. -/
theorem Observer.reportsOf_entries (ho : o.observer = .recording) (r : Report) :
    reportsOf (o.observer.entries r) = [r] := by
  rw [ho]
  rfl

namespace Session

variable {w w' : Session}

/-- What the observer was told in a session, in order. -/
def reports (w : Session) : List Report :=
  reportsOf w.transcript

@[simp] theorem reports_emit (w : Session) (es : List Entry) :
    (w.emit es).reports = w.reports ++ reportsOf es := by
  rw [reports, transcript, emit, List.reverse_append, List.reverse_reverse, reportsOf_append]
  rfl

theorem reports_reportAll (ho : o.observer = .recording) (w : Session) (told : List Report) :
    (w.reportAll o told).reports = w.reports ++ told := by
  rw [reportAll, reports_emit]
  congr 1
  induction told with
  | nil => rfl
  | cons r told ih =>
      rw [List.flatMap_cons, reportsOf_append, Observer.reportsOf_entries ho, ih]
      rfl

theorem reports_report (ho : o.observer = .recording) (w : Session) (r : Report) :
    (w.report o r).reports = w.reports ++ [r] := by
  rw [report, reports_emit, Observer.reportsOf_entries ho]

/-- Nothing is told between two sessions. -/
def Hushed (w w' : Session) : Prop :=
  w'.reports = w.reports

theorem hushed_refl (w : Session) : w.Hushed w :=
  rfl

theorem Hushed.trans {w'' : Session} (h : w.Hushed w') (h' : w'.Hushed w'') : w.Hushed w'' :=
  Eq.trans (b := w'.reports) h' h

/-- What adds no report to the transcript tells nothing. -/
theorem hushed_of_entries (es : List Entry) (hentries : w'.entries = es ++ w.entries)
    (hes : ∀ e ∈ es, e.report? = none) : w.Hushed w' := by
  rw [Hushed, reports, reports, transcript, transcript, hentries, List.reverse_append,
    reportsOf_append, reportsOf_eq_nil fun e he => hes e (List.mem_reverse.mp he),
    List.append_nil]

theorem hushed_of_entries_eq (hentries : w'.entries = w.entries) : w.Hushed w' :=
  hushed_of_entries [] hentries fun _ he => absurd he List.not_mem_nil

theorem hushed_emit {es : List Entry} (h : ∀ e ∈ es, e.report? = none) (w : Session) :
    w.Hushed (w.emit es) :=
  hushed_of_entries es.reverse rfl fun e he => h e (List.mem_reverse.mp he)

theorem hushed_used (label : String) (use : Use) (w : Session) :
    w.Hushed (w.emit [.used label use]) :=
  hushed_emit (by simp [Entry.report?]) w

theorem hushed_replied (label : String) (type : AnswerType) (out : Outcome (Reply Json))
    (w : Session) : w.Hushed (w.emit (replyEntries label type out)) := by
  unfold replyEntries
  split
  · exact hushed_used label _ w
  · exact w.hushed_refl

theorem hushed_call (id : Nat) (c : Control.Call) (w : Session) : w.Hushed (w.call id c) :=
  hushed_of_entries [.called id c] rfl (by simp [Entry.report?])

theorem hushed_make (kind : Control.Kind) (chrome : Chrome) (w : Session) :
    w.Hushed (w.make kind chrome).2 := by
  refine hushed_of_entries [.made w.devices.length kind chrome] ?_ (by simp [Entry.report?])
  unfold make
  simp only
  split
  · rfl
  · rfl
  · rfl

theorem hushed_hand (id : Nat) (e : Control.Event) (log : List LogLine) (t : Terminal)
    (w : Session) : w.Hushed (w.hand id e log t).2 := by
  refine hushed_of_entries (log.map Entry.logged ++ [Entry.handed id e]).reverse rfl ?_
  simp [Entry.report?]

theorem hushed_close (id : Nat) (t : Terminal) (asked : Terminal.Content) (o : Terminal.Outcome)
    (w : Session) : w.Hushed (w.close id t asked o).2 := by
  have hline : w.Hushed { w with midLine := Terminal.leavesMidLine asked o } :=
    hushed_of_entries_eq rfl
  exact hline.trans (hushed_hand ..)

theorem hushed_listen (id : Nat) (t : Terminal) (asked : Terminal.Content) (w : Session) :
    w.Hushed (w.listen id t asked).2 := by
  unfold listen
  split
  · rename_i colorful move rest _
    have hmoved : w.Hushed { w with host := .terminal colorful rest } := hushed_of_entries_eq rfl
    split
    · exact hushed_of_entries_eq rfl
    · exact hmoved.trans (hushed_close ..)
  · have hleft : w.Hushed { w with unanswered := w.unanswered.or (some t) } :=
      hushed_of_entries_eq rfl
    exact hleft.trans (hushed_close ..)

theorem hushed_prompt (id : Nat) (t : Terminal) (w : Session) : w.Hushed (w.prompt id t).2 := by
  have hprint : w.Hushed (w.print t.printed) := hushed_of_entries_eq rfl
  unfold prompt
  split
  · exact hprint.trans (hushed_hand ..)
  · exact hprint.trans (hushed_listen ..)

/-- **Waiting for an event** tells the observer nothing. -/
theorem hushed_next (id : Nat) (w : Session) : w.Hushed (w.next id).2 := by
  unfold next
  split
  · rename_i e rest _
    exact hushed_of_entries [.handed id e] rfl (by simp [Entry.report?])
  · split
    · exact hushed_hand ..
    · exact w.hushed_refl
    · exact hushed_prompt ..
    · exact hushed_listen ..
  · exact hushed_of_entries [.handed id .hide] rfl (by simp [Entry.report?])

theorem hushed_onDeck (id : Nat) (f : Deck → Deck) (w : Session) : w.Hushed (w.onDeck id f) :=
  hushed_of_entries_eq rfl

theorem hushed_draw (id copy : Nat) (w : Session) : w.Hushed (w.draw id copy).2 := by
  unfold draw
  split
  · exact hushed_of_entries_eq rfl
  · exact w.hushed_refl

end Session

/-! ## Acts -/

/-- The acts tell the observer nothing. -/
def Act.Mute (acts : List Act) : Prop :=
  ∀ e, .entry e ∈ acts → e.report? = none

namespace Act

variable {acts more : List Act}

theorem mute_nil : Mute [] :=
  fun _ h => absurd h List.not_mem_nil

theorem Mute.append (h : Mute acts) (h' : Mute more) : Mute (acts ++ more) :=
  fun e he => (List.mem_append.mp he).elim (h e) (h' e)

theorem Mute.cons_call (h : Mute acts) (c : Control.Call) : Mute (.call c :: acts) :=
  fun e he => h e (by simpa using he)

theorem mute_entries {es : List Entry} (h : ∀ e ∈ es, e.report? = none) :
    Mute (es.map Act.entry) := by
  intro e he
  obtain ⟨e', he', heq⟩ := List.mem_map.mp he
  exact Act.entry.inj heq ▸ h e' he'

/-- Notes are no reports. -/
theorem mute_ofNotes (notes : List Note) : Mute (ofNotes notes) := by
  intro e he
  obtain ⟨note, -, hnote⟩ := List.mem_map.mp he
  rw [← Act.entry.inj hnote]
  rfl

end Act

theorem Screen.hushed_perform {acts : List Act} (h : Act.Mute acts) (id : Nat) (w : Session) :
    w.Hushed (perform id acts w) := by
  induction acts generalizing w with
  | nil => exact w.hushed_refl
  | cons act acts ih =>
      have hrest : Act.Mute acts := fun e he => h e (List.mem_cons_of_mem _ he)
      cases act with
      | call c => exact (Session.hushed_call id c w).trans (ih hrest _)
      | entry e =>
          have he : ∀ e' ∈ [e], e'.report? = none := by
            simpa using h e List.mem_cons_self
          exact (Session.hushed_emit he w).trans (ih hrest _)

/-! ## Contents -/

namespace TextEntry

theorem mute_display (t : TextEntry) (message : Option String) : Act.Mute (t.display message).1 := by
  unfold display
  split
  · exact Act.mute_nil
  · exact Act.mute_nil.cons_call _

theorem mute_start (t : TextEntry) : Act.Mute t.start.1 := by
  unfold start
  split
  · exact mute_display _ _
  · exact Act.mute_nil

theorem mute_judge (t : TextEntry) : Act.Mute t.judge.1 := by
  have hjudges := judges_judge t
  generalize t.judge = judged at hjudges ⊢
  cases hjudges with
  | unchecked => exact mute_display _ _
  | known => exact mute_display _ _
  | underway => exact Act.mute_nil
  | begins =>
      unfold beginCheck
      refine Act.Mute.append ?_ (Act.mute_ofNotes _)
      split
      · exact Act.mute_nil.cons_call _
      · exact Act.mute_nil

theorem mute_look (t : TextEntry) : Act.Mute t.look.1 := by
  have hlooks := looks_look t
  generalize t.answer = answer at hlooks
  generalize t.look = found at hlooks ⊢
  cases hlooks with
  | idle => exact Act.mute_nil
  | silent => exact Act.mute_nil
  | fails => exact Act.mute_nil.cons_call _
  | answers => exact (mute_display _ _).cons_call _

theorem mute_handle (t : TextEntry) (e : Control.Event) : Act.Mute (t.handle e).1 := by
  unfold handle
  split
  · simp only
    split
    · exact mute_judge _
    · refine Act.Mute.append ?_ (mute_display _ _)
      split
      · exact Act.mute_nil.cons_call _
      · exact Act.mute_nil
  · rw [← TextEntry.handle, t.handle_accept.1]
    exact mute_judge t
  · exact Act.mute_nil

end TextEntry

/-- No report is among what is noted of the batches. -/
def Batches.Mute (batches : List Batch) : Prop :=
  ∀ b ∈ batches, ∀ e ∈ b.notes, e.report? = none

/-- No report is among what is noted when the items are loaded. -/
def ItemSource.Mute : ItemSource → Prop
  | .fixed _ => True
  | .lazy load => (∀ e ∈ load.notes, e.report? = none) ∧ Batches.Mute load.batches

namespace PickList

/-- Loading the items of the list tells the observer nothing. -/
structure Mute (l : PickList) : Prop where
  source : l.source.Mute
  loading : ∀ batches ending, l.loading = some (batches, ending) → Batches.Mute batches

variable {l : PickList} {w : Wording}

theorem Mute.of_idle (h : l.source.Mute) (hidle : l.loading = none) : l.Mute := by
  refine ⟨h, fun batches ending hloading => ?_⟩
  rw [hidle] at hloading
  exact absurd hloading (by simp)

theorem Mute.of_loading {batches : List Batch} {ending : Delay} (h : l.source.Mute)
    (hloading : l.loading = some (batches, ending)) (hbatches : Batches.Mute batches) :
    l.Mute := by
  refine ⟨h, fun batches' ending' hloading' => ?_⟩
  rw [hloading, Option.some.injEq, Prod.mk.injEq] at hloading'
  exact hloading'.1 ▸ hbatches

theorem mute_render (l : PickList) (finished : Bool) : Act.Mute (l.render w finished).1 := by
  unfold render
  split
  · exact Act.mute_nil.cons_call _
  · exact Act.mute_nil.cons_call _

theorem Mute.render (h : l.Mute) (finished : Bool) : (l.render w finished).2.Mute := by
  unfold PickList.render
  split
  · exact ⟨h.source, h.loading⟩
  · exact ⟨h.source, h.loading⟩

theorem Mute.finishLoading (h : l.Mute) :
    Act.Mute (l.finishLoading w).1 ∧ (l.finishLoading w).2.Mute := by
  have hl : Mute { l with loading := none } := .of_idle h.source rfl
  exact ⟨((mute_render _ true).cons_call _).cons_call _, hl.render true⟩

theorem Mute.start (h : l.Mute) : Act.Mute (l.start w).1 ∧ (l.start w).2.Mute := by
  have hsource := h.source
  unfold PickList.start
  split
  · rename_i items _
    have hl : Mute { l with items } := ⟨h.source, h.loading⟩
    exact ⟨mute_render _ true, hl.render true⟩
  · rename_i load hlazy
    rw [hlazy] at hsource
    exact ⟨(Act.mute_entries hsource.1).append ((Act.mute_nil.cons_call _).cons_call _),
      .of_loading h.source rfl hsource.2⟩

/-- The induction is on the batches that are left. -/
theorem Mute.takeIn {batches : List Batch} (ending : Delay) (hbatches : Batches.Mute batches) :
    ∀ {l : PickList}, l.Mute →
      Act.Mute (takeIn w ending batches l).1 ∧ (takeIn w ending batches l).2.1.Mute := by
  induction batches with
  | nil =>
      intro l h
      rw [PickList.takeIn]
      split
      · exact h.finishLoading
      · exact ⟨Act.mute_nil, .of_loading h.source rfl hbatches⟩
  | cons b rest ih =>
      intro l h
      have hnotes := Act.mute_entries (hbatches b List.mem_cons_self)
      have hrest : Batches.Mute rest := fun b hb => hbatches b (List.mem_cons_of_mem _ hb)
      rw [PickList.takeIn]
      split
      · simp only
        split
        · rename_i items _
          have hl : Mute { l with items := l.items ++ items, loading := some (rest, ending) } :=
            .of_loading h.source rfl hrest
          obtain ⟨hacts, hmute⟩ := ih hrest (hl.render false)
          exact ⟨(hnotes.append (mute_render _ false)).append hacts, hmute⟩
        · split
          · exact ⟨hnotes.append (h.finishLoading.1.cons_call _), h.finishLoading.2⟩
          · exact ⟨hnotes.append (Act.mute_nil.cons_call _), .of_idle h.source rfl⟩
      · refine ⟨Act.mute_nil, .of_loading h.source rfl ?_⟩
        exact List.forall_mem_cons.mpr ⟨hbatches b List.mem_cons_self, hrest⟩

theorem Mute.look (h : l.Mute) : Act.Mute (l.look w).1 ∧ (l.look w).2.1.Mute := by
  unfold PickList.look
  split
  · exact ⟨Act.mute_nil, h⟩
  · rename_i batches ending hloading
    exact Mute.takeIn ending (h.loading batches ending hloading) h

end PickList

namespace Content

/-- What the content loads tells the observer nothing. -/
def Mute : Content → Prop
  | text _ => True
  | list l => l.Mute

variable {c : Content}

theorem Mute.restore (h : c.Mute) (a : Attempt Json) : (c.restore a).Mute := by
  rcases c with t | l
  · trivial
  · show (l.restore a).Mute
    unfold PickList.restore
    split
    · exact ⟨h.source, h.loading⟩
    · exact h
    · exact ⟨h.source, h.loading⟩

theorem Mute.copy (h : c.Mute) : c.copy.Mute := by
  rcases c with t | l
  · trivial
  · exact PickList.Mute.of_idle (l := l.copy) h.source rfl

theorem Mute.start (h : c.Mute) (w : Wording) (chrome : Chrome) :
    Act.Mute (c.start w chrome).1 ∧ (c.start w chrome).2.Mute := by
  rcases c with t | l
  · exact ⟨t.mute_start, trivial⟩
  · have hl : PickList.Mute { l with placeholder := chrome.placeholder } := ⟨h.source, h.loading⟩
    exact hl.start

theorem Mute.look (h : c.Mute) (w : Wording) : Act.Mute (c.look w).1 ∧ (c.look w).2.1.Mute := by
  rcases c with t | l
  · exact ⟨t.mute_look, trivial⟩
  · exact PickList.Mute.look h

theorem Mute.handle (h : c.Mute) (e : Control.Event) :
    Act.Mute (c.handle e).1 ∧ (c.handle e).2.1.Mute := by
  rcases c with t | l
  · exact ⟨t.mute_handle e, trivial⟩
  · refine ⟨Act.mute_nil, ?_⟩
    show (l.handle e).1.Mute
    unfold PickList.handle
    split
    · exact ⟨h.source, h.loading⟩
    · exact h
    · exact h

end Content

/-! ## Screens -/

namespace Screen

variable {s : Screen} {w : Session} {id n : Nat}

/-- What a turn leaves: a mute content, and nothing told. -/
def Turn.Mute (w : Session) : Turn → Prop
  | .stays s w' => s.content.Mute ∧ w.Hushed w'
  | .ends _ _ w' => w.Hushed w'

theorem mute_handle (h : s.content.Mute) (e : Control.Event) :
    Act.Mute (s.handle e).1 ∧ (s.handle e).2.1.content.Mute := by
  have hhandled := s.handled_handle e
  generalize s.handle e = handled at hhandled ⊢
  cases hhandled with
  | hides | misses => exact ⟨Act.mute_nil, h⟩
  | clicks => exact ⟨Act.mute_ofNotes _, h⟩
  | passes => exact h.handle e

theorem mute_react (h : s.content.Mute) {w₁ : Session} (hw : w.Hushed w₁) (id : Nat)
    (e : Control.Event) : (s.react id e w₁).Mute w := by
  obtain ⟨hacts, hmute⟩ := mute_handle h e
  have hperform := hw.trans (hushed_perform hacts id w₁)
  unfold react
  simp only
  split
  · exact ⟨hmute, hperform⟩
  · exact hperform
  · exact hperform

theorem mute_turn (h : s.content.Mute) (id : Nat) (w : Session) : (s.turn id w).Mute w := by
  obtain ⟨hacts, hmute⟩ := h.look s.wording
  let looked : Screen := { s with content := (s.content.look s.wording).2.1 }
  have hlooked := hushed_perform hacts id w
  have hnext := hlooked.trans (Session.hushed_next id _)
  unfold turn
  simp only
  split
  · exact hlooked
  · exact mute_react (s := looked) hmute hlooked id .accept
  · split
    · rename_i heq
      rw [heq] at hnext
      exact mute_react (s := looked) hmute hnext id _
    · rename_i heq
      rw [heq] at hnext
      exact ⟨hmute, hnext⟩
    · rename_i heq
      rw [heq] at hnext
      split
      · exact hnext
      · exact ⟨hmute, hnext⟩

theorem hushed_converse (h : s.content.Mute) (id n : Nat) (w : Session) :
    w.Hushed (s.converse id n w).2.2 := by
  induction n generalizing s w with
  | zero => exact w.hushed_refl
  | succ n ih =>
      have hturn := mute_turn h id w
      rw [converse]
      split
      · rename_i heq
        rw [heq] at hturn
        exact hturn.2.trans (ih hturn.1 _)
      · rename_i heq
        rw [heq] at hturn
        exact hturn

/-- **Asking a screen** tells the observer nothing. -/
theorem hushed_ask (h : s.content.Mute) (n : Nat) (w : Session) : w.Hushed (s.ask n w).2.2 := by
  unfold ask appear
  by_cases hdisposed : s.disposed = true
  · rw [if_pos hdisposed]
    exact w.hushed_refl
  · rw [if_neg hdisposed]
    rcases s.control with _ | id
    · obtain ⟨hacts, hmute⟩ := h.start s.wording s.chrome
      let started : Screen := { s with
        control := some (w.make s.content.kind s.chrome).1
        content := (s.content.start s.wording s.chrome).2 }
      exact ((Session.hushed_make _ _ w).trans (hushed_perform (hacts.cons_call _) _ _)).trans
        (hushed_converse (s := started) hmute _ _ _)
    · exact (Session.hushed_call id _ w).trans (hushed_converse h id n _)

theorem hushed_dispose (s : Screen) (w : Session) : w.Hushed (s.dispose w).2 := by
  unfold dispose
  split
  · exact w.hushed_refl
  · split
    · exact Session.hushed_call _ _ w
    · exact w.hushed_refl

theorem hushed_place (s : Screen) (current total : Nat) (w : Session) :
    w.Hushed (s.place current total w).2 := by
  simp only [place]
  split
  · exact Session.hushed_call _ _ w
  · exact w.hushed_refl

/-- Being told of the place does not change what is shown. -/
theorem content_place (s : Screen) (current total : Nat) (w : Session) :
    (s.place current total w).1.content = s.content := by
  unfold place
  simp only
  split
  · rfl
  · rfl

end Screen

/-! ## Questions -/

/-- **A question that tells the observer nothing**: there is no form in it. -/
inductive Question.Mute : Question → Prop
  | screen {s : Screen} (content : s.content.Mute) : Mute (.screen s)
  | deck (id copy : Nat) (disposed : Bool) : Mute (.deck id copy disposed)
  | mapped {f : Json → Json} {inverse : Option (Json → Json)} {inner : Question}
    (mute : Mute inner) : Mute (.mapped f inverse inner)
  | twoTier {keys : Option Json → Session → Question × Session}
    {items : Json → Session → Question × Session} {recent : Option Json}
    {steps : Option (Nat × Nat)} (mute_keys : ∀ recent w, Mute (keys recent w).1)
    (hushed_keys : ∀ recent w, Session.Hushed w (keys recent w).2)
    (mute_items : ∀ key w, Mute (items key w).1)
    (hushed_items : ∀ key w, Session.Hushed w (items key w).2) :
    Mute (.twoTier keys items recent steps)
  | watched {label : String} {type : AnswerType} {inner : Question} (mute : Mute inner) :
    Mute (.watched label type inner)
  | failing (cause : Failure) : Mute (.failing cause)
  | unanswered : Mute .unanswered

namespace Question

theorem hushed_copy : ∀ (q : Question) (w : Session), w.Hushed (q.copy w).2
  | .screen _, w => w.hushed_refl
  | .deck id _ _, w => Session.hushed_onDeck id Deck.copy w
  | .mapped _ _ inner, w => inner.hushed_copy w
  | .twoTier .., w => w.hushed_refl
  | .nested .., w => w.hushed_refl
  | .watched label _ inner, w => (Session.hushed_used label .copied w).trans (inner.hushed_copy _)
  | .failing _, w => w.hushed_refl
  | .unanswered, w => w.hushed_refl

theorem hushed_restore : ∀ (a : Attempt Json) (q : Question) (w : Session),
    w.Hushed (q.restore a w).2
  | _, .screen _, w => w.hushed_refl
  | a, .deck id _ _, w => Session.hushed_onDeck id (fun d => d.restore a) w
  | _, .mapped _ none _, w => w.hushed_refl
  | a, .mapped _ (some g) inner, w => inner.hushed_restore (a.map g) w
  | _, .twoTier .., w => w.hushed_refl
  | _, .nested .., w => by
      rw [restore]
      split
      · exact w.hushed_refl
      · exact w.hushed_refl
  | a, .watched label type inner, w =>
      (Session.hushed_used label (.restored ⟨type.shown a.value, a.error⟩) w).trans
        (inner.hushed_restore a _)
  | _, .failing _, w => w.hushed_refl
  | _, .unanswered, w => w.hushed_refl

theorem hushed_place (current total : Nat) :
    ∀ (q : Question) (w : Session), w.Hushed (q.place current total w).2
  | .screen s, w => s.hushed_place current total w
  | .deck id _ _, w => Session.hushed_onDeck id (fun d => d.place current total) w
  | .mapped _ _ inner, w => inner.hushed_place current total w
  | .twoTier .., w => w.hushed_refl
  | .nested .., w => w.hushed_refl
  | .watched label _ inner, w =>
      (Session.hushed_used label (.placed current total) w).trans
        (inner.hushed_place current total _)
  | .failing _, w => w.hushed_refl
  | .unanswered, w => w.hushed_refl

theorem hushed_dispose : ∀ (q : Question) (w : Session), w.Hushed (q.dispose w).2
  | .screen s, w => s.hushed_dispose w
  | .deck id copy disposed, w => by
      unfold dispose
      split
      · exact w.hushed_refl
      · exact Session.hushed_onDeck id (fun d => d.dispose copy) w
  | .mapped _ _ inner, w => inner.hushed_dispose w
  | .twoTier .., w => w.hushed_refl
  | .nested .., w => w.hushed_refl
  | .watched label _ inner, w =>
      (Session.hushed_used label .disposed w).trans (inner.hushed_dispose _)
  | .failing _, w => w.hushed_refl
  | .unanswered, w => w.hushed_refl

theorem hushed_drop : ∀ (q : Question) (w : Session), w.Hushed (q.drop w)
  | .screen s, w => s.hushed_dispose w
  | .deck .., w => w.hushed_refl
  | .mapped _ _ inner, w => inner.hushed_drop w
  | .twoTier .., w => w.hushed_refl
  | .nested .., w => w.hushed_refl
  | .watched _ _ inner, w => inner.hushed_drop w
  | .failing _, w => w.hushed_refl
  | .unanswered, w => w.hushed_refl

theorem hushed_release {α : Type} (out : Outcome α) (q : Question) (w : Session) :
    w.Hushed (releaseTier out q w) := by
  unfold releaseTier
  split
  · exact q.hushed_drop w
  · exact q.hushed_dispose w

namespace Mute

variable {q : Question}

theorem copy (h : q.Mute) (w : Session) : (q.copy w).1.Mute := by
  induction h generalizing w with
  | screen content => exact .screen content.copy
  | deck => exact .deck ..
  | mapped _ ih => exact .mapped (ih w)
  | twoTier mute_keys hushed_keys mute_items hushed_items =>
      exact .twoTier mute_keys hushed_keys mute_items hushed_items
  | @watched label _ _ _ ih => exact .watched (ih _)
  | failing cause => exact .failing cause
  | unanswered => exact .unanswered

theorem restore (h : q.Mute) (a : Attempt Json) (w : Session) : (q.restore a w).1.Mute := by
  induction h generalizing a w with
  | screen content => exact .screen (content.restore a)
  | deck => exact .deck ..
  | @mapped f inverse inner mute ih =>
      rcases inverse with _ | g
      · exact .mapped mute
      · exact .mapped (ih (a.map g) w)
  | twoTier mute_keys hushed_keys mute_items hushed_items =>
      exact .twoTier mute_keys hushed_keys mute_items hushed_items
  | watched _ ih => exact .watched (ih a _)
  | failing cause => exact .failing cause
  | unanswered => exact .unanswered

theorem place (h : q.Mute) (current total : Nat) (w : Session) :
    (q.place current total w).1.Mute := by
  induction h generalizing w with
  | @screen s content =>
      have hplaced : (s.place current total w).1.content.Mute := by
        rw [Screen.content_place]
        exact content
      exact .screen hplaced
  | deck => exact .deck ..
  | mapped _ ih => exact .mapped (ih w)
  | twoTier mute_keys hushed_keys mute_items hushed_items =>
      exact .twoTier mute_keys hushed_keys mute_items hushed_items
  | watched _ ih => exact .watched (ih _)
  | failing cause => exact .failing cause
  | unanswered => exact .unanswered

theorem prepareTier (h : q.Mute) (steps : Option (Nat × Nat)) (w : Session) :
    (prepareTier steps q w).1.Mute := by
  unfold Interview.prepareTier
  split
  · exact h.place _ _ w
  · exact h

end Mute

theorem hushed_prepareTier (steps : Option (Nat × Nat)) (q : Question) (w : Session) :
    w.Hushed (prepareTier steps q w).2 := by
  unfold prepareTier
  split
  · exact q.hushed_place _ _ w
  · exact w.hushed_refl

/-! ## Asking -/

/-- Asking mute questions with this bound tells the observer nothing. -/
def AsksHushed (n : Nat) : Prop :=
  ∀ q : Question, q.Mute → ∀ w : Session, w.Hushed (q.ask n w).2.2

variable {n : Nat}

/-- A tier is made, asked and released. -/
theorem hushed_tier (h : AsksHushed n) {make : Session → Question × Session}
    (hmute : ∀ w, (make w).1.Mute) (hhushed : ∀ w : Session, w.Hushed (make w).2)
    (steps : Option (Nat × Nat)) (w : Session) :
    let q := prepareTier steps (make w).1 (make w).2
    let asked := q.1.ask n q.2
    w.Hushed (releaseTier asked.1 asked.2.1 asked.2.2) := by
  have hready := (hhushed w).trans (hushed_prepareTier steps (make w).1 (make w).2)
  have hasked := h _ ((hmute w).prepareTier steps (make w).2)
  exact (hready.trans (hasked _)).trans (hushed_release _ _ _)

/-- The tiers are asked one after the other, and again after going back from the second. -/
theorem hushed_askTiers {keys : Option Json → Session → Question × Session}
    {items : Json → Session → Question × Session} (mute_keys : ∀ recent w, (keys recent w).1.Mute)
    (hushed_keys : ∀ recent (w : Session), w.Hushed (keys recent w).2)
    (mute_items : ∀ key w, (items key w).1.Mute)
    (hushed_items : ∀ key (w : Session), w.Hushed (items key w).2)
    (h : ∀ m < n, AsksHushed m) (recent : Option Json) (steps : Option (Nat × Nat))
    (w : Session) : w.Hushed (askTiers n keys items recent steps w).2.2 := by
  induction n generalizing recent w with
  | zero => exact w.hushed_refl
  | succ n ih =>
      have htier := h n (Nat.lt_succ_self n)
      have hfirst := hushed_tier htier (mute_keys recent) (hushed_keys recent) steps w
      rw [askTiers]
      simp only
      split
      · rename_i key _
        have hsecond := hushed_tier htier (mute_items key) (hushed_items key) steps
        split
        · exact hfirst.trans (hsecond _)
        · have hagain := ih (fun m hm => h m (Nat.lt_succ_of_lt hm)) (some key)
          exact (hfirst.trans (hsecond _)).trans (hagain _)
        · exact hfirst.trans (hsecond _)
      · exact hfirst

/-- **Asking a mute question tells the observer nothing.** The induction is on the bound. -/
theorem Mute.hushed_ask {q : Question} (h : q.Mute) (n : Nat) (w : Session) :
    w.Hushed (q.ask n w).2.2 := by
  induction n using Nat.strongRecOn generalizing q w with
  | ind n ih =>
      rcases n with _ | n
      · exact w.hushed_refl
      · cases h with
        | screen content => exact Screen.hushed_ask content n w
        | deck id copy disposed => exact Session.hushed_draw id copy w
        | mapped mute => exact ih n (Nat.lt_succ_self n) mute w
        | @twoTier keys items recent steps mute_keys hushed_keys mute_items hushed_items =>
            have h : ∀ m < n, AsksHushed m := fun m hm _ mute w =>
              ih m (Nat.lt_succ_of_lt hm) mute w
            exact hushed_askTiers mute_keys hushed_keys mute_items hushed_items h recent steps w
        | @watched label type inner mute =>
            have hasked := ih n (Nat.lt_succ_self n) mute (w.emit [.used label .asked])
            exact ((Session.hushed_used label .asked w).trans hasked).trans
              (Session.hushed_replied ..)
        | failing cause => exact w.hushed_refl
        | unanswered => exact w.hushed_refl

end Question

end Interview
