import Interview.Conduct
import Interview.Proofs.Answers.Contents
import Interview.Proofs.Turns
/-
Screens that answer, before a user whose events are written down.

The host of a rehearsal gives each control a script, and at the end of its script a control
hides. A screen with a calm content and with no other buttons than those that go back then
always comes to a reply, and soon: a turn either takes an event or redeems an acceptance that
had to wait, and only one can wait at a time. Twice the events and one are therefore a measure
that every turn decreases (`measure`). A screen whose script is empty is cancelled.
-/

set_option autoImplicit false

namespace Interview

open Control (Event)

/-! ## Rehearsed controls -/

/-- The control has these events left, and the host is this one. -/
structure Session.Plays (w : Session) (id : Nat) (events : List Event) (host : Host) : Prop where
  device : w.devices[id]? = some (.scripted events)
  host_eq : w.host = host

namespace Session

variable {w : Session} {id : Nat} {events : List Event} {host : Host}

theorem Plays.emit (h : w.Plays id events host) (es : List Entry) :
    (w.emit es).Plays id events host :=
  ⟨h.device, h.host_eq⟩

theorem Plays.call (h : w.Plays id events host) (c : Control.Call) :
    (w.call id c).Plays id events host := by
  have hdevice : (w.emit [.called id c]).devices[id]? = some (.scripted events) := h.device
  refine ⟨(List.getElem?_modify_eq _ _ _).trans ?_, h.host_eq⟩
  rw [hdevice]
  rfl

theorem Plays.perform (h : w.Plays id events host) (acts : List Act) :
    (Screen.perform id acts w).Plays id events host := by
  induction acts generalizing w with
  | nil => exact h
  | cons a acts ih =>
      rcases a with c | e
      · exact ih (h.call c)
      · exact ih (h.emit [e])

/-- A control takes the next script of the host. -/
theorem plays_make {scripts : List (List Event)} (h : w.host = .rehearsal scripts)
    (kind : Control.Kind) (chrome : Chrome) :
    (w.make kind chrome).2.Plays (w.make kind chrome).1 (scripts.headD [])
      (.rehearsal scripts.tail) := by
  rcases scripts with _ | ⟨script, rest⟩
  · constructor
    · simp [make, emit, h]
    · simp [make, emit, h]
  · constructor
    · simp [make, emit, h]
    · simp [make, emit, h]

/-- The next event is the first one that is left, or hiding. -/
theorem Plays.next (h : w.Plays id events host) :
    ∃ w', w.next id = (.event (events.headD .hide), w') ∧ w'.Plays id events.tail host := by
  rcases events with _ | ⟨e, rest⟩
  · refine ⟨w.emit [.handed id .hide], ?_, h.emit _⟩
    simp only [Session.next, h.device, List.headD_nil]
  · refine ⟨Session.emit [.handed id e] { w with devices := w.devices.set id (.scripted rest) }, ?_,
      ?_⟩
    · simp only [Session.next, h.device, List.headD_cons]
    · refine ⟨?_, h.host_eq⟩
      obtain ⟨hlt, -⟩ := List.getElem?_eq_some_iff.mp h.device
      exact List.getElem?_set_self hlt

end Session

/-! ## Contents -/

variable {R : Json → Prop}

/-- A reply that is not an answer, or an answer with a property. -/
def Reply.Fits (R : Json → Prop) : Reply Json → Prop
  | .value v => R v
  | .back => True
  | .cancel => True

namespace Content

/-- A calm content whose answers have a property. -/
def Calm (R : Json → Prop) : Content → Prop
  | text t => ∃ refuse, t.Calm refuse ∧ ∀ s, refuse s = none → R (.text s)
  | list l => ∃ items, l.Calm items ∧ ∀ i ∈ items, R i.data

/-- Whether an acceptance waits. -/
def waits : Content → Bool
  | text t => t.acceptWaits
  | list _ => false

variable {c : Content}

theorem Calm.copy (h : c.Calm R) : c.copy.Calm R ∧ c.copy.waits = false := by
  rcases c with t | l
  · obtain ⟨refuse, ht, hR⟩ := h
    exact ⟨⟨refuse, ht.copy, hR⟩, rfl⟩
  · obtain ⟨items, hl, hR⟩ := h
    exact ⟨⟨items, hl.copy, hR⟩, rfl⟩

theorem Calm.restore (h : c.Calm R) (a : Attempt Json) :
    (c.restore a).Calm R ∧ (c.restore a).waits = false := by
  rcases c with t | l
  · obtain ⟨refuse, ht, hR⟩ := h
    exact ⟨⟨refuse, ht.restore a, hR⟩, rfl⟩
  · obtain ⟨items, hl, hR⟩ := h
    exact ⟨⟨items, hl.restore a, hR⟩, rfl⟩

theorem Calm.start (h : c.Calm R) (w : Wording) (chrome : Chrome) :
    (c.start w chrome).2.Calm R ∧ (c.start w chrome).2.waits = c.waits := by
  rcases c with t | l
  · obtain ⟨refuse, ht, hR⟩ := h
    exact ⟨⟨refuse, ht.start, hR⟩, t.acceptWaits_start⟩
  · obtain ⟨items, hl, hR⟩ := h
    have hl' : PickList.Calm items { l with placeholder := chrome.placeholder } :=
      ⟨hl.source, hl.many, hl.loading, hl.items_sub⟩
    exact ⟨⟨items, hl'.start w, hR⟩, rfl⟩

theorem Calm.handle (h : c.Calm R) (e : Event) :
    (c.handle e).2.1.Calm R ∧ ∀ r, (c.handle e).2.2 = some r → r.Fits R := by
  rcases c with t | l
  · obtain ⟨refuse, ht, hR⟩ := h
    obtain ⟨hcalm, hreply⟩ := ht.handle e
    refine ⟨⟨refuse, hcalm, hR⟩, fun r hr => ?_⟩
    obtain ⟨s, rfl, hs⟩ := hreply r hr
    exact hR s hs
  · obtain ⟨items, hl, hR⟩ := h
    obtain ⟨hcalm, hreply⟩ := hl.handle e
    refine ⟨⟨items, hcalm, hR⟩, fun r hr => ?_⟩
    rcases hreply r hr with rfl | ⟨i, hi, rfl⟩
    · trivial
    · exact hR i hi

/-- **A look never fails.** It redeems an acceptance only if one waited, and then none waits once
the acceptance was handled. -/
theorem Calm.look (h : c.Calm R) (w : Wording) :
    (c.look w).2.1.Calm R ∧
      ((c.look w).2.2 = .await ∨
        ((c.look w).2.2 = .replay ∧ c.waits = true ∧
          ((c.look w).2.1.handle .accept).2.1.waits = false)) := by
  rcases c with t | l
  · obtain ⟨refuse, ht, hR⟩ := h
    obtain ⟨hcalm, hfound⟩ := ht.look
    refine ⟨⟨refuse, hcalm, hR⟩, ?_⟩
    rcases hfound with ⟨hawait, -⟩ | ⟨hreplay, hwaits, hidle, verdict, hchecked⟩
    · exact Or.inl hawait
    · exact Or.inr ⟨hreplay, hwaits, hcalm.acceptWaits_handle hidle hchecked⟩
  · obtain ⟨items, hl, hR⟩ := h
    obtain ⟨hcalm, hawait⟩ := hl.look w
    exact ⟨⟨items, hcalm, hR⟩, Or.inl hawait⟩

end Content

/-! ## Screens -/

namespace Screen

/-- A screen that was not asked yet, with a calm content and no buttons but those that go back. -/
structure Answers (R : Json → Prop) (s : Screen) : Prop where
  calm : s.content.Calm R
  waits : s.content.waits = false
  control : s.control = none
  disposed : s.disposed = false
  back : ∀ b ∈ s.buttons, b.click = .ok (some .back)

variable {s : Screen} {w : Session} {id : Nat} {events : List Event} {host : Host}

theorem Answers.copy (h : s.Answers R) : s.copy.Answers R :=
  ⟨h.calm.copy.1, h.calm.copy.2, rfl, rfl, h.back⟩

theorem Answers.restore (h : s.Answers R) (a : Attempt Json) : (s.restore a).Answers R :=
  ⟨(h.calm.restore a).1, (h.calm.restore a).2, h.control, h.disposed, h.back⟩

/-- A screen without a control is given its place without anything happening. -/
theorem Answers.place (h : s.Answers R) (current total : Nat) (w : Session) :
    (s.place current total w).1.Answers R ∧ (s.place current total w).2 = w := by
  have hplace : s.place current total w = ({ s with steps := some (current, total) }, w) := by
    simp only [Screen.place, h.control]
    split
    · exact absurd ‹none = some _› (by simp)
    · rfl
  rw [hplace]
  exact ⟨⟨h.calm, h.waits, h.control, h.disposed, h.back⟩, rfl⟩

/-- A list answers with the data of its items. -/
theorem answers_of_list {l : PickList} {items : List Item} (hcontent : s.content = .list l)
    (hl : l.Calm items) (hR : ∀ i ∈ items, R i.data) (hcontrol : s.control = none)
    (hdisposed : s.disposed = false) (hback : ∀ b ∈ s.buttons, b.click = .ok (some .back)) :
    s.Answers R := by
  refine ⟨?_, ?_, hcontrol, hdisposed, hback⟩
  · rw [hcontent]
    exact ⟨items, hl, hR⟩
  · rw [hcontent]
    rfl

/-- A line of text answers with the texts that its validator does not refuse. -/
theorem answers_of_text {refuse : String → Option String} (value : String)
    (hcontent : s.content = .text { TextEntry.new with
      value, validator := some fun _ s => .now (refuse s) })
    (hR : ∀ s, refuse s = none → R (.text s)) (hcontrol : s.control = none)
    (hdisposed : s.disposed = false) (hback : ∀ b ∈ s.buttons, b.click = .ok (some .back)) :
    s.Answers R := by
  refine ⟨?_, ?_, hcontrol, hdisposed, hback⟩
  · rw [hcontent]
    exact ⟨refuse, TextEntry.calm_new value, hR⟩
  · rw [hcontent]
    rfl

/-- The button that goes back is the only one of a screen made with it. -/
theorem click_of_mem_back {w : Wording} {b : Button} (h : b ∈ [Button.back (some w.back)]) :
    b.click = .ok (some .back) :=
  List.mem_singleton.mp h ▸ rfl

/-- A screen in the middle of being asked. -/
structure Open (R : Json → Prop) (s : Screen) : Prop where
  calm : s.content.Calm R
  back : ∀ b ∈ s.buttons, b.click = .ok (some .back)

/-- **The measure of a conversation**: at least the turns that are left. -/
def measure (s : Screen) (events : List Event) : Nat :=
  2 * events.length + (if s.content.waits then 1 else 0)

/-- What a turn comes to: a reply that fits, or a screen that is still open, with a smaller
measure. -/
def Turn.Answers (R : Json → Prop) (id : Nat) (host : Host) (bound : Nat) : Turn → Prop
  | .ends o _ w => (∃ r, o = .done r ∧ r.Fits R) ∧ w.host = host
  | .stays s w => ∃ events, s.Open R ∧ w.Plays id events host ∧ s.measure events < bound

/-- An event leads to a reply that fits, or leaves the screen open. Hiding never does the latter. -/
theorem Open.handle (h : s.Open R) (e : Event) :
    (s.handle e).2.1.Open R ∧
      (((s.handle e).2.2 = .stay ∧ e ≠ .hide) ∨
        ∃ r, (s.handle e).2.2 = .settle r ∧ r.Fits R) := by
  have hhandled := s.handled_handle e
  generalize s.handle e = handled at hhandled ⊢
  cases hhandled with
  | hides => exact ⟨h, Or.inr ⟨.cancel, rfl, trivial⟩⟩
  | misses => exact ⟨h, Or.inl ⟨rfl, by simp⟩⟩
  | @clicks i b hb =>
    simp only [h.back b (List.mem_of_getElem? hb)]
    exact ⟨h, Or.inr ⟨.back, rfl, trivial⟩⟩
  | passes hhide =>
    obtain ⟨hcalm, hreply⟩ := h.calm.handle e
    refine ⟨⟨hcalm, h.back⟩, ?_⟩
    rcases hr : (s.content.handle e).2.2 with _ | r
    · exact Or.inl ⟨rfl, hhide⟩
    · exact Or.inr ⟨r, rfl, hreply r hr⟩

theorem Open.react (h : s.Open R) (hw : w.Plays id events host) (e : Event) {bound : Nat}
    (hbound : e ≠ .hide → (s.handle e).2.1.measure events < bound) :
    (s.react id e w).Answers R id host bound := by
  obtain ⟨hopen, hflow⟩ := h.handle e
  have hplays := hw.perform (s.handle e).1
  unfold Screen.react
  rcases hflow with ⟨hstay, hne⟩ | ⟨r, hsettle, hr⟩
  · simp only [hstay]
    exact ⟨events, hopen, hplays, hbound hne⟩
  · simp only [hsettle]
    exact ⟨⟨r, rfl, hr⟩, hplays.host_eq⟩

theorem measure_le (s : Screen) (events : List Event) :
    s.measure events ≤ 2 * events.length + 1 := by
  unfold measure
  split
  · omega
  · omega

/-- **One turn** ends with a reply that fits, or decreases the measure. -/
theorem Open.turn (h : s.Open R) (hw : w.Plays id events host) :
    (s.turn id w).Answers R id host (s.measure events) := by
  obtain ⟨hcalm, hfound⟩ := h.calm.look s.wording
  let looked : Screen := { s with content := (s.content.look s.wording).2.1 }
  have hopen : looked.Open R := ⟨hcalm, h.back⟩
  have hplays := hw.perform (s.content.look s.wording).1
  unfold Screen.turn
  simp only
  rcases hfound with hawait | ⟨hreplay, hwaits, hidle⟩
  · -- an event is taken, or the control hides
    obtain ⟨w', hnext, hw'⟩ := hplays.next
    simp only [hawait, hnext]
    refine hopen.react hw' _ fun hne => ?_
    rcases events with _ | ⟨e, rest⟩
    · exact absurd rfl hne
    · have hle := measure_le (looked.handle e).2.1 rest
      have hge : 2 * (e :: rest).length ≤ s.measure (e :: rest) := Nat.le_add_right _ _
      simp only [List.headD_cons, List.tail_cons, List.length_cons] at hge ⊢
      omega
  · -- the acceptance that waited is redeemed
    simp only [hreplay]
    refine hopen.react hplays .accept fun _ => ?_
    have hcontent : (looked.handle .accept).2.1.content =
        (looked.content.handle .accept).2.1 := rfl
    rw [measure, measure, hcontent, hidle, hwaits]
    simp

/-! ## Being asked -/

/-- **A conversation** comes to a reply that fits, unless its turns run out; with more turns than
the measure they do not. -/
theorem Open.converse {n : Nat} (h : s.Open R) (hw : w.Plays id events host) :
    (s.converse id n w).2.2.host = host ∧
      ((s.converse id n w).1 = .exhausted ∧ n ≤ s.measure events ∨
        ∃ r, (s.converse id n w).1 = .done r ∧ r.Fits R) := by
  induction n generalizing s w events with
  | zero => exact ⟨hw.host_eq, Or.inl ⟨rfl, Nat.zero_le _⟩⟩
  | succ n ih =>
      have hturn := h.turn hw
      rw [Screen.converse]
      rcases heq : s.turn id w with ⟨s', w'⟩ | ⟨o, s', w'⟩
      · rw [heq] at hturn
        obtain ⟨events', hopen, hplays, hlt⟩ := hturn
        obtain ⟨hhost, hdone⟩ := ih hopen hplays
        refine ⟨hhost, ?_⟩
        rcases hdone with ⟨hexhausted, hle⟩ | hdone
        · exact Or.inl ⟨hexhausted, Nat.le_trans (Nat.succ_le_succ hle) hlt⟩
        · exact Or.inr hdone
      · -- the turn ended the conversation
        rw [heq] at hturn
        obtain ⟨hdone, hhost⟩ := hturn
        exact ⟨hhost, Or.inr hdone⟩

/-- Without events, the first turn cancels. -/
theorem Open.converse_nil {n : Nat} (h : s.Open R) (hwaits : s.content.waits = false)
    (hw : w.Plays id [] host) : (s.converse id (n + 1) w).1 = .done .cancel := by
  obtain ⟨-, hfound⟩ := h.calm.look s.wording
  obtain ⟨w', hnext, -⟩ := (hw.perform (s.content.look s.wording).1).next
  have hawait : (s.content.look s.wording).2.2 = .await := by
    rcases hfound with hawait | ⟨-, hw, -⟩
    · exact hawait
    · rw [hwaits] at hw
      exact absurd hw (by simp)
  rw [Screen.converse, Screen.turn]
  simp only [hawait, hnext]
  rfl

/-- What being asked comes to, when the host has these scripts: the turns run out, because they were
too few, or there is a reply that fits, and one script is used up. A user without scripts leaves. -/
def Asked (R : Json → Prop) (scripts : List (List Event)) (n : Nat)
    (x : Outcome (Reply Json) × Session) : Prop :=
  (x.1 = .exhausted ∧ n ≤ 2 * (scripts.headD []).length + 1) ∨
    ∃ r, x.1 = .done r ∧ r.Fits R ∧ (scripts = [] → r = .cancel) ∧
      x.2.host = .rehearsal scripts.tail

/-- **A screen that is asked** comes to a reply that fits. -/
theorem Answers.ask (h : s.Answers R) {scripts : List (List Event)}
    (hw : w.host = .rehearsal scripts) (n : Nat) :
    Asked R scripts n ((s.ask n w).1, (s.ask n w).2.2) := by
  obtain ⟨hcalm, hwaits⟩ := h.calm.start s.wording s.chrome
  rw [h.waits] at hwaits
  have hplays := (Session.plays_make hw s.content.kind s.chrome).perform
    (.call .makeVisible :: (s.content.start s.wording s.chrome).1)
  let s' : Screen := { s with
    control := some (w.make s.content.kind s.chrome).1
    content := (s.content.start s.wording s.chrome).2 }
  have hopen : s'.Open R := ⟨hcalm, h.back⟩
  have hask : s.ask n w = s'.converse (w.make s.content.kind s.chrome).1 n
      (perform (w.make s.content.kind s.chrome).1
        (.call .makeVisible :: (s.content.start s.wording s.chrome).1)
        (w.make s.content.kind s.chrome).2) := by
    unfold Screen.ask Screen.appear
    rw [if_neg (by simp [h.disposed]), h.control]
  obtain ⟨hhost, hdone⟩ := hopen.converse (n := n) hplays
  rw [hask]
  rcases hdone with ⟨hexhausted, hle⟩ | ⟨r, hdone, hr⟩
  · exact Or.inl ⟨hexhausted, Nat.le_trans hle (measure_le _ _)⟩
  · refine Or.inr ⟨r, hdone, hr, ?_, hhost⟩
    -- a user without scripts: the control hides in the first turn
    rintro rfl
    rcases n with _ | n
    · exact absurd hdone (by simp [Screen.converse])
    · rw [hopen.converse_nil hwaits hplays, Outcome.done.injEq] at hdone
      exact hdone.symm

end Screen

end Interview
