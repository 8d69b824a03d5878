import Interview.Proofs.Terminal.Lists
/-
Screens with a list on a terminal.

While a screen is asked, its list stays on show on its control, whatever the user and the source of
the items do (`Screen.Exhibits`). Between two times that it is asked a screen can be restored,
placed and disposed, and it can be copied, and other screens can use the terminal. None of this
takes the list off the control (`Screen.Listed.fits`), so what is shown of a screen that is asked
holds for every screen with a past.
-/

set_option autoImplicit false

namespace Interview

open Control (Event)

/-! ## Replies -/

namespace Terminal

variable {c : Terminal} {rows : List Row} {many : Bool}

theorem follow_list (events : List Event) :
    Content.follow (.list rows many) events = .list rows many := by
  induction events with
  | nil => rfl
  | cons e events ih => exact ih

/-- A reply to a list is a click, or a selection that is accepted. -/
theorem entered_list (buttons : List ButtonFace) (m : Move) (rows : List Row) (many : Bool) :
    ∃ e rest, entered buttons m (.list rows many) = e :: rest ∧ (rest = [] ∨ rest = [.accept]) := by
  rcases many with _ | _
  · simp only [entered, selectReply]
    split
    · exact ⟨_, _, rfl, Or.inl rfl⟩
    · exact ⟨_, _, rfl, Or.inr rfl⟩
  · simp only [entered, multiReply]
    split
    · exact ⟨_, _, rfl, Or.inl rfl⟩
    · exact ⟨_, _, rfl, Or.inr rfl⟩

/-- After its reply, a list has at most the acceptance left to hand out. -/
theorem finish_list (hc : c.content = .list rows many) (hqueued : c.queued = []) {m : Option Move}
    {o : Outcome} (ho : heard c.chrome.buttons c.content m = some o) :
    ∃ queued, (queued = [] ∨ queued = [.accept]) ∧
      (c.finish o).2.2 = { c with queued, inFlight := none } := by
  have hfailed : ∀ f : Fault, ∃ queued, (queued = [] ∨ queued = [Event.accept]) ∧
      (c.finish (.error f)).2.2 = { c with queued, inFlight := none } := by
    intro f
    refine ⟨[], Or.inl rfl, ?_⟩
    rw [(c.finish_error f).2, ← hqueued]
  have hreplied : ∀ (e : Event) (rest : List Event), rest = [] ∨ rest = [.accept] →
      ∃ queued, (queued = [] ∨ queued = [Event.accept]) ∧
        (c.finish (.ok (e :: rest))).2.2 = { c with queued, inFlight := none } := by
    intro e rest hrest
    refine ⟨rest, hrest, ?_⟩
    simp only [finish, hc, follow_list]
  rw [hc] at ho
  rcases m with _ | m
  · obtain rfl := Option.some.inj ho
    exact hfailed _
  · by_cases henters : m.enters = true
    · rw [heard, outcome?_of_enters henters] at ho
      obtain rfl := Option.some.inj ho
      obtain ⟨e, rest, heq, hrest⟩ := entered_list c.chrome.buttons m rows many
      rw [heq]
      exact hreplied e rest hrest
    · cases m with
      | pause => exact absurd ho (by simp [heard, outcome?])
      | interrupt =>
          obtain rfl := Option.some.inj ho
          exact hfailed _
      | leave =>
          obtain rfl := Option.some.inj ho
          exact hreplied _ _ (Or.inl rfl)
      | typed | secret | down | toggle => exact absurd rfl henters

end Terminal

/-! ## Screens with a list -/

namespace Screen

variable {made l : PickList} {c : Terminal} {base s : Screen} {w : Session} {id : Nat}

/-- The screen shows its list on a control, as it did when it was first asked. -/
structure Exhibits (base : Screen) (made : PickList) (id : Nat) (l : PickList) (c : Terminal)
    (s : Screen) (w : Session) : Prop where
  buttons : s.buttons = base.buttons
  wording : s.wording = base.wording
  disposed : s.disposed = false
  control : s.control = some id
  content : s.content = .list l
  shows : w.Shows id c
  faces : c.chrome.buttons = s.buttons.map Button.face
  onShow : PickList.OnShow s.wording made l c

/-- The screen shows its list on this control. -/
def Presents (base : Screen) (made : PickList) (id : Nat) (s : Screen) (w : Session) : Prop :=
  ∃ l c, Exhibits base made id l c s w

/-- Nothing but the state of the list and of the control changes while a screen is asked. -/
theorem Exhibits.change (h : Exhibits base made id l c s w) {l' : PickList} {c' : Terminal}
    {w' : Session} (hw : w'.Shows id c') (hbuttons : c'.chrome.buttons = c.chrome.buttons)
    (hc : PickList.OnShow s.wording made l' c') :
    Exhibits base made id l' c' { s with content := .list l' } w' :=
  ⟨h.buttons, h.wording, h.disposed, h.control, rfl, hw, hbuttons.trans h.faces, hc⟩

/-- The same for a control that changes alone. -/
theorem Exhibits.changeControl (h : Exhibits base made id l c s w) {c' : Terminal} {w' : Session}
    (hw : w'.Shows id c') (hbuttons : c'.chrome.buttons = c.chrome.buttons)
    (hc : PickList.OnShow s.wording made l c') : Exhibits base made id l c' s w' :=
  ⟨h.buttons, h.wording, h.disposed, h.control, h.content, hw, hbuttons.trans h.faces, hc⟩

/-! ### Events -/

/-- Whatever the event is, a screen with a list leaves notes at most, and only the list changes. -/
theorem exists_handle_list (hs : s.content = .list l) (e : Event) :
    ∃ notes l', (s.handle e).1 = Act.ofNotes notes ∧
      (s.handle e).2.1 = { s with content := .list l' } ∧ (l' = l ∨ l' = (l.handle e).1) := by
  have hsame : s = { s with content := .list l } := by rw [← hs]
  have hhandled := s.handled_handle e
  generalize s.handle e = handled at hhandled ⊢
  cases hhandled with
  | hides | misses => exact ⟨[], l, rfl, hsame, Or.inl rfl⟩
  | clicks => exact ⟨_, l, rfl, hsame, Or.inl rfl⟩
  | passes =>
    simp only [hs, Content.handle]
    exact ⟨[], (l.handle e).1, rfl, rfl, Or.inr rfl⟩

theorem Exhibits.react (h : Exhibits base made id l c s w) (e : Event) :
    (s.react id e w).After (Presents base made id) := by
  obtain ⟨notes, l', hacts, hscreen, hl⟩ := exists_handle_list h.content e
  have honShow : PickList.OnShow s.wording made l' c := by
    rcases hl with rfl | rfl
    · exact h.onShow
    · exact h.onShow.handle e
  have hshows := h.shows.perform (Act.ofNotes notes)
  rw [Terminal.obey_ofNotes] at hshows
  apply after_react
  rw [hacts, hscreen]
  exact ⟨l', c, h.change hshows rfl honShow⟩

/-! ### Turns -/

theorem Exhibits.look (h : Exhibits base made id l c s w) :
    Exhibits base made id (l.look s.wording).2.1 (c.obey (l.look s.wording).1) s.looked
      (perform id s.lookActs w) := by
  have hlooked : s.looked = { s with content := .list (l.look s.wording).2.1 } := by
    rw [looked, h.content]
    rfl
  have hacts : s.lookActs = (l.look s.wording).1 := by
    rw [lookActs, h.content]
    rfl
  rw [hlooked, hacts]
  exact h.change (h.shows.perform _) (c.buttons_obey _) h.onShow.look

/-- **Waiting for the control** of a list that is on show. -/
theorem Exhibits.await (h : Exhibits base made id l c s w) :
    (s.await id w).After (Presents base made id) := by
  have harrives := Session.arrives_next h.shows h.onShow.inUse
  obtain ⟨rows, hcontent, -⟩ := h.onShow.content
  unfold Screen.await
  generalize w.next id = next at harrives ⊢
  cases harrives with
  | @queued e rest w' hqueued hw' =>
      -- what is left of a reply is an acceptance at most, and nothing follows it
      have hrest : rest = [] := by
        rcases h.onShow.queued with hnone | hone
        · exact absurd (hqueued.symm.trans hnone) (by simp)
        · rw [hqueued, List.cons.injEq] at hone
          exact hone.2
      have hloading : l.loading = none := by
        by_contra hsome
        have hnone := (h.onShow.loading (Option.isSome_iff_ne_none.mpr hsome)).1
        exact absurd (hqueued.symm.trans hnone) (by simp)
      have honShow : PickList.OnShow s.wording made l { c with queued := rest } :=
        h.onShow.listening hloading (Or.inl hrest) h.onShow.inUse.inFlight
      exact (h.changeControl hw' rfl honShow).react e
  | rowsFirst =>
      simp only
      split
      · exact ⟨l, c, h⟩
      · exact ⟨l, c, h⟩
  | @nothing fault w' hturn hobstacle hw' =>
      have hloading := h.onShow.loading_of_asks (Or.inl hturn)
      have honShow : PickList.OnShow s.wording made l { c with inFlight := none } :=
        h.onShow.listening hloading h.onShow.queued (Or.inl rfl)
      exact (h.changeControl hw' rfl honShow).react .hide
  | @silent w' hasks hheard hw' =>
      have hloading := h.onShow.loading_of_asks hasks
      have honShow : PickList.OnShow s.wording made l c.begin :=
        h.onShow.listening hloading h.onShow.queued (Or.inr rfl)
      exact ⟨l, c.begin, h.changeControl hw' rfl honShow⟩
  | @finished o w' hasks hobstacle hheard hw' =>
      have hloading := h.onShow.loading_of_asks hasks
      have hqueued := (h.onShow.inUse.asks_iff.mp hasks).1
      obtain ⟨queued, hq, hfinish⟩ := Terminal.finish_list hcontent hqueued hheard
      have hclosed := hw'.close c c.content o
      rw [hfinish] at hclosed
      have honShow := h.onShow.listening hloading hq (Or.inl rfl)
      exact (h.changeControl hclosed rfl honShow).react _

/-- **One turn** keeps a list on show. -/
theorem Exhibits.turn (h : Exhibits base made id l c s w) :
    (s.turn id w).After (Presents base made id) := by
  have hlook := h.look
  rw [turn_eq]
  split
  · exact ⟨_, _, hlook⟩
  · exact hlook.react .accept
  · exact hlook.await

/-! ### What a screen has come to -/

/-- What a screen with a list can have come to in a session, before it is asked. -/
inductive Listed : Screen → Session → Prop
  /-- It was not asked yet. -/
  | fresh {s : Screen} {l : PickList} {w : Session} (content : s.content = .list l)
      (unshown : l.Unshown) (control : s.control = none) : Listed s w
  /-- It was asked on the terminal. -/
  | asked {s : Screen} {w : Session} (h : Listed s w) {colorful : Bool}
      {moves : List Terminal.Move} (host : w.host = .terminal colorful moves) (n : Nat) :
      Listed (s.ask n w).2.1 (s.ask n w).2.2
  /-- It was restored from an earlier attempt. -/
  | restored {s : Screen} {w : Session} (h : Listed s w) (a : Attempt Json) : Listed (s.restore a) w
  /-- It was copied. -/
  | copied {s : Screen} {w : Session} (h : Listed s w) : Listed s.copy w
  /-- It was told of its place. -/
  | placed {s : Screen} {w : Session} (h : Listed s w) (current total : Nat) :
      Listed (s.place current total w).1 (s.place current total w).2
  /-- It was disposed. -/
  | disposed {s : Screen} {w : Session} (h : Listed s w) : Listed (s.dispose w).1 (s.dispose w).2
  /-- Something happened elsewhere in the session. -/
  | elsewhere {s : Screen} {w w' : Session} (h : Listed s w)
      (same : ∀ id, s.control = some id → w'.devices[id]? = w.devices[id]?) : Listed s w'

/-- A screen with a list that was not shown yet, or that is on show, unless it was disposed. -/
structure Fits (l : PickList) (s : Screen) (w : Session) : Prop where
  content : s.content = .list l
  unshown : s.disposed = false → s.control = none → l.Unshown
  shown : s.disposed = false → ∀ id, s.control = some id → ∃ c, Exhibits s l id l c s w

theorem Exhibits.again (h : Exhibits base made id l c s w) : Exhibits s l id l c s w :=
  ⟨rfl, rfl, h.disposed, h.control, h.content, h.shows, h.faces, h.onShow.again⟩

theorem Exhibits.fits (h : Exhibits base made id l c s w) : Fits l s w where
  content := h.content
  unshown _ hcontrol := absurd (h.control.symm.trans hcontrol) (by simp)
  shown _ id' hcontrol := by
    obtain rfl : id = id' := Option.some.inj (h.control.symm.trans hcontrol)
    exact ⟨c, h.again⟩

/-- **A screen that appears has its list on show.** -/
theorem Fits.appear (h : Fits l s w) (hopen : s.disposed = false) {colorful : Bool}
    {moves : List Terminal.Move} (hw : w.host = .terminal colorful moves) :
    Presents s l (s.appear w).1 (s.appear w).2.1 (s.appear w).2.2 := by
  unfold Screen.appear
  rcases hcontrol : s.control with _ | id
  · -- the control is made, and the list is shown for the first time
    have hlist := h.unshown hopen hcontrol
    have hmade := Session.shows_make hw (.list l.many) s.chrome
    have hunshown : PickList.Unshown { l with placeholder := s.chrome.placeholder } :=
      ⟨hlist.items, hlist.loading, hlist.vacant⟩
    let started := PickList.start { l with placeholder := s.chrome.placeholder } s.wording
    have honShow : PickList.OnShow s.wording l started.2
        ((Terminal.new colorful (.list l.many) s.chrome).obey started.1) :=
      hunshown.start ⟨rfl, rfl, rfl⟩ ⟨rfl, rfl, rfl, _, rfl⟩ rfl rfl
    have hshows := hmade.perform (.call .makeVisible :: started.1)
    simp only [h.content, Content.kind, Content.start]
    exact ⟨_, _, rfl, rfl, hopen, rfl, rfl, hshows, Terminal.buttons_obey _ _, honShow⟩
  · obtain ⟨c, hc⟩ := h.shown hopen id hcontrol
    exact ⟨l, c, hc.changeControl (hc.shows.call .makeVisible) rfl hc.onShow⟩

/-- **A list stays on show while it is asked**, and at each of its stands. -/
theorem Fits.ask (h : Fits l s w) (hopen : s.disposed = false) {colorful : Bool}
    {moves : List Terminal.Move} (hw : w.host = .terminal colorful moves) (n : Nat) :
    Presents s l (s.appear w).1 (s.ask n w).2.1 (s.ask n w).2.2 ∧
      ∀ p ∈ s.askStands n w, Presents s l (s.appear w).1 p.screen p.session := by
  refine keeps_ask ?_ ?_ hopen (h.appear hopen hw)
  · rintro s' w' ⟨l, c, hc⟩
    exact ⟨_, _, hc.look⟩
  · rintro s' w' ⟨l, c, hc⟩
    exact hc.turn

theorem Fits.restore (h : Fits l s w) (a : Attempt Json) :
    Fits (l.restore a) (s.restore a) w where
  content := by rw [Screen.restore, h.content]; rfl
  unshown hopen hcontrol := (h.unshown hopen hcontrol).restore a
  shown hopen id hcontrol := by
    obtain ⟨c, hc⟩ := h.shown hopen id hcontrol
    have hchanged := hc.change hc.shows rfl (hc.onShow.restore a)
    refine ⟨c, ?_⟩
    rw [Screen.restore, h.content]
    exact hchanged.again

theorem Fits.place (h : Fits l s w) (current total : Nat) :
    Fits l (s.place current total w).1 (s.place current total w).2 := by
  have hplaced : ∀ c id w', Exhibits s l id l c s w → ∀ c', w'.Shows id c' →
      (∃ chrome, c' = { c with chrome } ∧ chrome.buttons = c.chrome.buttons) →
      Exhibits { s with steps := some (current, total) } l id l c'
        { s with steps := some (current, total) } w' := by
    rintro c id w' hc c' hw' ⟨chrome, rfl, hbuttons⟩
    exact ⟨rfl, rfl, hc.disposed, hc.control, hc.content, hw', hbuttons.trans hc.faces,
      hc.onShow.chrome chrome⟩
  unfold Screen.place
  simp only
  split
  · -- a control that shows the screen gets the new title
    rename_i title id htitle hcontrol
    refine ⟨h.content, fun _ hnone => absurd (hcontrol.symm.trans hnone) (by simp),
      fun hopen id' hid => ?_⟩
    obtain rfl : id = id' := Option.some.inj (hcontrol.symm.trans hid)
    obtain ⟨c, hc⟩ := h.shown hopen id hid
    exact ⟨_, hplaced c id _ hc _ (hc.shows.call (.setTitle title)) ⟨_, rfl, rfl⟩⟩
  · refine ⟨h.content, h.unshown, fun hopen id hid => ?_⟩
    obtain ⟨c, hc⟩ := h.shown hopen id hid
    exact ⟨c, hplaced c id w hc c hc.shows ⟨_, rfl, rfl⟩⟩

theorem Fits.dispose (h : Fits l s w) : Fits l (s.dispose w).1 (s.dispose w).2 := by
  unfold Screen.dispose
  split
  · exact h
  · split
    · exact ⟨h.content, fun hopen => absurd hopen (by simp), fun hopen => absurd hopen (by simp)⟩
    · exact ⟨h.content, fun hopen => absurd hopen (by simp), fun hopen => absurd hopen (by simp)⟩

/-- **Whatever a screen with a list has come to**, it is fit to be asked. -/
theorem Listed.fits (h : s.Listed w) : ∃ l, Fits l s w := by
  induction h with
  | @fresh s l w hcontent hunshown hcontrol =>
      exact ⟨l, hcontent, fun _ _ => hunshown,
        fun _ _ hid => absurd (hcontrol.symm.trans hid) (by simp)⟩
  | @asked s w _ colorful moves hw n ih =>
      obtain ⟨l, hl⟩ := ih
      by_cases hopen : s.disposed = false
      · obtain ⟨⟨l', c, hc⟩, -⟩ := hl.ask hopen hw n
        exact ⟨l', hc.fits⟩
      · rw [Screen.ask, if_pos (by simpa using hopen)]
        exact ⟨l, hl⟩
  | restored _ a ih =>
      obtain ⟨l, hl⟩ := ih
      exact ⟨_, hl.restore a⟩
  | copied _ ih =>
      obtain ⟨l, hl⟩ := ih
      exact ⟨l.copy, by rw [Screen.copy, hl.content]; rfl, fun _ _ => l.unshown_copy,
        fun _ _ hid => absurd hid (by simp [Screen.copy])⟩
  | placed _ current total ih =>
      obtain ⟨l, hl⟩ := ih
      exact ⟨l, hl.place current total⟩
  | disposed _ ih =>
      obtain ⟨l, hl⟩ := ih
      exact ⟨l, hl.dispose⟩
  | elsewhere _ hsame ih =>
      obtain ⟨l, hl⟩ := ih
      refine ⟨l, hl.content, hl.unshown, fun hopen id hid => ?_⟩
      obtain ⟨c, hc⟩ := hl.shown hopen id hid
      exact ⟨c, hc.changeControl ((hsame id hid).trans hc.shows) rfl hc.onShow⟩

end Screen

end Interview
