import Interview.Proofs.Answers.Screens
import Interview.Proofs.Picking.Ready
import Interview.Proofs.Terminal.Choices
/-
What a list of one choice answers if its user does nothing but accept.

The answer is the same in four places that compute it in four ways: a list with all its items, a
list whose items are loaded in batches, a control that hands out a bare acceptance, and a terminal
on which Enter is pressed on the entry that is marked from the start. It is the first item that is
shown as picked, or else the first of all, or else the wish to go back
(`Screen.answersByDefault_of_prepared`).

The terminal has one exception. A list with a search knows its entries by what they say, so if an
earlier entry says the same as the default entry, it is the earlier one that is chosen
(`Screen.ask_namesakes`).
-/

set_option autoImplicit false

namespace Interview

open Control (Event Call)

/-! ## Lists that have loaded -/

namespace Screen

variable {s s' : Screen} {w w' : Session} {id : Nat} {events : List Event} {host : Host}

/-- The screen has a list to which no more items come. -/
def Idle (s : Screen) : Prop :=
  ∃ l, s.content = .list l ∧ l.loading = none

/-- A look finds nothing. -/
theorem Idle.look_eq (h : s.Idle) : s.content.look s.wording = ([], s.content, .await) := by
  obtain ⟨l, hs, hl⟩ := h
  rw [hs, Content.look, PickList.look, hl]

theorem Idle.intake_eq (h : s.Idle) : s.content.intake s.wording = [] := by
  obtain ⟨l, hs, hl⟩ := h
  rw [hs, Content.intake, PickList.intake, hl]

theorem Idle.turn_eq (h : s.Idle) (id : Nat) (w : Session) : s.turn id w = s.await id w :=
  Rests.turn_eq h.look_eq id w

theorem Idle.react (h : s.Idle) (e : Event) : (s.react id e w).After fun s _ => s.Idle := by
  obtain ⟨l, hs, hl⟩ := h
  obtain ⟨-, l', -, hscreen, hl'⟩ := exists_handle_list hs e
  apply after_react
  rw [hscreen]
  refine ⟨l', rfl, ?_⟩
  rcases hl' with rfl | rfl
  · exact hl
  · cases e with
    | selected | changed | accept | hide | button => exact hl

theorem Idle.await (h : s.Idle) : (s.await id w).After fun s _ => s.Idle := by
  unfold Screen.await
  split
  · exact h.react _
  · exact h
  · split
    · exact h
    · exact h

/-- In a turn rows are set by the look at its beginning alone. -/
theorem lastRows_turnDiary (s : Screen) (id : Nat) (w : Session) :
    (s.turnDiary id w).lastRows = (s.content.intake s.wording).lastRows := by
  have hheard : ∀ a : Session.Arrival, a.diary.lastRows = none := by
    intro a
    cases a with
    | event | notYet | rowsFirst => rfl
  rw [turnDiary, Diary.lastRows_append]
  split
  · rw [hheard]
    rfl
  · rfl

/-- If the list has loaded after the first look, nothing more is shown in a conversation. The
induction is on the turns: from the second one on, a look finds nothing. -/
theorem lastRows_diary (hfound : s.found = .await) (hidle : s.looked.Idle) (id n : Nat)
    (w : Session) :
    (s.diary id (n + 1) w).lastRows = (s.content.intake s.wording).lastRows := by
  induction n generalizing s w with
  | zero =>
    rw [diary, Diary.lastRows_append, lastRows_turnDiary]
    cases s.turn id w with
    | stays | ends => rfl
  | succ n ih =>
    have hturn : (s.turn id w).After fun s _ => s.Idle := by
      rw [Screen.turn_eq, hfound]
      exact hidle.await
    rw [diary, Diary.lastRows_append, lastRows_turnDiary]
    cases hs : s.turn id w with
    | stays s' w' =>
      rw [hs] at hturn
      have hlook := hturn.look_eq
      have hlooked : s'.looked = s' := by rw [looked, hlook]
      have hrest := ih (s := s') (by rw [found, hlook]) (by rw [hlooked]; exact hturn) w'
      rw [hturn.intake_eq] at hrest
      simp only
      rw [hrest]
      rfl
    | ends o s' w' => rfl

/-! ## Screens that nobody can tell apart -/

/-- Screens with the same buttons and with lists that nobody can tell apart. -/
structure Alike (s s' : Screen) : Prop where
  buttons : s.buttons = s'.buttons
  content : ∃ l l', s.content = .list l ∧ s'.content = .list l' ∧ l.Alike l'

/-- What turns come to that nobody can tell apart: both screens stay alike, with the same events
left, or both askings are over with the same outcome. -/
def Turn.Alike (id : Nat) (events : List Event) (host : Host) : Turn → Turn → Prop
  | .stays s w, .stays s' w' =>
    s.Alike s' ∧ w.Plays id events host ∧ w'.Plays id events host
  | .ends o _ _, .ends o' _ _ => o = o'
  | _, _ => False

theorem Alike.idle (h : s.Alike s') : s.Idle ∧ s'.Idle := by
  obtain ⟨l, l', hs, hs', hl⟩ := h.content
  exact ⟨⟨l, hs, hl.idle.1⟩, ⟨l', hs', hl.idle.2⟩⟩

theorem Alike.handle (h : s.Alike s') (e : Event) :
    (s.handle e).2.1.Alike (s'.handle e).2.1 ∧ (s.handle e).2.2 = (s'.handle e).2.2 := by
  obtain ⟨l, l', hs, hs', hl⟩ := h.content
  cases e with
  | hide => exact ⟨h, rfl⟩
  | button i =>
    rw [handle_button, handle_button]
    refine ⟨h, ?_⟩
    rw [Screen.handle, Screen.handle, h.buttons]
    cases s'.buttons[i]? with
    | none => rfl
    | some b => rfl
  | selected | changed | accept =>
    simp only [Screen.handle, hs, hs', Content.handle]
    obtain ⟨halike, hreply⟩ := hl.handle _
    exact ⟨⟨h.buttons, _, _, rfl, rfl, halike⟩, by rw [hreply]⟩

/-- **Handling an event** comes to the same. -/
theorem Alike.react (h : s.Alike s') (hw : w.Plays id events host) (hw' : w'.Plays id events host)
    (e : Event) : Turn.Alike id events host (s.react id e w) (s'.react id e w') := by
  obtain ⟨halike, hflow⟩ := h.handle e
  unfold Screen.react
  simp only
  rw [hflow]
  cases (s'.handle e).2.2 with
  | stay => exact ⟨halike, hw.perform _, hw'.perform _⟩
  | settle | fail => exact rfl

/-- **One turn** comes to the same. -/
theorem Alike.turn (h : s.Alike s') (hw : w.Plays id events host) (hw' : w'.Plays id events host) :
    Turn.Alike id events.tail host (s.turn id w) (s'.turn id w') := by
  obtain ⟨hidle, hidle'⟩ := h.idle
  obtain ⟨w₁, hnext, hw₁⟩ := hw.next
  obtain ⟨w₁', hnext', hw₁'⟩ := hw'.next
  rw [hidle.turn_eq, hidle'.turn_eq, await, await, hnext, hnext']
  exact h.react hw₁ hw₁' _

/-- **A conversation comes to the same** for screens that nobody can tell apart. -/
theorem Alike.converse (h : s.Alike s') (hw : w.Plays id events host)
    (hw' : w'.Plays id events host) (n : Nat) :
    (s.converse id n w).1 = (s'.converse id n w').1 := by
  induction n generalizing s s' w w' events with
  | zero => rfl
  | succ n ih =>
    have hturn := h.turn hw hw'
    rw [converse_succ, converse_succ]
    generalize s.turn id w = turn at hturn ⊢
    generalize s'.turn id w' = turn' at hturn ⊢
    cases turn with
    | stays s₁ w₁ =>
      cases turn' with
      | stays s₁' w₁' =>
        obtain ⟨halike, hw₁, hw₁'⟩ := hturn
        exact ih halike hw₁ hw₁'
      | ends => exact hturn.elim
    | ends o s₁ w₁ =>
      cases turn' with
      | stays => exact hturn.elim
      | ends o' s₁' w₁' => exact hturn

/-! ## Screens that were not asked yet -/

/-- The screen was not asked yet, and it has a list of one choice whose items are ready when it is
shown. -/
structure Prepared (l : PickList) (s : Screen) : Prop where
  content : s.content = .list l
  unshown : l.Unshown
  unselected : l.selection = []
  one : l.many = false
  ready : l.source.isReady = true
  control : s.control = none
  disposed : s.disposed = false

variable {l : PickList}

/-- The screen with a list whose items are there from the start. -/
def stocked (l : PickList) (s : Screen) : Screen :=
  { s with content := .list { l with source := .fixed l.source.items } }

theorem Prepared.stocked (h : s.Prepared l) :
    (s.stocked l).Prepared { l with source := .fixed l.source.items } where
  content := rfl
  unshown := ⟨h.unshown.items, h.unshown.loading, h.unshown.vacant⟩
  unselected := h.unselected
  one := h.one
  ready := rfl
  control := h.control
  disposed := h.disposed

/-- The screen when its control was made. -/
def begun (l : PickList) (w : Session) (s : Screen) : Screen :=
  { s with
    control := some w.devices.length
    content := .list (PickList.start { l with placeholder := s.placeholder } s.wording).2 }

/-- What the screen does when its control was made. -/
def beginning (l : PickList) (s : Screen) : List Act :=
  .call .makeVisible :: (PickList.start { l with placeholder := s.placeholder } s.wording).1

/-- The session in which the screen waits for its first event. -/
def waiting (l : PickList) (w : Session) (s : Screen) : Session :=
  perform w.devices.length (s.beginning l ++ (s.begun l w).lookActs)
    (w.make (.list false) s.chrome).2

theorem make_fst (kind : Control.Kind) (chrome : Chrome) :
    (w.make kind chrome).1 = w.devices.length := by
  unfold Session.make
  simp only
  split
  · rfl
  · rfl
  · rfl

theorem perform_append (id : Nat) (acts more : List Act) (w : Session) :
    perform id (acts ++ more) w = perform id more (perform id acts w) :=
  List.foldl_append

theorem Prepared.appear (h : s.Prepared l) (w : Session) :
    s.appear w = (w.devices.length, s.begun l w,
      perform w.devices.length (s.beginning l) (w.make (.list false) s.chrome).2) := by
  have hid := make_fst (w := w) (.list false) s.chrome
  rw [Screen.appear, h.control, h.content, Content.kind, h.one]
  simp only
  rw [hid]
  rfl

/-- **After its first look the list is settled**, and all its items are shown. -/
theorem Prepared.look (h : s.Prepared l) (w : Session) :
    (s.begun l w).found = .await ∧
      (∃ k, (s.begun l w).looked = { s.begun l w with content := .list k } ∧
        k.Settled l.recent l.source.items) ∧
      Act.lastRows (s.beginning l ++ (s.begun l w).lookActs) =
        some (Item.finalRows s.wording l.recent l.source.items) := by
  have hunshown : PickList.Unshown { l with placeholder := s.placeholder } :=
    ⟨h.unshown.items, h.unshown.loading, h.unshown.vacant⟩
  obtain ⟨hawait, hsettled, hrows⟩ := hunshown.settled h.unselected h.one h.ready s.wording
  refine ⟨hawait, ⟨_, rfl, hsettled⟩, ?_⟩
  rw [beginning, List.cons_append, Act.lastRows_call]
  exact congrArg (Option.or · none) hrows

theorem Prepared.idle (h : s.Prepared l) (w : Session) : (s.begun l w).looked.Idle := by
  obtain ⟨-, ⟨k, hlooked, hk⟩, -⟩ := h.look w
  rw [hlooked]
  exact ⟨k, rfl, hk.idle⟩

/-- Asking begins where the screen waits for its first event. -/
theorem Prepared.ask_succ (h : s.Prepared l) (n : Nat) (w : Session) :
    s.ask (n + 1) w =
      (s.begun l w).looked.converse w.devices.length (n + 1) (s.waiting l w) := by
  obtain ⟨hawait, -, -⟩ := h.look w
  rw [Screen.ask, if_neg (by simp [h.disposed]), h.appear, waiting, perform_append]
  exact converse_looked hawait (h.idle w).look_eq _ n _

/-! ### What is on display -/

/-- **All the items are on display** after the first turn, and stay so. -/
theorem Prepared.rows (h : s.Prepared l) (n : Nat) (w : Session) :
    (Diary.tally (.recalled l.recent :: s.askDiary (n + 1) w)).rows =
      some (Item.finalRows s.wording l.recent l.source.items) := by
  obtain ⟨hawait, -, hrows⟩ := h.look w
  have happearance : s.appearance.lastRows = Act.lastRows (s.beginning l) := by
    rw [appearance, h.control, h.content, beginning, Act.lastRows_call, ← List.singleton_append,
      Diary.lastRows_append]
    exact congrArg (Option.or · none) (PickList.lastRows_opening _ _)
  have hintake : ((s.begun l w).content.intake (s.begun l w).wording).lastRows =
      Act.lastRows (s.begun l w).lookActs := PickList.lastRows_intake _ _
  rw [Diary.rows_tally, ← List.singleton_append, Diary.lastRows_append, askDiary,
    if_neg (by simp [h.disposed]), h.appear]
  simp only
  rw [Diary.lastRows_append, lastRows_diary hawait (h.idle w), hintake, happearance,
    ← Act.lastRows_append, hrows]
  rfl

/-! ### Rehearsals -/

theorem plays_waiting {scripts : List (List Event)} (hw : w.host = .rehearsal scripts) :
    (s.waiting l w).Plays w.devices.length (scripts.headD []) (.rehearsal scripts.tail) := by
  have hmade := Session.plays_make hw (.list false) s.chrome
  rw [make_fst] at hmade
  exact hmade.perform _

/-- **It does not matter whether the items are loaded**, whatever the user does. -/
theorem Prepared.ask_stocked (h : s.Prepared l) {scripts : List (List Event)}
    (hw : w.host = .rehearsal scripts) (n : Nat) :
    (s.ask n w).1 = ((s.stocked l).ask n w).1 := by
  cases n with
  | zero =>
    rw [Screen.ask, Screen.ask, if_neg (by simp [h.disposed]),
      if_neg (by simp [h.stocked.disposed])]
    rfl
  | succ n =>
    obtain ⟨-, ⟨k, hlooked, hk⟩, -⟩ := h.look w
    obtain ⟨-, ⟨k', hlooked', hk'⟩, -⟩ := h.stocked.look w
    rw [h.ask_succ, h.stocked.ask_succ, hlooked, hlooked']
    have halike : Alike { s.begun l w with content := .list k }
        { (s.stocked l).begun { l with source := .fixed l.source.items } w with
          content := .list k' } := ⟨rfl, k, k', rfl, rfl, hk.alike hk'⟩
    exact halike.converse (plays_waiting hw) (plays_waiting hw) _

/-- **A bare acceptance** is answered with the default. -/
theorem Prepared.accepted (h : s.Prepared l) {script : List Event} {scripts : List (List Event)}
    (hw : w.host = .rehearsal ((.accept :: script) :: scripts)) (n : Nat) :
    (s.ask (n + 1) w).1 = .done (Item.defaultReply l.recent l.source.items) := by
  obtain ⟨-, ⟨k, hlooked, hk⟩, -⟩ := h.look w
  obtain ⟨w', hnext, -⟩ := (plays_waiting (s := s) (l := l) hw).next
  have haccept := hk.accept
  rw [h.ask_succ, converse_succ, (h.idle w).turn_eq, await, hnext, hlooked]
  simp only [List.headD_cons, Screen.react, Screen.handle, Content.handle, PickList.handle,
    haccept]
  rfl

end Screen

/-! ## Terminals -/

namespace Terminal

variable {c : Terminal} {rows : List Row} {many : Bool} {buttons : List ButtonFace}

/-- A control that was called shows the rows that were set last. -/
theorem content_obey (hc : c.content = .list rows many) (acts : List Act) :
    (c.obey acts).content = .list ((Act.lastRows acts).getD rows) many := by
  induction acts generalizing c rows with
  | nil => exact hc
  | cons act acts ih =>
    cases act with
    | entry e => exact ih hc
    | call k =>
      have happly : (c.apply k).content = .list (k.rows?.getD rows) many := by
        cases k with
        | setRows | setValue =>
          simp only [apply, hc]
          rfl
        | makeVisible | setMessage | setBusy | setPlaceholder | setTitle | dispose => exact hc
      rw [obey_call, ih happly, Act.lastRows_call]
      cases Act.lastRows acts with
      | none => rfl
      | some rows' => rfl

/-- Calls leave nothing to hand out. -/
theorem queued_obey (h : c.queued = []) (acts : List Act) : (c.obey acts).queued = [] := by
  induction acts generalizing c with
  | nil => exact h
  | cons act acts ih =>
    cases act with
    | entry e => exact ih h
    | call k =>
      apply ih
      unfold apply
      cases k with
      | setRows | setValue =>
        simp only
        split
        · exact h
        · exact h
      | makeVisible | setMessage | setBusy | setPlaceholder | setTitle => exact h
      | dispose => rfl

/-- The default entry is that of the first picked row, or else of the first row. -/
theorem defaultEntry_eq (h : rows ≠ []) :
    defaultEntry buttons rows = buttons.length + (rows.findIdx? Row.picked).getD 0 := by
  have hlt : (rows.findIdx? Row.picked).getD 0 < rows.length := by
    rcases hplace : rows.findIdx? Row.picked with _ | p
    · exact List.length_pos_iff.mpr h
    · exact (List.findIdx?_eq_some_iff_getElem.mp hplace).1
  rw [defaultEntry]
  omega

/-- **The entry that is marked is the one that is chosen** exactly if there is no search, or no
earlier entry says the same. -/
theorem chosenEntry_eq_iff {n : Nat} (h : n < buttons.length + rows.length) :
    chosenEntry buttons rows n = n ↔
      buttons.length + rows.length ≤ searchLimit ∨
        ∀ m < n, (entries buttons rows)[m]? ≠ (entries buttons rows)[n]? := by
  rw [← length_entries] at h ⊢
  rw [chosenEntry]
  generalize entries buttons rows = es at h ⊢
  by_cases hfew : es.length ≤ searchLimit
  · simp only [hfew, if_true, true_or]
  · simp only [hfew, if_false, false_or]
    have hself : (es[n]? == some es[n]) = true := by
      rw [List.getElem?_eq_getElem h]
      exact beq_self_eq_true _
    rcases hfind : es.findIdx? (fun e => es[n]? == some e) with _ | i
    · have hnone := List.findIdx?_eq_none_iff.mp hfind es[n] (List.getElem_mem h)
      exact absurd (hself.symm.trans hnone) (by simp)
    · obtain ⟨hi, hsame, hfirst⟩ := List.findIdx?_eq_some_iff_getElem.mp hfind
      have hsame : es[i]? = es[n]? := by
        rw [List.getElem?_eq_getElem hi]
        exact (eq_of_beq hsame).symm
      have hle : i ≤ n := by
        by_contra hlater
        exact hfirst n (by omega) hself
      constructor
      · -- nothing earlier was found
        intro heq m hm hearlier
        have heq : i = n := heq
        have hlt : m < es.length := by omega
        apply hfirst m (by omega)
        rw [← hearlier, List.getElem?_eq_getElem hlt]
        exact beq_self_eq_true _
      · intro hnone
        show i = n
        by_contra hne
        exact hnone i (by omega) hsame

/-- What Enter hands out where one entry is chosen. -/
theorem heard_of_enters {m : Move} (h : m.enters = true) (buttons : List ButtonFace)
    (rows : List Row) :
    heard buttons (.list rows false) (some m) =
      some (.ok (selectReply (chosenEntry buttons rows (entryAfter buttons rows m))
        buttons.length)) :=
  outcome?_of_enters h buttons (.list rows false)

end Terminal

namespace Session

variable {w : Session} {id : Nat} {c c' : Terminal}

theorem Shows.unique (h : w.Shows id c) (h' : w.Shows id c') : c = c' :=
  Device.shown.inj (Option.some.inj (h.symm.trans h'))

/-- What a screen does with its control takes no move of the user. -/
theorem move?_perform (id : Nat) (acts : List Act) (w : Session) :
    (Screen.perform id acts w).move? = w.move? := by
  induction acts generalizing w with
  | nil => rfl
  | cons act acts ih =>
    cases act with
    | call k => exact ih (w.call id k)
    | entry e => exact ih (w.emit [e])

theorem move?_make {colorful : Bool} {moves : List Terminal.Move}
    (hw : w.host = .terminal colorful moves) (kind : Control.Kind) (chrome : Chrome) :
    (w.make kind chrome).2.move? = w.move? := by
  simp only [make, emit, move?, hw]

end Session

/-- The item at the place of the first picked row, or else at the first place, is the default, also
when the one row says that there are no items. -/
theorem Item.getElem?_finalRows (w : Wording) (recent : List Json) (items : List Item) :
    items[((finalRows w recent items).findIdx? Row.picked).getD 0]? = default? recent items := by
  cases items with
  | nil => rfl
  | cons i rest => exact getElem?_default recent (i :: rest)

theorem Item.finalRows_ne_nil (w : Wording) (recent : List Json) (items : List Item) :
    finalRows w recent items ≠ [] := by
  cases items with
  | nil => simp [finalRows]
  | cons i rest => simp [finalRows, rows]

namespace Screen

variable {s : Screen} {w : Session} {l : PickList} {colorful : Bool} {moves : List Terminal.Move}

theorem Prepared.fits (h : s.Prepared l) (w : Session) : Fits l s w where
  content := h.content
  unshown _ _ := h.unshown
  shown _ _ hid := absurd (h.control.symm.trans hid) (by simp)

/-- The first place at which the screen waits for its user. -/
def firstStand (l : PickList) (n : Nat) (w : Session) (s : Screen) : Stand :=
  ⟨(s.begun l w).looked, s.waiting l w, n⟩

theorem Prepared.firstStand_mem (h : s.Prepared l) (n : Nat) (w : Session) :
    s.firstStand l n w ∈ s.askStands (n + 1) w := by
  obtain ⟨hawait, -, -⟩ := h.look w
  rw [askStands, if_neg (by simp [h.disposed]), h.appear, firstStand, waiting, perform_append]
  simp only [stands, stand?, hawait]
  exact List.mem_append_left _ List.mem_cons_self

/-- **The user is asked for all the items** at the first stand. -/
theorem Prepared.exhibits (h : s.Prepared l) (hw : w.host = .terminal colorful moves) :
    ∃ k c, Exhibits s l w.devices.length k c (s.begun l w).looked (s.waiting l w) ∧
      k.Settled l.recent l.source.items ∧ c.Asks ∧
      c.content = .list (Item.finalRows s.wording l.recent l.source.items) false := by
  obtain ⟨-, ⟨k, hlooked, hk⟩, hrows⟩ := h.look w
  have hpresents := (h.fits w).appear h.disposed hw
  rw [h.appear] at hpresents
  obtain ⟨k', c, hc⟩ := hpresents
  have hlook := hc.look
  rw [← perform_append, ← waiting] at hlook
  -- the list and the control are those that were reckoned with
  obtain rfl : k = (k'.look (s.begun l w).wording).2.1 := by
    have hcontent := hlook.content
    rw [hlooked] at hcontent
    exact Content.list.inj hcontent
  have hshows : (s.waiting l w).Shows w.devices.length
      ((Terminal.new colorful (.list false) s.chrome).obey
        (s.beginning l ++ (s.begun l w).lookActs)) := by
    have hmade := Session.shows_make hw (.list false) s.chrome
    rw [make_fst] at hmade
    exact hmade.perform _
  have hcontrol := hlook.shows.unique hshows
  generalize c.obey (k'.look (s.begun l w).wording).1 = c at hlook hcontrol
  refine ⟨_, c, hlook, hk, ?_, ?_⟩
  · apply hlook.onShow.inUse.asks_iff.mpr
    constructor
    · rw [hcontrol]
      exact Terminal.queued_obey rfl _
    · intro _
      obtain ⟨rows, hcontent, -⟩ := hlook.onShow.content
      rw [Terminal.awaitsRows, hcontent, hlook.onShow.busy, hk.idle]
      rfl
  · have hcontent := Terminal.content_obey
      (c := Terminal.new colorful (.list false) s.chrome) rfl
      (s.beginning l ++ (s.begun l w).lookActs)
    rw [hcontrol, hcontent, hrows]
    rfl

/-- The first move of the user is made there. -/
theorem move?_waiting {m : Terminal.Move} (hw : w.host = .terminal colorful (m :: moves)) :
    (s.waiting l w).move? = some m := by
  rw [waiting, Session.move?_perform, Session.move?_make hw, Session.move?, hw]

/-- **The item at the entry that is chosen** is answered with, unless a button is chosen. Without
items, the user goes back. -/
theorem Prepared.entered (h : s.Prepared l) {m : Terminal.Move}
    (hw : w.host = .terminal colorful (m :: moves)) (henters : m.enters = true) (n : Nat) :
    let buttons := s.buttons.map Button.face
    let rows := Item.finalRows s.wording l.recent l.source.items
    let chosen := Terminal.chosenEntry buttons rows (Terminal.entryAfter buttons rows m)
    buttons.length ≤ chosen →
    (s.ask (n + 2) w).1 = .done (Item.reply l.source.items[chosen - buttons.length]?) := by
  intro buttons rows chosen hbutton
  obtain ⟨k, c, hc, hk, hasks, hcontent⟩ := h.exhibits hw
  have hfaces : c.chrome.buttons = buttons := by
    rw [hc.faces, hc.buttons]
  have hcount : c.offered.length = buttons.length + rows.length := by
    rw [Terminal.offered_eq hcontent, Terminal.length_entries, hfaces]
  have hpos : 0 < rows.length := List.length_pos_iff.mpr (Item.finalRows_ne_nil _ _ _)
  have hlt : chosen < buttons.length + rows.length :=
    Terminal.chosenEntry_lt (Terminal.entryAfter_lt (by omega) m)
  have hoffered : c.offered ≠ [] := List.length_pos_iff.mp (by omega)
  have hlength : buttons.length = s.buttons.length := List.length_map _
  -- the move decides what comes of the asking
  have hheard : Terminal.heard c.chrome.buttons c.content
      (s.firstStand l (n + 1) w).session.move? =
        some (.ok (Terminal.selectReply chosen s.buttons.length)) := by
    rw [firstStand, move?_waiting hw, hcontent, hfaces, ← hlength]
    exact Terminal.heard_of_enters henters _ _
  obtain ⟨w', hw', hsequel⟩ := Stand.sequel_of_heard hc.shows hc.onShow.inUse hasks
    (Terminal.obstacle?_of_offered hcontent hoffered) hheard
  have hone := (hc.changeControl hw' rfl hc.onShow).one (p := s.firstStand l (n + 1) w) (n := chosen)
    hk.idle h.one (by omega) (hlength ▸ hbutton) (Nat.succ_pos n)
  rw [ask_eq_sequel (h.firstStand_mem (n + 1) w), h.appear]
  simp only
  rw [hsequel, hlength]
  by_cases hvacant : k.vacant = true
  · rw [if_pos hvacant] at hone
    have hnone : l.source.items = [] := by
      rw [hk.vacant] at hvacant
      exact List.isEmpty_iff.mp hvacant
    rw [hnone]
    exact hone
  · rw [if_neg hvacant] at hone
    obtain ⟨i, hi, -, hanswer⟩ := hone
    rw [hi]
    exact hanswer

/-! ## The four ways to the default -/

/-- What is promised of a screen that was not asked yet, with a list of one choice whose items are
ready. -/
structure AnswersByDefault (l : PickList) (s : Screen) : Prop where
  /-- Whatever events the user's control hands out, what comes of the asking is what comes of it
  when the items are there from the start. -/
  same : ∀ (n : Nat) (w : Session) (scripts : List (List Event)), w.host = .rehearsal scripts →
    (s.ask n w).1 = ((s.stocked l).ask n w).1
  /-- In the end the same rows are on display. -/
  rows : ∀ (n : Nat) (w : Session),
    (Diary.tally (.recalled l.recent :: s.askDiary (n + 1) w)).rows =
        some (Item.finalRows s.wording l.recent l.source.items) ∧
      (Diary.tally (.recalled l.recent :: (s.stocked l).askDiary (n + 1) w)).rows =
        some (Item.finalRows s.wording l.recent l.source.items)
  /-- An acceptance that comes first is answered with the default. -/
  accepted : ∀ (n : Nat) (w : Session) (script : List Event) (scripts : List (List Event)),
    w.host = .rehearsal ((.accept :: script) :: scripts) →
    (s.ask (n + 1) w).1 = .done (Item.defaultReply l.recent l.source.items)
  /-- So is Enter on the default entry of a terminal, unless there is a search and an earlier entry
  says the same. -/
  entered : ∀ (n : Nat) (w : Session) (colorful : Bool) (m : Terminal.Move)
    (moves : List Terminal.Move), w.host = .terminal colorful (m :: moves) → m.enters = true →
    let buttons := s.buttons.map Button.face
    let rows := Item.finalRows s.wording l.recent l.source.items
    let marked := Terminal.defaultEntry buttons rows
    Terminal.entryAfter buttons rows m = marked →
    (buttons.length + rows.length ≤ Terminal.searchLimit ∨
      ∀ entry < marked, (Terminal.entries buttons rows)[entry]? ≠
        (Terminal.entries buttons rows)[marked]?) →
    (s.ask (n + 2) w).1 = .done (Item.defaultReply l.recent l.source.items)

/-- **A list of one choice answers by default with the first item that is shown as picked**, or else
with the first of all. This holds however the items were split into batches, whatever the recent
answers are, and with any buttons. -/
theorem answersByDefault_of_prepared (h : s.Prepared l) : AnswersByDefault l s := by
  refine ⟨?_, ?_, ?_, ?_⟩
  · intro n w scripts hw
    exact h.ask_stocked hw n
  · intro n w
    exact ⟨h.rows n w, h.stocked.rows n w⟩
  · intro n w script scripts hw
    exact h.accepted hw n
  · intro n w colorful m moves hw henters buttons rows marked hmarked hsearch
    have hrows : rows ≠ [] := Item.finalRows_ne_nil _ _ _
    have hpos := List.length_pos_iff.mpr hrows
    have hdefault : marked = buttons.length + (rows.findIdx? Row.picked).getD 0 :=
      Terminal.defaultEntry_eq hrows
    -- the entry that is marked is the one that is chosen
    have hchosen : Terminal.chosenEntry buttons rows (Terminal.entryAfter buttons rows m) =
        marked := by
      rw [hmarked]
      exact (Terminal.chosenEntry_eq_iff (Terminal.defaultEntry_lt (by omega))).mpr hsearch
    have hentered := h.entered hw henters n
    simp only at hentered
    rw [hchosen, hdefault, Nat.add_sub_cancel_left] at hentered
    rw [hentered (Nat.le_add_right _ _), Item.defaultReply, Item.getElem?_finalRows]

/-- A list of one choice that is loaded in three batches. The picked item is in the last one, and the
one before has none. -/
def lateDefault : PickList :=
  { PickList.new (.lazy ⟨[], [⟨[], .none, .ok [.labelled "a"]⟩, ⟨[], .none, .ok []⟩,
      ⟨[], .none, .ok [.labelled "b", .labelled "c"]⟩], .none⟩) false with
    recent := [.text "b"] }

/-- The recent answer is the default, on a terminal with a back button as well. -/
theorem answersByDefault_of_lateDefault :
    let s := (Screen.new .english (.list lateDefault)).withBack
    AnswersByDefault lateDefault s ∧
      (s.ask 1 (.new (.rehearsal [[.accept]]))).1 = .done (.value (.text "b")) ∧
      (s.ask 2 (.new (.terminal false [.down 0]))).1 = .done (.value (.text "b")) := by
  intro s
  have hprepared : s.Prepared lateDefault := ⟨rfl, ⟨rfl, rfl, rfl⟩, rfl, rfl, rfl, rfl, rfl⟩
  exact ⟨answersByDefault_of_prepared hprepared, rfl, rfl⟩

/-- A list of thirteen items, of which the first and the last say the same. The last one was picked
at an earlier time. -/
def namesakes : PickList :=
  let items := (List.range 13).map fun n =>
    Item.new (if n = 12 then "entry 0" else "entry " ++ toString n) (.int n)
  { PickList.new (.fixed items) false with recent := [.int 12] }

/-- On a terminal the first item is answered, although it is not the one that is marked. -/
theorem ask_namesakes :
    let s := Screen.new .english (.list namesakes)
    (s.ask 1 (.new (.rehearsal [[.accept]]))).1 = .done (.value (.int 12)) ∧
      (s.ask 2 (.new (.terminal false [.down 0]))).1 = .done (.value (.int 0)) := by
  intro s
  exact ⟨rfl, rfl⟩

end Screen

end Interview
