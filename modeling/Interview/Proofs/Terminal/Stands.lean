import Interview.Proofs.Turns
import Mathlib.Data.List.Basic
/-
Where a screen on a terminal waits for its user.

A turn of a screen has two halves. First the screen looks at its own work, and when nothing is due
it stands and waits for its control. What is promised about a terminal is promised about these
stands: what the control shows there is what the user is asked, and what the user does there
decides how the conversation goes on.

A stand is a state in the middle of a turn, so it is no state between two turns, and a proof about
it would have to run through all the turns before. That is done here once. Whatever a look and a
turn keep holds at every stand (`Screen.keeps_converse`), and the outcome of a conversation can be
read off any of its stands (`Screen.converse_eq_sequel`).
-/

set_option autoImplicit false

namespace Interview

open Control (Event Call)

/-! ## Controls on a terminal -/

namespace Terminal

variable {c : Terminal}

/-- The control after the calls among some acts. -/
def obey (c : Terminal) (acts : List Act) : Terminal :=
  (Act.calls acts).foldl apply c

@[simp] theorem obey_nil (c : Terminal) : c.obey [] = c := rfl

@[simp] theorem obey_call (c : Terminal) (k : Call) (acts : List Act) :
    c.obey (.call k :: acts) = (c.apply k).obey acts := rfl

@[simp] theorem obey_append (c : Terminal) (acts more : List Act) :
    c.obey (acts ++ more) = (c.obey acts).obey more := by
  simp [obey, Act.calls]

@[simp] theorem obey_entries (c : Terminal) (es : List Entry) : c.obey (es.map Act.entry) = c := by
  simp [obey, Act.calls, List.filterMap_map]

@[simp] theorem obey_ofNotes (c : Terminal) (notes : List Note) :
    c.obey (Act.ofNotes notes) = c := by
  simp [obey, Act.calls, Act.ofNotes, List.filterMap_map]

/-- The buttons beside a control stay what they are. -/
theorem buttons_obey (c : Terminal) (acts : List Act) :
    (c.obey acts).chrome.buttons = c.chrome.buttons := by
  induction acts generalizing c with
  | nil => rfl
  | cons act acts ih =>
      cases act with
      | entry e => exact ih c
      | call k =>
          have happly : (c.apply k).chrome.buttons = c.chrome.buttons := by
            unfold apply
            split
            · rfl
            · split
              · rfl
              · rfl
            · split
              · rfl
              · rfl
            · rfl
            · rfl
            · rfl
            · rfl
            · rfl
          exact (ih (c.apply k)).trans happly

/-- A control that is not disposed, and whose user was asked for nothing but its content. -/
structure InUse (c : Terminal) : Prop where
  disposed : c.disposed = false
  inFlight : c.inFlight = none ∨ c.inFlight = some (.running c.content)

/-- The user is asked for the content now, or was asked for it and has not answered yet. -/
def Asks (c : Terminal) : Prop :=
  c.turn = .asks ∨ c.turn = .listens c.content

/-- What an interaction comes to with the next move of its user. A user without moves interrupts. -/
def heard (buttons : List ButtonFace) (asked : Content) : Option Move → Option Outcome
  | some m => outcome? buttons asked m
  | none => some (.error .cancelled)

/-- Whether a move ends with Enter. -/
def Move.enters : Move → Bool
  | pause => false
  | leave => false
  | interrupt => false
  | _ => true

theorem outcome?_of_enters {m : Move} (h : m.enters = true) (buttons : List ButtonFace)
    (asked : Content) : outcome? buttons asked m = some (.ok (entered buttons m asked)) := by
  cases m with
  | pause => exact absurd h (by decide)
  | leave => exact absurd h (by decide)
  | interrupt => exact absurd h (by decide)
  | typed | secret | down | toggle => rfl

/-- Having asked does not matter to how an interaction finishes. -/
theorem finish_begin (c : Terminal) (o : Outcome) : c.begin.finish o = c.finish o := by
  rcases o with f | events
  · cases f with
    | cancelled => rfl
    | io | noEntries => rfl
  · cases events with
    | nil => rfl
    | cons => rfl

/-- An interaction that fails looks like the user leaving. -/
theorem finish_error (c : Terminal) (f : Fault) :
    (c.finish (.error f)).1 = .hide ∧
      (c.finish (.error f)).2.2 = { c with inFlight := none } := by
  cases f with
  | cancelled => exact ⟨rfl, rfl⟩
  | io | noEntries => exact ⟨rfl, rfl⟩

theorem begin_of_running (h : c.inFlight = some (.running c.content)) : c.begin = c := by
  rw [begin, ← h]

/-- A control asks when it has no events left, unless it waits for its rows. -/
theorem InUse.asks_iff (h : c.InUse) :
    c.Asks ↔ c.queued = [] ∧ (c.inFlight = none → c.awaitsRows = false) := by
  unfold Asks turn
  rcases hqueued : c.queued with _ | ⟨e, rest⟩
  · rcases h.inFlight with hfree | hasked
    · by_cases hrows : c.awaitsRows = true
      · simp [h.disposed, hfree, hrows]
      · simp [h.disposed, hfree, hrows]
    · simp [h.disposed, hasked]
  · simp

end Terminal

/-! ## Sessions -/

namespace Session

variable {w : Session} {id : Nat} {c : Terminal}

/-- The control with this number is on a terminal, and this is its state. -/
def Shows (id : Nat) (c : Terminal) (w : Session) : Prop :=
  w.devices[id]? = some (.shown c)

/-- The next move of the user, if one is left. -/
def move? (w : Session) : Option Terminal.Move :=
  match w.host with
  | .terminal _ (m :: _) => some m
  | _ => none

theorem Shows.lt (h : w.Shows id c) : id < w.devices.length :=
  (List.getElem?_eq_some_iff.mp h).1

theorem Shows.congr {w' : Session} (h : w.Shows id c) (hdevices : w'.devices = w.devices) :
    w'.Shows id c := by
  rw [Shows, hdevices]
  exact h

/-- The control is put in another state. -/
theorem Shows.set (h : w.Shows id c) (c' : Terminal) :
    Shows id c' { w with devices := w.devices.set id (.shown c') } := by
  simp [Shows, h.lt]

theorem Shows.call (h : w.Shows id c) (k : Call) : (w.call id k).Shows id (c.apply k) := by
  have hdevice : w.devices[id]? = some (.shown c) := h
  simp [Shows, Session.call, emit, hdevice]

theorem Shows.perform (h : w.Shows id c) (acts : List Act) :
    (Screen.perform id acts w).Shows id (c.obey acts) := by
  induction acts generalizing w c with
  | nil => exact h
  | cons act acts ih =>
      cases act with
      | call k => exact ih (h.call k)
      | entry e => exact ih (h.congr rfl)

/-- The control after an event was handed out. -/
theorem Shows.hand (h : w.Shows id c) (e : Event) (log : List LogLine) (c' : Terminal) :
    (w.hand id e log c').2.Shows id c' :=
  (h.set c').congr rfl

/-- The control after its interaction finished. -/
theorem Shows.close (h : w.Shows id c) (c' : Terminal) (asked : Terminal.Content)
    (o : Terminal.Outcome) : (w.close id c' asked o).2.Shows id (c'.finish o).2.2 :=
  (h.set (c'.finish o).2.2).congr rfl

/-- Having asked does not matter to what is handed out at the end. -/
theorem close_begin (id : Nat) (c : Terminal) (asked : Terminal.Content) (o : Terminal.Outcome)
    (w : Session) :
    w.close id c.begin asked o = (.event (c.finish o).1, (w.close id c asked o).2) := by
  unfold close
  rw [c.finish_begin]
  rfl

theorem shows_make {colorful : Bool} {moves : List Terminal.Move}
    (hw : w.host = .terminal colorful moves) (kind : Control.Kind) (chrome : Chrome) :
    (w.make kind chrome).2.Shows (w.make kind chrome).1 (Terminal.new colorful kind chrome) := by
  simp [make, emit, hw, Shows]

/-! ## Waiting -/

/-- The ways in which waiting for a control in use goes. -/
inductive Arrives (id : Nat) (c : Terminal) (w : Session) : Arrival × Session → Prop
  /-- An event of the last reply is handed out. -/
  | queued {e : Event} {rest : List Event} {w' : Session} (queued : c.queued = e :: rest)
      (shows : w'.Shows id { c with queued := rest }) : Arrives id c w (.event e, w')
  /-- The rows of the list are not in. -/
  | rowsFirst (queued : c.queued = []) (inFlight : c.inFlight = none)
      (rows : c.awaitsRows = true) : Arrives id c w (.rowsFirst, w)
  /-- There is nothing to choose. -/
  | nothing {fault : Terminal.Fault} {w' : Session} (turn : c.turn = .asks)
      (obstacle : c.obstacle? = some fault) (shows : w'.Shows id { c with inFlight := none }) :
      Arrives id c w (.event .hide, w')
  /-- The user takes time. -/
  | silent {w' : Session} (asks : c.Asks)
      (heard : Terminal.heard c.chrome.buttons c.content w.move? = none)
      (shows : w'.Shows id c.begin) : Arrives id c w (.notYet, w')
  /-- The user answers or leaves. -/
  | finished {o : Terminal.Outcome} {w' : Session} (asks : c.Asks)
      (obstacle : c.turn = .asks → c.obstacle? = none)
      (heard : Terminal.heard c.chrome.buttons c.content w.move? = some o)
      (shows : w'.Shows id c) :
      Arrives id c w (.event (c.finish o).1, (w'.close id c c.content o).2)

/-- Listening at a control whose user was asked for its content. -/
theorem arrives_listen (hasks : c.Asks) (hobstacle : c.turn = .asks → c.obstacle? = none)
    {w' : Session} (hw' : w'.Shows id c) (hhost : w'.host = w.host) :
    Arrives id c w (w'.listen id c.begin c.content) := by
  unfold listen
  rw [hhost]
  split
  · rename_i colorful m rest hhost
    have hmove : w.move? = some m := by rw [move?, hhost]
    simp only
    have hbegin : c.begin.chrome.buttons = c.chrome.buttons := rfl
    rw [hbegin]
    split
    · rename_i hout
      refine .silent hasks (by rw [hmove]; exact hout) ?_
      exact (hw'.set c.begin).congr rfl
    · rename_i o hout
      rw [close_begin]
      exact .finished hasks hobstacle (by rw [hmove]; exact hout) (hw'.congr rfl)
  · rename_i hnone
    have hmove : w.move? = none := by
      unfold move?
      split
      · rename_i hhost
        exact absurd hhost (hnone _ _ _)
      · rfl
    rw [close_begin]
    exact .finished hasks hobstacle (by rw [hmove]; rfl) (hw'.congr rfl)

/-- **Waiting for a control in use** goes in one of these ways. -/
theorem arrives_next (h : w.Shows id c) (hc : c.InUse) : Arrives id c w (w.next id) := by
  have hdevice : w.devices[id]? = some (.shown c) := h
  unfold next
  rw [hdevice]
  simp only
  rcases hqueued : c.queued with _ | ⟨e, rest⟩
  · rcases hc.inFlight with hfree | hasked
    · by_cases hrows : c.awaitsRows = true
      · have hturn : c.turn = .waits := by simp [Terminal.turn, hqueued, hc.disposed, hfree, hrows]
        rw [hturn]
        exact .rowsFirst hqueued hfree hrows
      · have hturn : c.turn = .asks := by simp [Terminal.turn, hqueued, hc.disposed, hfree, hrows]
        rw [hturn]
        simp only [prompt]
        have hprint : (w.print c.printed).Shows id c := h.congr rfl
        rcases hobstacle : c.obstacle? with _ | fault
        · exact arrives_listen (Or.inl hturn) (fun _ => hobstacle) hprint rfl
        · have hfinish := c.finish_error fault
          simp only
          rw [show (w.print c.printed).hand id (c.finish (.error fault)).1
              (c.finish (.error fault)).2.1 (c.finish (.error fault)).2.2 =
                (.event .hide, ((w.print c.printed).hand id (c.finish (.error fault)).1
                  (c.finish (.error fault)).2.1 (c.finish (.error fault)).2.2).2) by
            rw [hand, hfinish.1]]
          refine .nothing hturn hobstacle ?_
          rw [← hfinish.2]
          exact hprint.hand _ _ _
    · -- the user was asked before, and the control is as it was then
      have hturn : c.turn = .listens c.content := by
        simp [Terminal.turn, hqueued, hc.disposed, hasked]
      rw [hturn]
      have hlisten := arrives_listen (Or.inr hturn) (fun hasks => absurd (hturn.symm.trans hasks)
        (by simp)) h rfl
      rw [Terminal.begin_of_running hasked] at hlisten
      exact hlisten
  · have hturn : c.turn = .event e [] { c with queued := rest } := by
      simp [Terminal.turn, hqueued]
    rw [hturn]
    exact .queued hqueued (h.hand _ _ _)

end Session

/-! ## Stands -/

/-- A place in a conversation at which nothing is due and the screen waits for its control. -/
structure Stand where
  screen : Screen
  session : Session
  /-- The turns that are left after this one. -/
  left : Nat

namespace Screen

variable {id n : Nat} {s : Screen} {w : Session}

/-- The stand of a turn, with so many turns left after it. -/
def stand? (id left : Nat) (s : Screen) (w : Session) : Option Stand :=
  match s.found with
  | .await => some ⟨s.looked, perform id s.lookActs w, left⟩
  | _ => none

/-- The stands of a conversation, first one first. -/
def stands (id : Nat) : Nat → Screen → Session → List Stand
  | 0, _, _ => []
  | n + 1, s, w =>
    (s.stand? id n w).toList ++
      match s.turn id w with
      | .stays s w => stands id n s w
      | .ends _ _ _ => []

/-- The stands of a screen that is asked. -/
def askStands (n : Nat) (s : Screen) (w : Session) : List Stand :=
  if s.disposed then []
  else
    let (id, s, w) := s.appear w
    stands id n s w

end Screen

namespace Stand

variable {id : Nat} {c : Terminal} {p : Stand}

/-- What a conversation comes to from a stand on. -/
def sequel (id : Nat) (p : Stand) : Outcome (Reply Json) × Screen × Session :=
  (p.screen.await id p.session).goOn id p.left

/-- What a conversation comes to from a stand on when the interaction finishes so there, in a
session that shows the control. -/
def replied (id : Nat) (c : Terminal) (o : Terminal.Outcome) (p : Stand) (w : Session) :
    Outcome (Reply Json) × Screen × Session :=
  (p.screen.react id (c.finish o).1 (w.close id c c.content o).2).goOn id p.left

/-- **The user decides how the conversation goes on.** -/
theorem sequel_of_heard (h : p.session.Shows id c) (hc : c.InUse) (hasks : c.Asks)
    (hobstacle : c.obstacle? = none) {o : Terminal.Outcome}
    (ho : Terminal.heard c.chrome.buttons c.content p.session.move? = some o) :
    ∃ w, w.Shows id c ∧ p.sequel id = p.replied id c o w := by
  have harrives := Session.arrives_next h hc
  obtain ⟨hqueued, hidle⟩ := hc.asks_iff.mp hasks
  unfold sequel Screen.await
  generalize p.session.next id = next at harrives ⊢
  cases harrives with
  | queued hsome => exact absurd (hqueued.symm.trans hsome) (by simp)
  | rowsFirst _ hfree hrows => exact absurd (hrows.symm.trans (hidle hfree)) (by simp)
  | nothing _ hfault => exact absurd (hfault.symm.trans hobstacle) (by simp)
  | silent _ hsilent => exact absurd (hsilent.symm.trans ho) (by simp)
  | @finished o' w' _ _ hheard hw' =>
      obtain rfl : o' = o := Option.some.inj (hheard.symm.trans ho)
      exact ⟨w', hw', rfl⟩

end Stand

namespace Screen

variable {id n : Nat} {s : Screen} {w : Session}

/-- **Every stand of a conversation decides its outcome.** -/
theorem converse_eq_sequel {p : Stand} (hp : p ∈ stands id n s w) :
    converse id n s w = p.sequel id := by
  induction n generalizing s w with
  | zero => exact absurd hp List.not_mem_nil
  | succ n ih =>
      rw [converse_succ]
      rcases List.mem_append.mp hp with hp | hp
      · -- the stand of the first turn
        unfold stand? at hp
        rw [turn_eq]
        split at hp
        · rename_i hfound
          obtain rfl := by simpa using hp
          rw [hfound]
          rfl
        · exact absurd hp (by simp)
      · split at hp
        · rename_i s' w' heq
          rw [heq]
          exact ih hp
        · exact absurd hp List.not_mem_nil

/-- The outcome of asking is that of any of its stands. -/
theorem ask_eq_sequel {p : Stand} (hp : p ∈ s.askStands n w) :
    s.ask n w = p.sequel (s.appear w).1 := by
  unfold askStands at hp
  unfold ask
  split at hp
  · exact absurd hp List.not_mem_nil
  · rename_i hopen
    rw [if_neg hopen]
    exact converse_eq_sequel hp

/-- **What looks and turns keep holds throughout a conversation**: at its stands and at its end. -/
theorem keeps_converse {P : Screen → Session → Prop}
    (hlook : ∀ s w, P s w → P s.looked (perform id s.lookActs w))
    (hturn : ∀ s w, P s w → (s.turn id w).After P) (h : P s w) :
    P (converse id n s w).2.1 (converse id n s w).2.2 ∧
      ∀ p ∈ stands id n s w, P p.screen p.session := by
  induction n generalizing s w with
  | zero => exact ⟨h, fun _ hp => absurd hp List.not_mem_nil⟩
  | succ n ih =>
      have hfirst : ∀ p ∈ s.stand? id n w, P p.screen p.session := by
        intro p hp
        unfold stand? at hp
        split at hp
        · obtain rfl := Option.some.inj hp
          exact hlook s w h
        · exact absurd hp (by simp)
      have hnext := hturn s w h
      rw [converse_succ, stands]
      cases hs : s.turn id w with
      | stays s' w' =>
          rw [hs] at hnext
          obtain ⟨hend, hstands⟩ := ih hnext
          refine ⟨hend, fun p hp => ?_⟩
          rcases List.mem_append.mp hp with hp | hp
          · exact hfirst p (Option.mem_toList.mp hp)
          · exact hstands p hp
      | ends o s' w' =>
          rw [hs] at hnext
          refine ⟨hnext, fun p hp => ?_⟩
          rw [List.append_nil] at hp
          exact hfirst p (Option.mem_toList.mp hp)

/-- The same of a screen that is asked, from its appearing on. -/
theorem keeps_ask {P : Screen → Session → Prop}
    (hlook : ∀ s' w', P s' w' → P s'.looked (perform (s.appear w).1 s'.lookActs w'))
    (hturn : ∀ s' w', P s' w' → (s'.turn (s.appear w).1 w').After P) (hopen : s.disposed = false)
    (h : P (s.appear w).2.1 (s.appear w).2.2) :
    P (s.ask n w).2.1 (s.ask n w).2.2 ∧ ∀ p ∈ s.askStands n w, P p.screen p.session := by
  rw [ask, askStands, if_neg (by simp [hopen]), if_neg (by simp [hopen])]
  exact keeps_converse hlook hturn h

end Screen

end Interview
