import Interview.Step
/-
The books of a transcript: which control is in use.

A transcript is in order if one control is in use at a time. A control is made when none is in
use, and is in use from then on; it is called and asked for events only while it is in use,
and disposing it ends its use. `Books` reads a transcript in this way. The numbers of the
controls count up, so the books also say how many were made.

The first half of the file says what a transcript in order looks like to someone who does not
keep books: every control is disposed once, is left alone afterwards, and is made after all
earlier ones were disposed. The second half says what each operation of a session enters into
the books, and is all that the later files need of sessions.
-/

set_option autoImplicit false

namespace Interview

/-! ## Entries -/

/-- Whether an entry is not about a control. -/
def Entry.isNeutral : Entry → Bool
  | .made .. | .called .. | .handed .. => false
  | _ => true

/-- Whether an entry is about a control. -/
def Entry.touches (id : Nat) : Entry → Bool
  | .made j _ _ => j == id
  | .called j _ => j == id
  | .handed j _ => j == id
  | _ => false

/-- Whether an entry is the disposal of a control. -/
def Entry.disposes (id : Nat) : Entry → Bool
  | .called j .dispose => j == id
  | _ => false

theorem Entry.touches_of_isNeutral {e : Entry} (h : e.isNeutral = true) (id : Nat) :
    e.touches id = false := by
  cases e with
  | made | called | handed => exact absurd h (by simp [isNeutral])
  | _ => rfl

theorem Entry.disposes_of_isNeutral {e : Entry} (h : e.isNeutral = true) (id : Nat) :
    e.disposes id = false := by
  cases e with
  | made | called | handed => exact absurd h (by simp [isNeutral])
  | _ => rfl

theorem Entry.isNeutral_of_mem_noted {e : Entry} {notes : List Note}
    (h : e ∈ notes.map Entry.noted) : e.isNeutral = true := by
  obtain ⟨note, -, rfl⟩ := List.mem_map.mp h
  rfl

theorem Entry.isNeutral_of_mem_report {e : Entry} {o : Observer} {r : Report}
    (h : e ∈ o.entries r) : e.isNeutral = true := by
  unfold Observer.entries at h
  split at h
  · exact List.mem_singleton.mp h ▸ rfl
  · exact List.mem_singleton.mp h ▸ rfl
  · exact absurd h List.not_mem_nil

theorem Entry.eq_of_disposes {id : Nat} {e : Entry} (h : e.disposes id = true) :
    e = .called id .dispose := by
  unfold disposes at h
  split at h
  · rw [eq_of_beq h]
  · exact absurd h (by simp)

/-! ## Books -/

/-- **A transcript in order**, last entry first, with the number of controls that were made in it
and the one that is in use at its end. -/
inductive Books : List Entry → Nat → Option Nat → Prop
  | start : Books [] 0 none
  | neutral {es : List Entry} {n : Nat} {active : Option Nat} {e : Entry}
    (before : Books es n active) (neutral : e.isNeutral = true) : Books (e :: es) n active
  /-- A control is made when none is in use. -/
  | made {es : List Entry} {n : Nat} {kind : Control.Kind} {chrome : Chrome}
    (before : Books es n none) : Books (.made n kind chrome :: es) (n + 1) (some n)
  | called {es : List Entry} {n id : Nat} {c : Control.Call} (before : Books es n (some id))
    (mild : c ≠ .dispose) : Books (.called id c :: es) n (some id)
  | handed {es : List Entry} {n id : Nat} {e : Control.Event} (before : Books es n (some id)) :
    Books (.handed id e :: es) n (some id)
  /-- Disposing the control in use ends its use. -/
  | disposed {es : List Entry} {n id : Nat} (before : Books es n (some id)) :
    Books (.called id .dispose :: es) n none

namespace Books

variable {es : List Entry} {n id : Nat} {active : Option Nat}

/-- The control in use was made. -/
theorem active_lt (h : Books es n active) : active = some id → id < n := by
  induction h with
  | start => exact fun hid => absurd hid (by simp)
  | neutral _ _ ih => exact ih
  | made _ _ =>
      intro hid
      rw [Option.some.injEq] at hid
      exact hid ▸ Nat.lt_succ_self _
  | called _ _ ih => exact ih
  | handed _ ih => exact ih
  | disposed _ _ => exact fun hid => absurd hid (by simp)

/-- A control that a transcript mentions as made has its number below the count. -/
theorem lt_of_made (h : Books es n active) {kind : Control.Kind} {chrome : Chrome}
    (hmem : Entry.made id kind chrome ∈ es) : id < n := by
  induction h with
  | start => exact absurd hmem List.not_mem_nil
  | neutral _ hneutral ih =>
      rcases List.mem_cons.mp hmem with rfl | hmem
      · exact absurd hneutral (by simp [Entry.isNeutral])
      · exact ih hmem
  | made _ ih =>
      rcases List.mem_cons.mp hmem with heq | hmem
      · rw [Entry.made.injEq] at heq
        exact heq.1 ▸ Nat.lt_succ_self _
      · exact Nat.lt_succ_of_lt (ih hmem)
  | called _ _ ih => exact ih (by simpa using hmem)
  | handed _ ih => exact ih (by simpa using hmem)
  | disposed _ ih => exact ih (by simpa using hmem)

/-- **The balance.** A control that was made is either in use or was disposed once. -/
theorem balance (h : Books es n active) (id : Nat) :
    es.countP (Entry.disposes id) + (if active = some id then 1 else 0) =
      if id < n then 1 else 0 := by
  induction h with
  | start => rfl
  | neutral _ hneutral ih =>
      rw [List.countP_cons_of_neg (by simp [Entry.disposes_of_isNeutral hneutral]), ih]
  | @made es n kind chrome before ih =>
      rw [List.countP_cons_of_neg (by simp [Entry.disposes])]
      simp only [reduceCtorEq, if_false, Nat.add_zero, Option.some.injEq] at ih ⊢
      rw [ih]
      -- only the new control changes its side: it is made now, and in use
      rcases Nat.lt_trichotomy id n with hlt | rfl | hgt
      · rw [if_pos hlt, if_neg (Nat.ne_of_gt hlt), if_pos (Nat.lt_succ_of_lt hlt)]
      · rw [if_neg (Nat.lt_irrefl id), if_pos rfl, if_pos (Nat.lt_succ_self id)]
      · rw [if_neg (Nat.lt_asymm hgt), if_neg (Nat.ne_of_lt hgt),
          if_neg (Nat.not_lt_of_le hgt)]
  | @called es n j c before hmild ih =>
      rw [List.countP_cons_of_neg, ih]
      cases c with
      | dispose => exact absurd rfl hmild
      | _ => simp [Entry.disposes]
  | handed before ih =>
      rw [List.countP_cons_of_neg (by simp [Entry.disposes]), ih]
  | @disposed es n j before ih =>
      rw [List.countP_cons, ← ih]
      simp [Entry.disposes]

/-- There is one way to read a transcript. -/
theorem unique {m : Nat} {active' : Option Nat} (h : Books es n active)
    (h' : Books es m active') : n = m ∧ active = active' := by
  induction h generalizing m active' with
  | start =>
      cases h'
      exact ⟨rfl, rfl⟩
  | neutral _ hneutral ih =>
      cases h' with
      | neutral before' _ => exact ih before'
      | _ => exact absurd hneutral (by simp [Entry.isNeutral])
  | made _ ih =>
      cases h' with
      | neutral _ hneutral => exact absurd hneutral (by simp [Entry.isNeutral])
      | made _ => exact ⟨rfl, rfl⟩
  | called _ hmild ih =>
      cases h' with
      | neutral _ hneutral => exact absurd hneutral (by simp [Entry.isNeutral])
      | called before' _ => exact ih before'
      | disposed _ => exact absurd rfl hmild
  | handed _ ih =>
      cases h' with
      | neutral _ hneutral => exact absurd hneutral (by simp [Entry.isNeutral])
      | handed before' => exact ih before'
  | disposed _ ih =>
      cases h' with
      | neutral _ hneutral => exact absurd hneutral (by simp [Entry.isNeutral])
      | called _ hmild => exact absurd rfl hmild
      | disposed before' => exact ⟨(ih before').1, rfl⟩

/-- The books can be read up to any moment. -/
theorem of_append {later earlier : List Entry} (h : Books (later ++ earlier) n active) :
    ∃ m active', Books earlier m active' := by
  induction later generalizing n active with
  | nil => exact ⟨n, active, h⟩
  | cons e later ih =>
      cases h with
      | neutral before _ => exact ih before
      | made before => exact ih before
      | called before _ => exact ih before
      | handed before => exact ih before
      | disposed before => exact ih before

/-- **A control that is not in use any more is left alone.** The induction is on what comes later;
that the control was made and is not in use is kept on the way. -/
theorem untouched {later earlier : List Entry} (h : Books (later ++ earlier) n active) {m : Nat}
    {active' : Option Nat} (hearlier : Books earlier m active') (hid : id < m)
    (hidle : active' ≠ some id) :
    (∀ e ∈ later, e.touches id = false) ∧ id < n ∧ active ≠ some id := by
  induction later generalizing n active with
  | nil =>
      obtain ⟨rfl, rfl⟩ := unique h hearlier
      exact ⟨fun e he => absurd he List.not_mem_nil, hid, hidle⟩
  | cons e later ih =>
      cases h with
      | neutral before hneutral =>
          obtain ⟨hlater, hrest⟩ := ih before
          have hother := Entry.touches_of_isNeutral hneutral id
          exact ⟨List.forall_mem_cons.mpr ⟨hother, hlater⟩, hrest⟩
      | made before =>
          -- a new control has a number that no earlier one has
          obtain ⟨hlater, hlt, -⟩ := ih before
          refine ⟨List.forall_mem_cons.mpr ⟨?_, hlater⟩, Nat.lt_succ_of_lt hlt, ?_⟩
          · simpa [Entry.touches] using Nat.ne_of_gt hlt
          · simpa using Nat.ne_of_gt hlt
      | called before _ =>
          obtain ⟨hlater, hlt, hne⟩ := ih before
          refine ⟨List.forall_mem_cons.mpr ⟨?_, hlater⟩, hlt, hne⟩
          simpa [Entry.touches] using hne
      | handed before =>
          obtain ⟨hlater, hlt, hne⟩ := ih before
          refine ⟨List.forall_mem_cons.mpr ⟨?_, hlater⟩, hlt, hne⟩
          simpa [Entry.touches] using hne
      | disposed before =>
          -- what is disposed is the control in use, and that is another one
          obtain ⟨hlater, hlt, hne⟩ := ih before
          refine ⟨List.forall_mem_cons.mpr ⟨?_, hlater⟩, hlt, by simp⟩
          simpa [Entry.touches] using hne

/-- Where no control is in use, every control that was made was disposed once. -/
theorem countP_disposes (h : Books es n none) {kind : Control.Kind} {chrome : Chrome}
    (hmade : Entry.made id kind chrome ∈ es) : es.countP (Entry.disposes id) = 1 := by
  have hbalance := h.balance id
  rw [if_pos (h.lt_of_made hmade)] at hbalance
  simpa using hbalance

theorem mem_dispose (h : Books es n none) {kind : Control.Kind} {chrome : Chrome}
    (hmade : Entry.made id kind chrome ∈ es) : Entry.called id .dispose ∈ es := by
  have hpos : 0 < es.countP (Entry.disposes id) := by
    rw [h.countP_disposes hmade]
    exact Nat.one_pos
  obtain ⟨e, he, hdisposes⟩ := List.countP_pos_iff.mp hpos
  rwa [Entry.eq_of_disposes hdisposes] at he

/-- After a disposal no control is in use, and the disposed one was made before. -/
theorem of_dispose (h : Books (.called id .dispose :: es) n active) : id < n ∧ active = none := by
  cases h with
  | neutral _ hneutral => exact absurd hneutral (by simp [Entry.isNeutral])
  | called _ hmild => exact absurd rfl hmild
  | disposed before => exact ⟨before.active_lt rfl, rfl⟩

/-- Before a control is made none is in use. -/
theorem of_make {kind : Control.Kind} {chrome : Chrome}
    (h : Books (.made id kind chrome :: es) n active) : ∃ m, Books es m none := by
  cases h with
  | neutral _ hneutral => exact absurd hneutral (by simp [Entry.isNeutral])
  | made before => exact ⟨_, before⟩

end Books

/-! ## What books that are closed say -/

/-- **One control at a time, disposed once.** A transcript, first entry first, in which no control
is left in use. -/
structure ControlsDisposed (t : List Entry) : Prop where
  /-- Every control that was made was disposed exactly once. -/
  once : ∀ id kind chrome, Entry.made id kind chrome ∈ t → t.countP (Entry.disposes id) = 1
  /-- After its disposal a control is neither called nor asked for an event. -/
  silent : ∀ before after id, t = before ++ Entry.called id .dispose :: after →
    ∀ e ∈ after, e.touches id = false
  /-- A control is made when every earlier one was disposed. -/
  alone : ∀ before after id kind chrome, t = before ++ Entry.made id kind chrome :: after →
    ∀ j kind' chrome', Entry.made j kind' chrome' ∈ before → Entry.called j .dispose ∈ before

theorem Books.controlsDisposed {es : List Entry} {n : Nat} (h : Books es n none) :
    ControlsDisposed es.reverse where
  once := by
    intro id kind chrome hmem
    rw [List.countP_reverse]
    exact h.countP_disposes (List.mem_reverse.mp hmem)
  silent := by
    intro before after id hsplit e he
    have hes : es = after.reverse ++ Entry.called id .dispose :: before.reverse := by
      rw [← List.reverse_reverse es, hsplit]
      simp
    rw [hes] at h
    obtain ⟨m, active, hdisposed⟩ := h.of_append
    obtain ⟨hlt, rfl⟩ := hdisposed.of_dispose
    exact (h.untouched hdisposed hlt (by simp)).1 e (List.mem_reverse.mpr he)
  alone := by
    intro before after id kind chrome hsplit j kind' chrome' hmem
    have hes : es = after.reverse ++ Entry.made id kind chrome :: before.reverse := by
      rw [← List.reverse_reverse es, hsplit]
      simp
    rw [hes] at h
    obtain ⟨m, active, hmade⟩ := h.of_append
    obtain ⟨m', hearlier⟩ := hmade.of_make
    exact List.mem_reverse.mp (hearlier.mem_dispose (List.mem_reverse.mpr hmem))

/-! ## Sessions -/

namespace Session

/-- The transcript of the session is in order, and this control is in use. -/
def Uses (w : Session) (active : Option Nat) : Prop :=
  Books w.entries w.devices.length active

variable {w : Session} {id : Nat} {active : Option Nat}

theorem uses_new (host : Host) : (Session.new host).Uses none :=
  .start

/-- What changes neither the transcript nor the controls changes nothing in the books. -/
theorem Uses.congr {w' : Session} (h : w.Uses active) (hentries : w'.entries = w.entries)
    (hdevices : w'.devices.length = w.devices.length) : w'.Uses active := by
  rw [Uses, hentries, hdevices]
  exact h

theorem Uses.emit {es : List Entry} (h : w.Uses active) (hes : ∀ e ∈ es, e.isNeutral = true) :
    (w.emit es).Uses active := by
  induction es generalizing w with
  | nil => exact h
  | cons e es ih =>
      have hcons : w.emit (e :: es) = (w.emit [e]).emit es := by simp [Session.emit]
      rw [hcons]
      exact ih (h.neutral (hes e List.mem_cons_self)) fun e' he' =>
        hes e' (List.mem_cons_of_mem _ he')

theorem Uses.make (h : w.Uses none) (kind : Control.Kind) (chrome : Chrome) :
    (w.make kind chrome).2.Uses (some (w.make kind chrome).1) := by
  have hmade : Books (.made w.devices.length kind chrome :: w.entries) (w.devices.length + 1)
      (some w.devices.length) := h.made
  rcases hhost : w.host with (_ | ⟨script, rest⟩) | ⟨colorful, moves⟩
  · simpa [Uses, Session.make, Session.emit, hhost] using hmade
  · simpa [Uses, Session.make, Session.emit, hhost] using hmade
  · simpa [Uses, Session.make, Session.emit, hhost] using hmade

theorem Uses.call (h : w.Uses (some id)) {c : Control.Call} (hc : c ≠ .dispose) :
    (w.call id c).Uses (some id) := by
  simpa [Uses, Session.call, Session.emit] using Books.called h hc

theorem Uses.dispose (h : w.Uses (some id)) : (w.call id .dispose).Uses none := by
  simpa [Uses, Session.call, Session.emit] using Books.disposed h

theorem Uses.hand (h : w.Uses (some id)) (e : Control.Event) (log : List LogLine) (t : Terminal) :
    (w.hand id e log t).2.Uses (some id) := by
  have hset : Uses { w with devices := w.devices.set id (.shown t) } (some id) :=
    h.congr rfl List.length_set
  have hlog : ∀ e ∈ log.map Entry.logged, e.isNeutral = true := by
    intro e he
    obtain ⟨line, -, rfl⟩ := List.mem_map.mp he
    rfl
  simpa [Session.hand, Session.emit, Uses] using Books.handed (hset.emit hlog)

theorem Uses.close (h : w.Uses (some id)) (t : Terminal) (asked : Terminal.Content)
    (o : Terminal.Outcome) : (w.close id t asked o).2.Uses (some id) := by
  unfold Session.close
  exact Uses.hand (h.congr rfl rfl) _ _ _

theorem Uses.listen (h : w.Uses (some id)) (t : Terminal) (asked : Terminal.Content) :
    (w.listen id t asked).2.Uses (some id) := by
  unfold Session.listen
  split
  · split
    · exact h.congr rfl List.length_set
    · refine Uses.close ?_ t asked _
      exact h.congr rfl rfl
  · refine Uses.close ?_ t asked _
    exact h.congr rfl rfl

theorem Uses.prompt (h : w.Uses (some id)) (t : Terminal) :
    (w.prompt id t).2.Uses (some id) := by
  have hprint : (w.print t.printed).Uses (some id) := h.congr rfl rfl
  unfold Session.prompt
  split
  · exact hprint.hand _ _ _
  · exact hprint.listen _ _

/-- **Asking the control in use for an event keeps it in use.** -/
theorem Uses.next (h : w.Uses (some id)) : (w.next id).2.Uses (some id) := by
  unfold Session.next
  split
  · rename_i e rest _
    have hset : Uses { w with devices := w.devices.set id (.scripted rest) } (some id) :=
      h.congr rfl List.length_set
    exact hset.handed
  · split
    · exact h.hand _ _ _
    · exact h
    · exact h.prompt _
    · exact h.listen _ _
  · exact h.handed

theorem Uses.draw (h : w.Uses active) (deck copy : Nat) : (w.draw deck copy).2.Uses active := by
  unfold Session.draw
  split
  · exact h.congr rfl rfl
  · exact h

theorem Uses.report (h : w.Uses active) (o : Options) (r : Report) :
    (w.report o r).Uses active :=
  h.emit fun _ => Entry.isNeutral_of_mem_report

end Session

end Interview
