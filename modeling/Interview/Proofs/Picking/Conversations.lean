import Interview.Proofs.Ending.Screens
import Interview.Proofs.Picking.Tracking
import Interview.Proofs.Terminal.Screens
/-
Screens with a list, turn by turn.

While a screen is asked nothing changes of it but its list, and the list keeps up with its diary
(`Screen.Records`). So it does whatever the screen goes through before and after
(`Screen.Underwent.recorded`).

A diary also says how the asking ended. As long as nothing settles the question the conversation
goes on (`Diary.Unsettled`), and what settles it is the last thing that happens, and explains the
outcome (`Diary.Concludes`).
-/

set_option autoImplicit false

namespace Interview

open Control (Event Call)

/-! ## What settles a question -/

/-- Whether an incident settles the question for sure. A click may settle it or not. -/
def Tally.isSettledBy (many : Bool) (k : Tally) : Incident → Bool
  | .event .accept => (k.reply many).isSome
  | .event .hide => true
  | .failed _ false => true
  | _ => false

namespace Diary

variable {many : Bool} {k : Tally} {ms ns past own before after : Diary} {m : Incident}
  {o : Outcome (Reply Json)} {r : Reply Json}

/-- Nothing settles the question, from a tally on. -/
def Unsettled (many : Bool) : Tally → Diary → Prop
  | _, [] => True
  | k, m :: ms => k.isSettledBy many m = false ∧ Unsettled many (k.after m) ms

theorem unsettled_append :
    Unsettled many k (ms ++ ns) ↔
      Unsettled many k ms ∧ Unsettled many (ms.foldl Tally.after k) ns := by
  induction ms generalizing k with
  | nil => exact (and_iff_right trivial).symm
  | cons m ms ih =>
    rw [List.cons_append, Unsettled, Unsettled, ih, and_assoc]
    rfl

theorem Unsettled.singleton (h : k.isSettledBy many m = false) : Unsettled many k [m] :=
  ⟨h, trivial⟩

/-- Events apart, only a failure settles a question. -/
theorem Smooth.unsettled (h : ms.Smooth) : Unsettled many k ms := by
  induction ms generalizing k with
  | nil => trivial
  | cons m ms ih =>
    obtain ⟨hm, hms⟩ := List.forall_mem_cons.mp h
    refine ⟨?_, ih hms⟩
    cases m with
    | event e => exact absurd hm Bool.false_ne_true
    | failed f shown =>
      cases shown with
      | true => rfl
      | false => exact absurd hm Bool.false_ne_true
    | recalled | stocked | opened | brought | ended | called => rfl

theorem Unsettled.at (h : Unsettled many past.tally (before ++ m :: after)) :
    (past ++ before).tally.isSettledBy many m = false := by
  rw [tally_append]
  exact (unsettled_append.mp h).2.1

/-- How a conversation ends, and with what outcome. -/
inductive Concludes (many : Bool) (k : Tally) : Diary → Outcome (Reply Json) → Prop
  /-- It is broken off. -/
  | broken {own : Diary} {o : Outcome (Reply Json)} (unsettled : Unsettled many k own)
      (outcome : o = .exhausted ∨ o = .suspended) : Concludes many k own o
  /-- The selection is accepted. -/
  | accepted {own : Diary} {r : Reply Json} (unsettled : Unsettled many k own)
      (reply : (own.foldl Tally.after k).reply many = some r) :
      Concludes many k (own ++ [.event .accept]) (.done r)
  /-- The control is dismissed. -/
  | hidden {own : Diary} (unsettled : Unsettled many k own) :
      Concludes many k (own ++ [.event .hide]) (.done .cancel)
  /-- A click decides. -/
  | clicked {own : Diary} (unsettled : Unsettled many k own) (i : Nat)
      (o : Outcome (Reply Json)) : Concludes many k (own ++ [.event (.button i)]) o
  /-- A batch cannot be loaded. -/
  | failed {own : Diary} (unsettled : Unsettled many k own) (f : Failure) :
      Concludes many k (own ++ [.failed f false, .called (.setBusy false)])
        (.failed (.collaborator f))

/-- What comes before does not settle the question. -/
theorem Concludes.append (h : Concludes many (ms.foldl Tally.after k) own o)
    (hms : Unsettled many k ms) : Concludes many k (ms ++ own) o := by
  cases h with
  | broken unsettled outcome => exact .broken (unsettled_append.mpr ⟨hms, unsettled⟩) outcome
  | accepted unsettled reply =>
    rw [← List.append_assoc]
    apply Concludes.accepted (unsettled_append.mpr ⟨hms, unsettled⟩)
    rw [List.foldl_append]
    exact reply
  | hidden unsettled =>
    rw [← List.append_assoc]
    exact .hidden (unsettled_append.mpr ⟨hms, unsettled⟩)
  | clicked unsettled i o =>
    rw [← List.append_assoc]
    exact .clicked (unsettled_append.mpr ⟨hms, unsettled⟩) i o
  | failed unsettled f =>
    rw [← List.append_assoc]
    exact .failed (unsettled_append.mpr ⟨hms, unsettled⟩) f

/-- An incident is the last one, or comes before it. -/
theorem append_singleton_eq {x : Incident} (h : own ++ [x] = before ++ m :: after) :
    (after = [] ∧ own = before ∧ x = m) ∨
      ∃ rest, after = rest ++ [x] ∧ own = before ++ m :: rest := by
  rcases after.eq_nil_or_concat' with rfl | ⟨rest, y, rfl⟩
  · obtain ⟨rfl, hx⟩ := List.append_inj' h rfl
    exact Or.inl ⟨rfl, rfl, (List.cons.inj hx).1⟩
  · rw [← List.cons_append, ← List.append_assoc] at h
    obtain ⟨rfl, hx⟩ := List.append_inj' h rfl
    exact Or.inr ⟨rest, by rw [(List.cons.inj hx).1], rfl⟩

/-- **An acceptance that comes to a reply is the end**, and the reply is the outcome. -/
theorem Concludes.of_accept (h : Concludes many past.tally own o)
    (hown : own = before ++ .event .accept :: after)
    (hr : (past ++ before).tally.reply many = some r) : after = [] ∧ o = .done r := by
  have hnever : ∀ {rest}, ¬ Unsettled many past.tally (before ++ .event .accept :: rest) := by
    intro rest hrest
    have hreply := hrest.at
    rw [Tally.isSettledBy, hr] at hreply
    exact absurd hreply (by simp)
  cases h with
  | broken unsettled => exact absurd (hown ▸ unsettled) hnever
  | accepted unsettled reply =>
    rcases append_singleton_eq hown with ⟨rfl, rfl, -⟩ | ⟨rest, -, rfl⟩
    · rw [← tally_append, hr] at reply
      exact ⟨rfl, by rw [Option.some.inj reply]⟩
    · exact absurd unsettled hnever
  | hidden unsettled | clicked unsettled =>
    rcases append_singleton_eq hown with ⟨-, -, hx⟩ | ⟨rest, -, rfl⟩
    · exact absurd hx (by simp)
    · exact absurd unsettled hnever
  | failed unsettled f =>
    rw [List.append_cons] at hown
    rcases append_singleton_eq hown with ⟨-, -, hx⟩ | ⟨rest, -, hrest⟩
    · exact absurd hx (by simp)
    · rcases append_singleton_eq hrest with ⟨-, -, hx⟩ | ⟨rest, -, rfl⟩
      · exact absurd hx (by simp)
      · exact absurd unsettled hnever

/-- **A failure that is not shown is the end**, and it is the outcome. -/
theorem Concludes.of_failed (h : Concludes many past.tally own o) {f : Failure}
    (hown : own = before ++ .failed f false :: after) :
    after = [.called (.setBusy false)] ∧ o = .failed (.collaborator f) := by
  have hnever : ∀ {rest}, ¬ Unsettled many past.tally (before ++ .failed f false :: rest) := by
    intro rest hrest
    exact absurd hrest.at (by simp [Tally.isSettledBy])
  cases h with
  | broken unsettled => exact absurd (hown ▸ unsettled) hnever
  | accepted unsettled | hidden unsettled | clicked unsettled =>
    rcases append_singleton_eq hown with ⟨-, -, hx⟩ | ⟨rest, -, rfl⟩
    · exact absurd hx (by simp)
    · exact absurd unsettled hnever
  | failed unsettled f' =>
    rw [List.append_cons] at hown
    rcases append_singleton_eq hown with ⟨-, -, hx⟩ | ⟨rest, rfl, hrest⟩
    · exact absurd hx (by simp)
    · rcases append_singleton_eq hrest with ⟨rfl, -, hx⟩ | ⟨rest, -, rfl⟩
      · obtain ⟨rfl, -⟩ := Incident.failed.inj hx
        exact ⟨rfl, rfl⟩
      · exact absurd unsettled hnever

/-- An answer comes from an acceptance, unless a click gave it. -/
theorem Concludes.of_value (h : Concludes many past.tally own o) {v : Json}
    (ho : o = .done (.value v)) :
    (∃ before i, own = before ++ [.event (.button i)]) ∨
      ∃ before, own = before ++ [.event .accept] ∧
        (past ++ before).tally.reply many = some (.value v) := by
  cases h with
  | broken _ outcome =>
    rcases outcome with rfl | rfl
    · exact absurd ho (by simp)
    · exact absurd ho (by simp)
  | accepted _ reply =>
    rw [← tally_append] at reply
    rw [Outcome.done.inj ho] at reply
    exact Or.inr ⟨_, rfl, reply⟩
  | hidden => exact absurd ho (by simp)
  | clicked _ i => exact Or.inl ⟨_, i, rfl⟩
  | failed => exact absurd ho (by simp)

end Diary

/-! ## Turns -/

namespace Screen

variable {made : PickList} {base s : Screen} {past own : Diary} {ws : Session} {id : Nat}

/-- The screen is as it was but for its list, and the list keeps up with its diary. -/
def Records (base : Screen) (made : PickList) (ms : Diary) (s : Screen) : Prop :=
  ∃ l, s = { base with content := .list l } ∧
    l.Follows made base.wording base.placeholder ms

/-- What a turn comes to: the list keeps up, and an outcome is explained. -/
def Turn.Records (base : Screen) (made : PickList) (past own : Diary) : Turn → Prop
  | .stays s _ => Screen.Records base made (past ++ own) s ∧
      own.Unsettled made.many past.tally
  | .ends o s _ => Screen.Records base made (past ++ own) s ∧
      own.Concludes made.many past.tally o

theorem Turn.Records.append {turn : Turn} {ms : Diary} (hms : ms.Unsettled made.many past.tally)
    (h : turn.Records base made (past ++ ms) own) : turn.Records base made past (ms ++ own) := by
  cases turn with
  | stays s w =>
    obtain ⟨hrecords, hunsettled⟩ := h
    rw [Diary.tally_append] at hunsettled
    rw [List.append_assoc] at hrecords
    exact ⟨hrecords, Diary.unsettled_append.mpr ⟨hms, hunsettled⟩⟩
  | ends o s w =>
    obtain ⟨hrecords, hconcludes⟩ := h
    rw [Diary.tally_append] at hconcludes
    rw [List.append_assoc] at hrecords
    exact ⟨hrecords, hconcludes.append hms⟩

/-- What is to be shown of an event: the list keeps up, and what comes of the event is explained. -/
theorem Turn.records_react {e : Event} (hs : Screen.Records base made (past ++ [.event e]) (s.handle e).2.1)
    (hstay : (s.handle e).2.2 = .stay → past.tally.isSettledBy made.many (.event e) = false)
    (hsettle : ∀ r, (s.handle e).2.2 = .settle r →
      Diary.Concludes made.many past.tally [.event e] (.done r))
    (hfail : ∀ f, (s.handle e).2.2 = .fail f →
      Diary.Concludes made.many past.tally [.event e] (.failed (.collaborator f))) :
    (s.react id e ws).Records base made past [.event e] := by
  unfold Screen.react
  generalize s.handle e = handled at hs hstay hsettle hfail ⊢
  obtain ⟨acts, s', flow⟩ := handled
  cases flow with
  | stay => exact ⟨hs, .singleton (hstay rfl)⟩
  | settle r => exact ⟨hs, hsettle r rfl⟩
  | fail f => exact ⟨hs, hfail f rfl⟩

/-- A click leaves the screen as it is. -/
theorem handle_button (s : Screen) (i : Nat) : (s.handle (.button i)).2.1 = s := by
  rw [Screen.handle]
  split
  · rfl
  · rfl

/-- **The turn in which an event is handled.** -/
theorem Records.react (h : Records base made past s) (e : Event) :
    (s.react id e ws).Records base made past [.event e] := by
  obtain ⟨l, rfl, hl⟩ := h
  have hnothing : Diary.Unsettled made.many past.tally [] := trivial
  cases e with
  | hide =>
    have hhidden : ∀ r, Flow.settle .cancel = .settle r →
        Diary.Concludes made.many past.tally [.event .hide] (.done r) := by
      rintro r ⟨⟩
      exact .hidden hnothing
    exact Turn.records_react ⟨l, rfl, hl.event (by simp)⟩ (fun h => absurd h (by simp [handle]))
      hhidden (fun _ h => absurd h (by simp [handle]))
  | button i =>
    have hclicked : ∀ o, Diary.Concludes made.many past.tally [.event (.button i)] o :=
      fun o => .clicked hnothing i o
    apply Turn.records_react
    · rw [handle_button]
      exact ⟨l, rfl, hl.event (by simp)⟩
    · intro _
      rfl
    · exact fun r _ => hclicked (.done r)
    · exact fun f _ => hclicked (.failed (.collaborator f))
  | accept =>
    have hreply : l.accept = past.tally.reply made.many := hl.agrees.accept
    have hflow : (handle { base with content := .list l } .accept).2.2 =
        (past.tally.reply made.many).elim .stay .settle := by
      rw [← hreply]
      simp only [Screen.handle, Content.handle, PickList.handle]
      cases l.accept with
      | none => rfl
      | some r => rfl
    have hnext : Screen.Records base made (past ++ [.event .accept])
        (handle { base with content := .list l } .accept).2.1 := ⟨l, rfl, hl.handle .accept⟩
    rcases hr : past.tally.reply made.many with _ | r
    · -- without a reply the screen stays as it is
      have hstays : past.tally.isSettledBy made.many (.event .accept) = false := by
        rw [Tally.isSettledBy, hr]
        rfl
      rw [hr] at hflow
      exact Turn.records_react hnext (fun _ => hstays)
        (fun _ hsettle => absurd (hflow.symm.trans hsettle) (by simp))
        (fun _ hfail => absurd (hflow.symm.trans hfail) (by simp))
    · rw [hr] at hflow
      have haccepted : ∀ r', (handle { base with content := .list l } .accept).2.2 = .settle r' →
          Diary.Concludes made.many past.tally [.event .accept] (.done r') := by
        intro r' hsettle
        obtain rfl : r = r' := Flow.settle.inj (hflow.symm.trans hsettle)
        exact .accepted hnothing hr
      exact Turn.records_react hnext (fun hstay => absurd (hflow.symm.trans hstay) (by simp))
        haccepted (fun _ hfail => absurd (hflow.symm.trans hfail) (by simp))
  | selected places => exact ⟨⟨_, rfl, hl.handle (.selected places)⟩, rfl, trivial⟩
  | changed text => exact ⟨⟨_, rfl, hl.handle (.changed text)⟩, rfl, trivial⟩

/-- **One turn**: the batches that are ready come in, and then an event is waited for. -/
theorem Records.turn (h : Records base made past s) (id : Nat) (ws : Session) :
    (s.turn id ws).Records base made past (s.turnDiary id ws) := by
  obtain ⟨l, rfl, hl⟩ := h
  have hfinds := l.finds_look base.wording
  have hlooked : Records base made (past ++ l.intake base.wording)
      { base with content := .list (l.look base.wording).2.1 } := ⟨_, rfl, hl.look⟩
  rw [turn_eq, turnDiary]
  simp only [found, looked, lookActs, Content.look, Content.intake]
  generalize l.intake base.wording = own at hfinds hlooked ⊢
  generalize hlook : (l.look base.wording).2.2 = found at hfinds ⊢
  cases hfinds with
  | @await own smooth =>
    simp only [await]
    generalize perform id (l.look base.wording).1 ws = ws'
    apply Turn.Records.append smooth.unsettled
    rcases ws'.next id with ⟨arrival, ws''⟩
    cases arrival with
    | event e => exact hlooked.react e
    | notYet =>
      rw [← List.append_nil (past ++ own)] at hlooked
      exact ⟨hlooked, trivial⟩
    | rowsFirst =>
      rw [← List.append_nil (past ++ own)] at hlooked
      simp only
      split
      · exact ⟨hlooked, .broken trivial (Or.inr rfl)⟩
      · exact ⟨hlooked, trivial⟩
  | @failed own smooth f =>
    rw [List.append_nil]
    exact ⟨hlooked, .failed smooth.unsettled f⟩

/-! ## Being asked -/

/-- **A conversation.** -/
theorem Records.converse (h : Records base made past s) (id n : Nat) (ws : Session) :
    Records base made (past ++ s.diary id n ws) (s.converse id n ws).2.1 ∧
      (s.diary id n ws).Concludes made.many past.tally (s.converse id n ws).1 := by
  induction n generalizing s past ws with
  | zero =>
    rw [diary, List.append_nil]
    exact ⟨h, .broken trivial (Or.inl rfl)⟩
  | succ n ih =>
    have hturn := h.turn id ws
    rw [Screen.converse, diary]
    rcases heq : s.turn id ws with ⟨s', ws'⟩ | ⟨o, s', ws'⟩
    · rw [heq] at hturn
      obtain ⟨hrecords, hunsettled⟩ := hturn
      obtain ⟨hend, hconcludes⟩ := ih hrecords ws'
      rw [Diary.tally_append] at hconcludes
      rw [List.append_assoc] at hend
      exact ⟨hend, hconcludes.append hunsettled⟩
    · rw [heq] at hturn
      rw [List.append_nil]
      exact hturn

/-- What is known of a screen whenever it is not being asked. -/
structure Recorded (made : PickList) (w : Wording) (hint : Option String) (ms : Diary)
    (s : Screen) : Prop where
  wording : s.wording = w
  placeholder : s.placeholder = hint
  content : ∃ l, s.content = .list l ∧ l.Follows made w hint ms
  /-- Without a control the list was not shown yet, unless the screen gave its control up. -/
  unshown : s.disposed = false → s.control = none → ms.tally.phase = .unshown

variable {w : Wording} {hint : Option String} {ms : Diary}

theorem Records.recorded (h : Records base made past s) {i : Nat} (hi : base.control = some i) :
    s.Recorded made base.wording base.placeholder past := by
  obtain ⟨l, rfl, hl⟩ := h
  exact ⟨rfl, rfl, ⟨l, rfl, hl⟩, fun _ hnone => absurd (hi.symm.trans hnone) (by simp)⟩

theorem Recorded.records (h : s.Recorded made w hint ms) : Records s made ms s := by
  obtain ⟨l, hs, hl⟩ := h.content
  rw [← h.wording, ← h.placeholder] at hl
  exact ⟨l, by rw [← hs], hl⟩

/-- **A screen appears.** -/
theorem Recorded.appear (h : s.Recorded made w hint ms) (hopen : s.disposed = false)
    (ws : Session) :
    (s.appear ws).2.1.Recorded made w hint (ms ++ s.appearance) ∧
      (s.appear ws).2.1.control = some (s.appear ws).1 := by
  obtain ⟨l, hs, hl⟩ := h.content
  have hvisible : l.Follows made w hint (ms ++ [.called .makeVisible]) := by
    apply hl.concat (m := .called .makeVisible) rfl rfl
    exact ⟨hl.agrees.same, hl.agrees.items, hl.agrees.recent, hl.agrees.selection,
      hl.agrees.vacant, hl.agrees.idle, hl.agrees.loading, hl.agrees.placeholder⟩
  unfold Screen.appear appearance
  rcases hcontrol : s.control with _ | id
  · -- the list is shown for the first time
    have hphase : (Diary.tally (ms ++ [.called .makeVisible])).phase = .unshown := by
      rw [Diary.tally_concat]
      exact h.unshown hopen hcontrol
    have hopening := hvisible.opening hphase
    rw [List.append_assoc, ← h.wording, ← h.placeholder] at hopening
    rw [← h.wording, ← h.placeholder]
    simp only [hs]
    exact ⟨⟨rfl, rfl, ⟨_, rfl, hopening⟩, fun _ hnone => absurd hnone (by simp)⟩, trivial⟩
  · exact ⟨⟨h.wording, h.placeholder, ⟨l, hs, hvisible⟩,
      fun _ hnone => absurd (hcontrol.symm.trans hnone) (by simp)⟩, hcontrol⟩

/-- Nothing is settled when a screen appears. -/
theorem smooth_appearance (s : Screen) : s.appearance.Smooth := by
  unfold appearance
  apply Diary.Smooth.cons _ rfl
  split
  · exact Diary.smooth_nil
  · unfold Content.opening
    split
    · exact Diary.smooth_nil
    · unfold PickList.opening
      split
      · exact (Diary.smooth_calls _).cons rfl
      · exact (Diary.smooth_calls _).cons rfl

/-- **A screen that is asked** keeps its diary, and how the asking ends is explained, unless the
screen was disposed. -/
theorem Recorded.ask (h : s.Recorded made w hint ms) (n : Nat) (ws : Session) :
    (s.ask n ws).2.1.Recorded made w hint (ms ++ s.askDiary n ws) ∧
      (s.disposed = false →
        (s.askDiary n ws).Concludes made.many ms.tally (s.ask n ws).1) := by
  rw [Screen.ask, askDiary]
  by_cases hdisposed : s.disposed = true
  · rw [if_pos hdisposed, if_pos hdisposed, List.append_nil]
    exact ⟨h, fun hopen => absurd (hopen.symm.trans hdisposed) (by simp)⟩
  · rw [if_neg hdisposed, if_neg hdisposed]
    obtain ⟨happeared, hcontrol⟩ := h.appear (by simpa using hdisposed) ws
    obtain ⟨hend, hconcludes⟩ := happeared.records.converse (s.appear ws).1 n (s.appear ws).2.2
    have hrecorded := hend.recorded hcontrol
    rw [happeared.wording, happeared.placeholder, List.append_assoc] at hrecorded
    rw [Diary.tally_append] at hconcludes
    exact ⟨hrecorded, fun _ => hconcludes.append s.smooth_appearance.unsettled⟩

theorem Recorded.restore (h : s.Recorded made w hint ms) (a : Attempt Json) :
    (s.restore a).Recorded made w hint (ms ++ PickList.recollection made.many a.value) := by
  obtain ⟨l, hs, hl⟩ := h.content
  refine ⟨h.wording, h.placeholder, ⟨l.restore a, ?_, hl.restore a⟩, ?_⟩
  · rw [Screen.restore, hs]
    rfl
  · intro hopen hcontrol
    have hphase := h.unshown hopen hcontrol
    -- what is recalled has nothing to do with loading
    rw [Diary.tally_append]
    unfold PickList.recollection
    split
    · exact hphase
    · exact hphase
    · exact hphase

theorem Recorded.place (h : s.Recorded made w hint ms) (current total : Nat) (ws : Session) :
    (s.place current total ws).1.Recorded made w hint ms := by
  unfold Screen.place
  simp only
  split
  · exact ⟨h.wording, h.placeholder, h.content, h.unshown⟩
  · exact ⟨h.wording, h.placeholder, h.content, h.unshown⟩

theorem Recorded.dispose (h : s.Recorded made w hint ms) (ws : Session) :
    (s.dispose ws).1.Recorded made w hint ms := by
  unfold Screen.dispose
  split
  · exact h
  · split
    · exact ⟨h.wording, h.placeholder, h.content, fun hopen => absurd hopen (by simp)⟩
    · exact ⟨h.wording, h.placeholder, h.content, fun hopen => absurd hopen (by simp)⟩

/-- The wording and the placeholder are those that the screen has. -/
theorem Recorded.self (h : s.Recorded made w hint ms) :
    s.Recorded made s.wording s.placeholder ms := by
  rw [h.wording, h.placeholder]
  exact h

/-- **Whatever a screen has gone through**, its list keeps up with its diary. -/
theorem Underwent.recorded (h : Underwent made s ms) :
    s.Recorded made s.wording s.placeholder ms := by
  induction h with
  | fresh hs hmade hselection hcontrol =>
    exact ⟨rfl, rfl, ⟨made, hs, PickList.follows_fresh hmade hselection⟩, fun _ _ => rfl⟩
  | asked _ n ws ih => exact (ih.ask n ws).1.self
  | restored _ a ih => exact (ih.restore a).self
  | placed _ current total ws ih => exact (ih.place current total ws).self
  | disposed _ ws ih => exact (ih.dispose ws).self

/-- **The diary of a screen is true**, whenever it is broken off while no call is due. -/
theorem Underwent.truthful (h : Underwent made s past) {n : Nat} {ws : Session}
    {before after : Diary} (hown : past ++ s.askDiary n ws = before ++ after)
    (hrest : Diary.AtRest after) : before.Truthful made s.wording s.placeholder := by
  obtain ⟨l, -, hl⟩ := (h.recorded.ask n ws).1.content
  have htruthful := hl.truthful
  rw [hown] at htruthful
  exact htruthful.of_append hrest

/-- In particular it is true up to an acceptance. -/
theorem Underwent.truthful_upto (h : Underwent made s past) {n : Nat} {ws : Session}
    {before after : Diary} (hown : s.askDiary n ws = before ++ .event .accept :: after) :
    (past ++ before).Truthful made s.wording s.placeholder := by
  have hwhole : past ++ s.askDiary n ws = (past ++ before) ++ .event .accept :: after := by
    rw [hown, List.append_assoc]
  apply h.truthful hwhole
  rintro m rest ⟨⟩
  rfl

/-- A screen that was disposed does nothing. -/
theorem open_of_askDiary {n : Nat} {before after : Diary} {m : Incident}
    (hown : s.askDiary n ws = before ++ m :: after) : s.disposed = false := by
  by_contra hdisposed
  rw [askDiary, if_pos (by simpa using hdisposed)] at hown
  simp at hown

/-- **An acceptance that comes to a reply settles the question**, there and then. -/
theorem Underwent.accepted (h : Underwent made s past) {n : Nat} {before after : Diary}
    {r : Reply Json} (hown : s.askDiary n ws = before ++ .event .accept :: after)
    (hr : (past ++ before).tally.reply made.many = some r) :
    after = [] ∧ (s.ask n ws).1 = .done r :=
  ((h.recorded.ask n ws).2 (open_of_askDiary hown)).of_accept hown hr

end Screen

end Interview
