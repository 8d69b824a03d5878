import Interview.Proofs.Controls.Decisions
/-
What screens pay attention to.

Two kinds of events stand at the two ends. Some decide at once, and they were looked at in their own
module. Others do nothing: clicks on buttons that are not there or settle nothing, and events that
only the other kind of content knows. A screen that is not waiting for its own work takes no notice
of them, however many there are and wherever they come (`Screen.attentive_of_quiet`).

The two conversations to compare have different lengths, so no induction on the turns of both fits.
It is on the turns of the one without the idle events. Before each of its events the other one skips
the idle events that come there (`Screen.Keen.skip`).

That the screen is not waiting for its own work is needed. An idle event takes a turn, and a check
that is not ready is looked at once more before the next event comes.
-/

set_option autoImplicit false

namespace Interview

open Control (Event Call)

/-! ## Work that is done at once -/

namespace TextEntry

variable {t t' : TextEntry}

/-- Every check has answered when it is looked at. -/
structure AtOnce (t : TextEntry) : Prop where
  validator : ∀ f, t.validator = some f → ∀ before text, (f before text).delay.isOver = true
  pending : ∀ p, t.pending = some p → p.delay.isOver = true

theorem AtOnce.of_same (h : t.AtOnce) (hvalidator : t'.validator = t.validator)
    (hpending : t'.pending = t.pending) : t'.AtOnce :=
  ⟨hvalidator ▸ h.validator, hpending ▸ h.pending⟩

theorem AtOnce.of_idle (h : t.AtOnce) (hvalidator : t'.validator = t.validator)
    (hpending : t'.pending = none) : t'.AtOnce := by
  refine ⟨hvalidator ▸ h.validator, fun p hp => ?_⟩
  rw [hpending] at hp
  exact absurd hp (by simp)

theorem AtOnce.start (h : t.AtOnce) : t.start.2.AtOnce := by
  unfold TextEntry.start
  split
  · rw [display_snd]
    exact h.of_same rfl rfl
  · exact h

/-- **After a look no check is in flight.** -/
theorem AtOnce.look (h : t.AtOnce) : t.look.2.1.AtOnce ∧ t.look.2.1.pending = none := by
  unfold TextEntry.look
  split
  · rename_i hidle
    exact ⟨h, hidle⟩
  · rename_i p hp
    rw [if_pos (h.pending p hp)]
    rcases p.verdict with f | verdict
    · exact ⟨h.of_idle rfl rfl, rfl⟩
    · simp only [display_snd]
      exact ⟨h.of_idle rfl rfl, trivial⟩

theorem AtOnce.judge (h : t.AtOnce) : t.judge.2.1.AtOnce := by
  have hjudges := judges_judge t
  generalize t.judge = judged at hjudges ⊢
  cases hjudges with
  | unchecked => exact h.of_same rfl rfl
  | known => exact h.of_same rfl rfl
  | underway => exact h
  | @begins f hf =>
    refine ⟨h.validator, fun p hp => ?_⟩
    obtain rfl := Option.some.inj hp
    exact h.validator f hf _ _

theorem AtOnce.handle (h : t.AtOnce) (e : Event) : (t.handle e).2.1.AtOnce := by
  cases e with
  | changed text =>
    have hchanged : AtOnce { t with value := text, acceptWaits := false } := h.of_same rfl rfl
    simp only [TextEntry.handle]
    split
    · exact hchanged.judge
    · rw [display_snd]
      exact hchanged.of_idle rfl rfl
  | accept =>
    obtain ⟨-, b, hnext⟩ := t.handle_accept
    rw [hnext]
    exact h.judge.of_same rfl rfl
  | selected | hide | button => exact h

end TextEntry

/-- All batches are there when they are looked for, and so is their end. -/
def Batch.AtOnce (batches : List Batch) (ending : Delay) : Prop :=
  (∀ b ∈ batches, b.delay.isOver = true) ∧ ending.isOver = true

namespace PickList

variable {l l' : PickList} {w : Wording}

/-- All items are there when they are looked for. -/
structure AtOnce (l : PickList) : Prop where
  source : ∀ load, l.source = .lazy load → Batch.AtOnce load.batches load.ending
  loading : ∀ batches ending, l.loading = some (batches, ending) → Batch.AtOnce batches ending

theorem AtOnce.of_same (h : l.AtOnce) (hsource : l'.source = l.source)
    (hloading : l'.loading = l.loading) : l'.AtOnce :=
  ⟨hsource ▸ h.source, hloading ▸ h.loading⟩

theorem AtOnce.of_idle (h : l.AtOnce) (hsource : l'.source = l.source)
    (hloading : l'.loading = none) : l'.AtOnce := by
  refine ⟨hsource ▸ h.source, fun batches ending hbatches => ?_⟩
  rw [hloading] at hbatches
  exact absurd hbatches (by simp)

/-- Showing the items is no loading. -/
theorem render_loading (l : PickList) (w : Wording) (finished : Bool) :
    (l.render w finished).2.source = l.source ∧
      (l.render w finished).2.loading = l.loading := by
  unfold render
  split
  · exact ⟨rfl, rfl⟩
  · exact ⟨rfl, rfl⟩

/-- **Whatever is there is taken in**, to the end or to the first failure. -/
theorem takeIn_atOnce {batches : List Batch} {ending : Delay} (h : Batch.AtOnce batches ending)
    (l : PickList) :
    (takeIn w ending batches l).2.1.source = l.source ∧
      (takeIn w ending batches l).2.1.loading = none := by
  have hfinish : ∀ l : PickList,
      (l.finishLoading w).2.source = l.source ∧ (l.finishLoading w).2.loading = none :=
    fun l => render_loading { l with loading := none } w true
  obtain ⟨hbatches, hending⟩ := h
  induction batches generalizing l with
  | nil =>
    rw [takeIn, if_pos hending]
    exact hfinish l
  | cons b rest ih =>
    obtain ⟨hb, hrest⟩ := List.forall_mem_cons.mp hbatches
    rw [takeIn, if_pos hb]
    simp only
    split
    · rename_i items _
      obtain ⟨hsource, hloading⟩ := ih
        (render { l with items := l.items ++ items, loading := some (rest, ending) } w false).2 hrest
      rw [(render_loading _ w false).1] at hsource
      exact ⟨hsource, hloading⟩
    · split
      · exact hfinish l
      · exact ⟨rfl, rfl⟩

theorem AtOnce.look (h : l.AtOnce) : (l.look w).2.1.AtOnce ∧ (l.look w).2.1.loading = none := by
  unfold PickList.look
  split
  · rename_i hidle
    exact ⟨h, hidle⟩
  · rename_i batches ending hloading
    obtain ⟨hsource, hidle⟩ := takeIn_atOnce (w := w) (h.loading batches ending hloading) l
    exact ⟨h.of_idle hsource hidle, hidle⟩

theorem AtOnce.start (h : l.AtOnce) : (l.start w).2.AtOnce := by
  unfold PickList.start
  split
  · rename_i items _
    obtain ⟨hsource, hloading⟩ := render_loading { l with items } w true
    exact h.of_same hsource hloading
  · rename_i load hlazy
    refine ⟨h.source, fun batches ending hloading => ?_⟩
    obtain ⟨rfl, rfl⟩ := Prod.mk.inj (Option.some.inj hloading)
    exact h.source load hlazy

theorem AtOnce.handle (h : l.AtOnce) (e : Event) : (l.handle e).1.AtOnce := by
  cases e with
  | selected => exact h.of_same rfl rfl
  | changed | accept | hide | button => exact h

end PickList

namespace Content

variable {c : Content} {e : Event}

/-- Whatever the content waits for is there when it is looked for. -/
def AtOnce : Content → Prop
  | text t => t.AtOnce
  | list l => l.AtOnce

theorem AtOnce.start (h : c.AtOnce) (w : Wording) (chrome : Chrome) :
    (c.start w chrome).2.AtOnce := by
  cases c with
  | text t => exact TextEntry.AtOnce.start h
  | list l =>
    have hl : PickList.AtOnce { l with placeholder := chrome.placeholder } :=
      PickList.AtOnce.of_same h rfl rfl
    exact hl.start

/-- **After a look there is nothing left to look for.** -/
theorem AtOnce.look (h : c.AtOnce) (w : Wording) :
    (c.look w).2.1.AtOnce ∧ (c.look w).2.1.look w = ([], (c.look w).2.1, .await) := by
  cases c with
  | text t =>
    obtain ⟨hatOnce, hidle⟩ := TextEntry.AtOnce.look h
    refine ⟨hatOnce, ?_⟩
    show Content.look w (.text t.look.2.1) = _
    rw [Content.look, TextEntry.look, hidle]
    rfl
  | list l =>
    obtain ⟨hatOnce, hidle⟩ := PickList.AtOnce.look (w := w) h
    refine ⟨hatOnce, ?_⟩
    show Content.look w (.list (l.look w).2.1) = _
    rw [Content.look, PickList.look, hidle]
    rfl

theorem AtOnce.handle (h : c.AtOnce) (e : Event) : (c.handle e).2.1.AtOnce := by
  cases c with
  | text t => exact TextEntry.AtOnce.handle h e
  | list l => exact PickList.AtOnce.handle h e

/-! ## Idle events -/

/-- Whether the content is a line of text, and not a list. That stays as it is. -/
def isText : Content → Bool
  | text _ => true
  | list _ => false

theorem isText_start (c : Content) (w : Wording) (chrome : Chrome) :
    (c.start w chrome).2.isText = c.isText := by
  cases c with
  | text | list => rfl

theorem isText_look (c : Content) (w : Wording) : (c.look w).2.1.isText = c.isText := by
  cases c with
  | text | list => rfl

theorem isText_handle (c : Content) (e : Event) : (c.handle e).2.1.isText = c.isText := by
  cases c with
  | text | list => rfl

/-- Events that only the other kind of content knows. -/
def Ignores (c : Content) : Event → Prop
  | .selected _ => c.isText = true
  | .changed _ => c.isText = false
  | _ => False

/-- An event that is ignored does nothing. -/
theorem Ignores.handle_eq (h : c.Ignores e) : c.handle e = ([], c, none) := by
  cases c with
  | text t =>
    cases e with
    | selected => rfl
    | changed => exact absurd h (by simp [Ignores, isText])
    | accept | hide | button => exact h.elim
  | list l =>
    cases e with
    | changed => rfl
    | selected => exact absurd h (by simp [Ignores, isText])
    | accept | hide | button => exact h.elim

end Content

/-- **The second list has some more elements of this kind**, in any places. -/
inductive Padded {α : Type} (idle : α → Prop) : List α → List α → Prop
  | nil : Padded idle [] []
  | keep (x : α) {xs ys : List α} (rest : Padded idle xs ys) : Padded idle (x :: xs) (x :: ys)
  | insert {y : α} {xs ys : List α} (here : idle y) (rest : Padded idle xs ys) :
      Padded idle xs (y :: ys)

namespace Screen

variable {base s s₁ : Screen} {w w' w₁ : Session} {id : Nat} {e : Event} {es es' : List Event}
  {host host' : Host} {o : Outcome (Reply Json)}

/-- Events that do nothing to a screen: a click that decides nothing, because there is no such button
or because its handler succeeds and settles nothing, and what its content ignores. -/
def Disregards (s : Screen) : Event → Prop
  | .button i => s.decision? (.button i) = none
  | e => s.content.Ignores e

/-- The screen has these buttons, its content is of this kind, and its work is done at once. -/
structure Keen (base s : Screen) : Prop extends Minds base s where
  atOnce : s.content.AtOnce
  isText : s.content.isText = base.content.isText

theorem Keen.looked (h : Keen base s) : Keen base s.looked ∧ s.looked.Rests := by
  obtain ⟨hatOnce, hrests⟩ := h.atOnce.look s.wording
  exact ⟨⟨h.toMinds.looked.1, hatOnce, (s.content.isText_look _).trans h.isText⟩, hrests⟩

theorem Keen.handle (h : Keen base s) (e : Event) : Keen base (s.handle e).2.1 := by
  have hminds := (h.toMinds.handle e).1
  have hhandled := s.handled_handle e
  generalize s.handle e = handled at hminds hhandled ⊢
  cases hhandled with
  | hides | misses | clicks => exact h
  | passes => exact ⟨hminds, h.atOnce.handle e, (s.content.isText_handle e).trans h.isText⟩

/-- An idle event leaves notes, and nothing else. -/
theorem Keen.handle_idle (h : Keen base s) (he : base.Disregards e) :
    ∃ notes, s.handle e = (Act.ofNotes notes, s, .stay) := by
  have hhandled := s.handled_handle e
  generalize s.handle e = handled at hhandled ⊢
  cases hhandled with
  | hides => exact he.elim
  | misses => exact ⟨[], rfl⟩
  | @clicks i b hb =>
    have hnone : s.decision? (.button i) = none := (h.decision?_eq _).trans he
    rw [decision?, hb] at hnone
    have hclick : b.click = .ok none := b.decision?_eq_none_iff.mp hnone
    exact ⟨b.notes, by rw [hclick]⟩
  | passes hhide hbutton =>
    have hignores : s.content.Ignores e := by
      cases e with
      | hide => exact absurd rfl hhide
      | button i => exact absurd rfl (hbutton i)
      | changed | selected => exact h.isText.trans he
      | accept => exact he.elim
    exact ⟨[], by rw [hignores.handle_eq]; rfl⟩

/-- **A turn in which an idle event comes** leaves the screen as it is, and its control too. -/
theorem Keen.turn_idle (h : Keen base s) (hrests : s.Rests) (he : base.Disregards e)
    (hw : w.Plays id (e :: es) host) :
    ∃ w', s.turn id w = .stays s w' ∧ w'.Plays id es host ∧ w'.calls id = w.calls id := by
  obtain ⟨notes, hhandle⟩ := h.handle_idle he
  obtain ⟨w₁, hnext, hplays⟩ := hw.next
  have hcalls : w₁.calls id = w.calls id := by
    rw [← Session.calls_next (w := w), hnext]
  refine ⟨perform id (Act.ofNotes notes) w₁, ?_, hplays.perform _, ?_⟩
  · rw [hrests.turn_eq, await, hnext, List.headD_cons]
    simp only [Screen.react, hhandle]
  · rw [calls_perform (mild_ofNotes notes), Act.calls_ofNotes, List.append_nil, hcalls]

/-- **Idle events are skipped**: after some turns the screen waits for an event with which the list
without idle events begins, or for the end of both. The induction is on the idle events. -/
theorem Keen.skip (h : Keen base s) (hrests : s.Rests) (hpadded : Padded base.Disregards es es')
    (hw : w.Plays id es' host) :
    ∃ k w' rest, (∀ n, s.converse id (k + n) w = s.converse id n w') ∧
      w'.Plays id rest host ∧ w'.calls id = w.calls id ∧
      rest.headD .hide = es.headD .hide ∧ Padded base.Disregards es.tail rest.tail := by
  induction hpadded generalizing w with
  | nil => exact ⟨0, w, [], fun n => by rw [Nat.zero_add], hw, rfl, rfl, .nil⟩
  | keep e rest => exact ⟨0, w, _, fun n => by rw [Nat.zero_add], hw, rfl, rfl, rest⟩
  | insert he _ ih =>
    obtain ⟨w₁, hturn, hplays, hcalls⟩ := h.turn_idle hrests he hw
    obtain ⟨k, w', rest, hconverse, hw', hcalls', hhead, hpadded⟩ := ih hplays
    refine ⟨k + 1, w', rest, fun n => ?_, hw', hcalls'.trans hcalls, hhead, hpadded⟩
    rw [Nat.add_right_comm, converse_succ, hturn]
    exact hconverse n

/-! ## Two conversations -/

/-- With some number of turns it comes to this outcome and this screen as well, and the control is
called on the way as it is called between the two sessions. -/
def Follows (id : Nat) (w w₁ w' : Session) (o : Outcome (Reply Json)) (s₁ : Screen)
    (f : Nat → Outcome (Reply Json) × Screen × Session) : Prop :=
  ∃ n w₁' own, f n = (o, s₁, w₁') ∧ w₁.calls id = w.calls id ++ own ∧
    w₁'.calls id = w'.calls id ++ own

/-- The same calls may come before. -/
theorem Follows.after {f : Nat → Outcome (Reply Json) × Screen × Session} {w₀ w₀' : Session}
    {own : List Call} (hw : w.calls id = w₀.calls id ++ own) (hw' : w'.calls id = w₀'.calls id ++ own)
    (h : Follows id w w₁ w' o s₁ f) : Follows id w₀ w₁ w₀' o s₁ f := by
  obtain ⟨n, w₁', more, hf, hcalls, hcalls'⟩ := h
  refine ⟨n, w₁', own ++ more, hf, ?_, ?_⟩
  · rw [hcalls, hw, List.append_assoc]
  · rw [hcalls', hw', List.append_assoc]

/-- What a conversation comes to in `n` turns, one with more idle events comes to as well. -/
def Follow (base : Screen) (id n : Nat) : Prop :=
  ∀ (s : Screen) (w w' w₁ : Session) (es es' : List Event) (host host' : Host)
    (o : Outcome (Reply Json)) (s₁ : Screen), Keen base s → w.Plays id es host →
    w'.Plays id es' host' → Padded base.Disregards es es' → o ≠ .exhausted →
    s.converse id n w = (o, s₁, w₁) → Follows id w w₁ w' o s₁ fun n => s.converse id n w'

/-- Handling the same event in both. -/
theorem Keen.follows_react {n : Nat} (hfollow : Follow base id n) (h : Keen base s)
    (hw : w.Plays id es host) (hw' : w'.Plays id es' host')
    (hpadded : Padded base.Disregards es es') (ho : o ≠ .exhausted)
    (hgo : (s.react id e w).goOn id n = (o, s₁, w₁)) :
    Follows id w w₁ w' o s₁ fun n => (s.react id e w').goOn id n := by
  have hmild := (h.toMinds.handle e).2
  refine Follows.after (calls_perform hmild) (calls_perform hmild) ?_
  unfold Screen.react at hgo ⊢
  simp only at hgo ⊢
  generalize (s.handle e).2.2 = flow at hgo ⊢
  cases flow with
  | stay =>
    exact hfollow _ _ _ _ _ _ _ _ _ _ (h.handle e) (hw.perform _) (hw'.perform _) hpadded ho hgo
  | settle | fail =>
    obtain ⟨rfl, rfl, rfl⟩ := hgo
    exact ⟨0, _, [], rfl, (List.append_nil _).symm, (List.append_nil _).symm⟩

/-- **With idle events a conversation comes to the same.** The induction is on the turns without
them. -/
theorem follow (base : Screen) (id n : Nat) : Follow base id n := by
  induction n with
  | zero =>
    intro s w w' w₁ es es' host host' o s₁ _ _ _ _ ho hconverse
    exact absurd (congrArg Prod.fst hconverse).symm ho
  | succ n ih =>
    intro s w w' w₁ es es' host host' o s₁ h hw hw' hpadded ho hconverse
    obtain ⟨hlooked, hrests⟩ := h.looked
    have hmild := h.toMinds.looked.2
    have hplays := hw.perform s.lookActs
    have hplays' := hw'.perform s.lookActs
    refine Follows.after (calls_perform hmild) (calls_perform hmild) ?_
    rcases hfound : s.found with _ | _ | f
    · -- the next event is awaited, and the other conversation skips its idle events first
      obtain ⟨k, w₂', rest, hskip, hw₂', hcalls', hhead, htail⟩ :=
        hlooked.skip hrests hpadded hplays'
      obtain ⟨w₂, hnext, hw₂⟩ := hplays.next
      obtain ⟨w₃', hnext', hw₃'⟩ := hw₂'.next
      rw [converse_looked hfound hrests, converse_succ, hrests.turn_eq, await, hnext] at hconverse
      have hcalls₂ : w₂.calls id = (perform id s.lookActs w).calls id := by
        rw [← Session.calls_next (w := perform id s.lookActs w), hnext]
      have hcalls₃ : w₃'.calls id = (perform id s.lookActs w').calls id := by
        rw [← hcalls', ← Session.calls_next (w := w₂'), hnext']
      obtain ⟨m, w₁', own, hm, hown, hown'⟩ :=
        hlooked.follows_react ih hw₂ hw₃' htail ho hconverse
      refine ⟨k + m + 1, w₁', own, ?_, hcalls₂ ▸ hown, hcalls₃ ▸ hown'⟩
      show s.converse id (k + m + 1) w' = _
      rw [converse_looked hfound hrests, Nat.add_assoc, hskip, converse_succ, hrests.turn_eq, await,
        hnext', hhead]
      exact hm
    · -- an acceptance is due in both
      rw [converse_succ, turn_eq, hfound] at hconverse
      obtain ⟨m, hm⟩ := hlooked.follows_react ih hplays hplays' hpadded ho hconverse
      refine ⟨m + 1, ?_⟩
      simp only [converse_succ, turn_eq, hfound]
      exact hm
    · rw [converse_succ, turn_eq, hfound] at hconverse
      obtain ⟨rfl, rfl, rfl⟩ := hconverse
      refine ⟨1, _, [], ?_, (List.append_nil _).symm, (List.append_nil _).symm⟩
      simp only [converse_succ, turn_eq, hfound]
      rfl

/-- A conversation that has ended comes to the same with more turns. -/
theorem converse_add {n : Nat} (h : s.converse id n w = (o, s₁, w₁)) (ho : o ≠ .exhausted) (m : Nat) :
    s.converse id (n + m) w = (o, s₁, w₁) := by
  induction n generalizing s w with
  | zero => exact absurd (congrArg Prod.fst h).symm ho
  | succ n ih =>
    rw [Nat.add_right_comm]
    rw [converse_succ] at h ⊢
    cases hturn : s.turn id w with
    | stays s' w' =>
      rw [hturn] at h
      exact ih h
    | ends o' s' w' =>
      rw [hturn] at h
      exact h

/-! ## Being asked -/

/-- In this session the control on which the screen appears has these events to hand out. -/
def Hands (s : Screen) (w : Session) (es : List Event) : Prop :=
  (s.appear w).2.2.devices[(s.appear w).1]? = some (.scripted es)

theorem Hands.plays (h : s.Hands w es) :
    (s.appear w).2.2.Plays (s.appear w).1 es (s.appear w).2.2.host :=
  ⟨h, rfl⟩

theorem keen_appear (hquiet : s.content.Quiet) (h : s.content.AtOnce) (w : Session) :
    Keen s (s.appear w).2.1 := by
  refine ⟨minds_appear hquiet w, ?_, ?_⟩
  · rw [appear_snd]
    unfold appearContent
    split
    · exact h
    · exact h.start _ _
  · rw [appear_snd]
    unfold appearContent
    split
    · rfl
    · exact s.content.isText_start _ _

/-- **Asking the screen comes to the same in both sessions**: to an outcome, which is the same one,
to the same screen, and on the way to the same calls on the control. -/
def ComesAlike (s : Screen) (w w' : Session) : Prop :=
  ∃ o s₁ w₁ w₁' own, o ≠ .exhausted ∧ Comes (fun n => s.ask n w) (o, s₁, w₁) ∧
    Comes (fun n => s.ask n w') (o, s₁, w₁') ∧
    w₁.calls (s.appear w).1 = w.calls (s.appear w).1 ++ own ∧
    w₁'.calls (s.appear w').1 = w'.calls (s.appear w').1 ++ own

/-- **Idle events are invisible.** -/
theorem comesAlike_of_padded (hquiet : s.content.Quiet) (hatOnce : s.content.AtOnce)
    (hpadded : Padded s.Disregards es es') (hes : s.Hands w es) (hes' : s.Hands w' es')
    (hid : (s.appear w').1 = (s.appear w).1) : s.ComesAlike w w' := by
  by_cases hdisposed : s.disposed = true
  · have hask : ∀ n w, s.ask n w = (.failed (.collaborator disposedFailure), s, w) := by
      intro n w
      rw [ask, if_pos hdisposed]
    simp only [ComesAlike, hask]
    exact ⟨_, s, w, w', [], by simp, .const _, .const _, (List.append_nil _).symm,
      (List.append_nil _).symm⟩
  · have hask : ∀ n w, s.ask n w = (s.appear w).2.1.converse (s.appear w).1 n (s.appear w).2.2 := by
      intro n w
      rw [ask, if_neg hdisposed]
    have hsame : (s.appear w').2.1 = (s.appear w).2.1 := by
      rw [appear_snd, appear_snd, hid]
    have hplays' := hes'.plays
    rw [hid] at hplays'
    obtain ⟨o, s₁, w₁, hcomes, -, ho, -⟩ := comes_converse (s := (s.appear w).2.1) hes.plays
    obtain ⟨N, hN⟩ := id hcomes
    obtain ⟨m, w₁', own, hm, hown, hown'⟩ := follow s _ N _ _ _ _ _ _ _ _ _ _
      (keen_appear hquiet hatOnce w) hes.plays hplays' hpadded ho (hN N (Nat.le_refl N))
    have hcomes' : Comes (fun n => s.ask n w') (o, s₁, w₁') := by
      refine ⟨m, fun n hn => ?_⟩
      obtain ⟨k, rfl⟩ := Nat.exists_eq_add_of_le hn
      show s.ask (m + k) w' = _
      rw [hask, hsame, hid]
      exact converse_add hm ho k
    have happear := calls_appear hquiet w
    have happear' := calls_appear hquiet w'
    rw [← hid] at hown'
    refine ⟨o, s₁, w₁, w₁', Act.calls s.appearActs ++ own, ho, ?_, hcomes', ?_, ?_⟩
    · simp only [hask]
      exact hcomes
    · rw [hown, happear, List.append_assoc]
    · rw [hown', happear', List.append_assoc]

/-- **What a screen pays attention to.** -/
structure Attentive (s : Screen) : Prop where
  /-- Leaving it, or clicking a button whose handler settles or fails, decides the outcome as soon as
  it is handed out: nothing more is heard, whatever the screen was waiting for. -/
  decisive : ∀ n w before e after o,
    (s.ask n w).2.2.heard (s.appear w).1 =
      w.heard (s.appear w).1 ++ (before ++ .event e :: after) →
    s.decision? e = some o → after = [] ∧ (s.ask n w).1 = o
  /-- If its work is done at once, then idle events change neither the outcome, nor what becomes of
  the screen, nor the calls on its control, wherever they are inserted. -/
  idle : s.content.AtOnce → ∀ w w' es es', Padded s.Disregards es es' → s.Hands w es →
    s.Hands w' es' → (s.appear w').1 = (s.appear w).1 → s.ComesAlike w w'

/-- **Every screen is attentive**, with a line of text or a list, if what its content loads notes
nothing about controls. -/
theorem attentive_of_quiet (h : s.content.Quiet) : s.Attentive where
  decisive n w before e after o hheard he := by
    obtain ⟨own, hown, hdecides⟩ := decides_ask h n w
    exact hdecides before e after o (List.append_cancel_left (hown.symm.trans hheard)) he
  idle hatOnce _ _ _ _ hpadded hes hes' hid :=
    comesAlike_of_padded h hatOnce hpadded hes hes' hid

/-- A line of text that is checked like this, with a button that goes back and one that does
nothing. -/
def assisted (validator : Validator) : Screen :=
  { Screen.new .english (.text { TextEntry.new with validator := some validator }) with
    buttons := [.back none, ⟨"question", none, [], []⟩] }

/-- The same reply comes with and without idle events. A check that never answers does not hold up a
click. -/
theorem attentive_of_assisted :
    let prompt := assisted fun _ text => .now (if text = "bad" then some "no" else none)
    let stalled := assisted fun _ _ => ⟨[], .never, .ok none⟩
    let script : List Event := [.changed "bad", .accept, .changed "good", .accept]
    let padded : List Event := [.button 7, .changed "bad", .selected [1], .accept, .button 1,
      .changed "good", .accept, .button 1]
    let w := Session.new (.rehearsal [script])
    let w' := Session.new (.rehearsal [padded])
    let w'' := Session.new (.rehearsal [[.changed "good", .accept, .button 0, .accept]])
    prompt.Attentive ∧ prompt.content.AtOnce ∧ Padded prompt.Disregards script padded ∧
      prompt.Hands w script ∧ prompt.Hands w' padded ∧
      (prompt.ask 5 w).1 = .done (.value (.text "good")) ∧
      (prompt.ask 8 w').1 = .done (.value (.text "good")) ∧
      stalled.Attentive ∧ stalled.decision? (.button 0) = some (.done .back) ∧
      (stalled.ask 5 w'').1 = .done .back := by
  intro prompt stalled script padded w w' w''
  have hpadded : Padded prompt.Disregards script padded :=
    .insert rfl <| .keep _ <| .insert rfl <| .keep _ <| .insert rfl <| .keep _ <| .keep _ <|
      .insert rfl .nil
  have hatOnce : prompt.content.AtOnce := by
    refine ⟨fun f hf before text => ?_, fun p hp => absurd hp (by simp [TextEntry.new])⟩
    obtain rfl := Option.some.inj hf
    rfl
  exact ⟨attentive_of_quiet trivial, hatOnce, hpadded, rfl, rfl, rfl, rfl,
    attentive_of_quiet trivial, rfl, rfl⟩

end Screen

end Interview
