import Mathlib
import Interview.Proofs.Answers.Screens
import Interview.Proofs.Run.Settling
/-
What a rehearsal has to give.

The replies of a rehearsal are written down beforehand: those of the decks, and the scripts of the
controls that will be made. Every prompt takes one of them away, be it a draw from a deck or the
making of a control. A prompt that finds none left is the user leaving, and then there is no
further one. So what was prompted and what is still there add up to the same all the time, until the
last prompt, which may be one too many.

`Costs` says that of whatever is asked, with what can be told from the outcome: going back was a
reply that somebody gave, and so was every answer that does not come of a form.
-/

set_option autoImplicit false

namespace Interview

/-! ## With enough turns -/

/-- With enough turns it comes to this. -/
def Comes {α : Type} (f : Nat → α) (a : α) : Prop :=
  ∃ N, ∀ n, N ≤ n → f n = a

namespace Comes

variable {α β γ : Type} {f : Nat → α} {f' : Nat → β} {g : Nat → γ} {a : α} {a' : β} {b : γ}

/-- What does not depend on the turns. -/
theorem const (a : α) : Comes (fun _ => a) a :=
  ⟨0, fun _ _ => rfl⟩

/-- One turn more is needed for what is made of it. -/
theorem next (h : Comes f a) (hg : ∀ n, f n = a → g (n + 1) = b) : Comes g b := by
  obtain ⟨N, hN⟩ := h
  refine ⟨N + 1, fun n hn => ?_⟩
  obtain ⟨m, rfl⟩ : ∃ m, n = m + 1 := ⟨n - 1, by omega⟩
  exact hg m (hN m (by omega))

/-- Two things come to an end. -/
theorem and (h : Comes f a) (h' : Comes f' a') : Comes (fun n => (f n, f' n)) (a, a') := by
  obtain ⟨N, hN⟩ := h
  obtain ⟨M, hM⟩ := h'
  exact ⟨max N M, fun n hn => Prod.ext (hN n (by omega)) (hM n (by omega))⟩

/-- Two things come to an end, and one turn more is needed for what is made of them. -/
theorem next₂ (h : Comes f a) (h' : Comes f' a')
    (hg : ∀ n, f n = a → f' n = a' → g (n + 1) = b) : Comes g b :=
  (h.and h').next fun n hn => hg n (Prod.mk.inj hn).1 (Prod.mk.inj hn).2

/-- It comes to one thing only. -/
theorem unique {a' : α} (h : Comes f a) (h' : Comes f a') : a = a' := by
  obtain ⟨N, hN⟩ := h
  obtain ⟨M, hM⟩ := h'
  exact (hN (max N M) (by omega)).symm.trans (hM (max N M) (by omega))

end Comes

/-! ## Supplies -/

/-- The replies that a deck has left, and the prompts that it answered. -/
def Deck.stock (d : Deck) : Nat × Nat :=
  (d.script.length, d.prompts.length)

/-- The scripts that a host has left for controls. -/
def Host.scripts : Host → Nat
  | .rehearsal scripts => scripts.length
  | .terminal _ _ => 0

/-- Changing one entry of a list changes a sum over the list by as much. -/
theorem sum_map_set {α : Type} (f : α → Nat) {xs : List α} {i : Nat} {x : α} (y : α)
    (h : xs[i]? = some x) : ((xs.set i y).map f).sum + f x = (xs.map f).sum + f y := by
  induction xs generalizing i with
  | nil => exact absurd h (by simp)
  | cons z rest ih =>
      rcases i with _ | i
      · obtain rfl := Option.some.inj h
        simp only [List.set_cons_zero, List.map_cons, List.sum_cons]
        omega
      · have hrest := ih (i := i) h
        simp only [List.set_cons_succ, List.map_cons, List.sum_cons]
        omega

namespace Session

variable {w w' w'' : Session} {id : Nat}

/-- **The replies that are left**: those in the decks, and the scripts of controls. -/
def supply (w : Session) : Nat :=
  w.host.scripts + (w.decks.map fun d => d.stock.1).sum

/-- **The prompts so far**: draws from decks, and controls that were made. -/
def prompted (w : Session) : Nat :=
  w.devices.length + (w.decks.map fun d => d.stock.2).sum

/-- The host is that of a rehearsal. -/
def Rehearsed (w : Session) : Prop :=
  ∃ scripts, w.host = .rehearsal scripts

/-- No prompt came between two sessions. -/
structure Undrawn (w w' : Session) : Prop where
  host : w'.host = w.host
  devices : w'.devices.length = w.devices.length
  decks : w'.decks.map Deck.stock = w.decks.map Deck.stock

theorem undrawn_refl (w : Session) : w.Undrawn w :=
  ⟨rfl, rfl, rfl⟩

namespace Undrawn

theorem trans (h : w.Undrawn w') (h' : w'.Undrawn w'') : w.Undrawn w'' :=
  ⟨h'.host.trans h.host, h'.devices.trans h.devices, h'.decks.trans h.decks⟩

theorem supply_eq (h : w.Undrawn w') : w'.supply = w.supply := by
  have hdecks : (w'.decks.map fun d => d.stock.1) = w.decks.map fun d => d.stock.1 := by
    simpa [Function.comp_def] using congrArg (List.map Prod.fst) h.decks
  rw [supply, supply, h.host, hdecks]

theorem prompted_eq (h : w.Undrawn w') : w'.prompted = w.prompted := by
  have hdecks : (w'.decks.map fun d => d.stock.2) = w.decks.map fun d => d.stock.2 := by
    simpa [Function.comp_def] using congrArg (List.map Prod.snd) h.decks
  rw [prompted, prompted, h.devices, hdecks]

theorem rehearsed (h : w.Undrawn w') (hw : w.Rehearsed) : w'.Rehearsed := by
  obtain ⟨scripts, hscripts⟩ := hw
  exact ⟨scripts, h.host.trans hscripts⟩

end Undrawn

theorem undrawn_emit (es : List Entry) (w : Session) : w.Undrawn (w.emit es) :=
  ⟨rfl, rfl, rfl⟩

theorem undrawn_call (id : Nat) (c : Control.Call) (w : Session) : w.Undrawn (w.call id c) :=
  ⟨rfl, List.length_modify .., rfl⟩

theorem undrawn_perform (id : Nat) (acts : List Act) (w : Session) :
    w.Undrawn (Screen.perform id acts w) := by
  induction acts generalizing w with
  | nil => exact w.undrawn_refl
  | cons act acts ih =>
      cases act with
      | call c => exact (undrawn_call id c w).trans (ih _)
      | entry e => exact (undrawn_emit [e] w).trans (ih _)

/-- Handing out a written event is no prompt. -/
theorem undrawn_next {events : List Control.Event} {host : Host} (h : w.Plays id events host) :
    w.Undrawn (w.next id).2 := by
  rcases events with _ | ⟨e, rest⟩
  · simp only [Session.next, h.device]
    exact undrawn_emit _ w
  · simp only [Session.next, h.device]
    exact ⟨rfl, List.length_set, rfl⟩

/-- What leaves the replies of a deck alone and does not draw is no prompt. -/
theorem undrawn_onDeck (id : Nat) {f : Deck → Deck} (hf : ∀ d, (f d).stock = d.stock)
    (w : Session) : w.Undrawn (w.onDeck id f) := by
  refine ⟨rfl, rfl, ?_⟩
  have hmap : ∀ (decks : List Deck) (i : Nat),
      (decks.modify i f).map Deck.stock = decks.map Deck.stock := by
    intro decks
    induction decks with
    | nil =>
        intro i
        rw [List.modify_nil]
    | cons d decks ih =>
        rintro (_ | i)
        · simp [hf]
        · simp [ih]
  exact hmap w.decks id

/-! ## Prompts -/

/-- **A control takes a script away**, if there is one. -/
theorem balance_make {scripts : List (List Control.Event)} (hw : w.host = .rehearsal scripts)
    (kind : Control.Kind) (chrome : Chrome) :
    (w.make kind chrome).2.prompted = w.prompted + 1 ∧
      (w.make kind chrome).2.supply + (if scripts = [] then 0 else 1) = w.supply := by
  rcases scripts with _ | ⟨script, rest⟩
  · simp [make, hw, supply, prompted, emit, Host.scripts, Nat.add_right_comm]
  · simp [make, hw, supply, prompted, emit, Host.scripts, Nat.add_right_comm]

/-- **A draw takes a reply away**, and where there is none it brings none but leaving. -/
theorem balance_draw (id copy : Nat) (w : Session) :
    (w.draw id copy).2.host = w.host ∧
    ((w.draw id copy).1 = .cancel ∧ (w.draw id copy).2.supply = w.supply ∧
        (w.draw id copy).2.prompted ≤ w.prompted + 1 ∨
      (w.draw id copy).2.supply + 1 = w.supply ∧
        (w.draw id copy).2.prompted = w.prompted + 1) := by
  unfold draw
  rcases hdeck : w.decks[id]? with _ | d
  · exact ⟨rfl, Or.inl ⟨rfl, rfl, Nat.le_succ _⟩⟩
  · refine ⟨rfl, ?_⟩
    have hset := fun (f : Deck → Nat) => sum_map_set f (d.draw copy).2 hdeck
    have hprompts := hset fun d => d.stock.2
    have hscript := hset fun d => d.stock.1
    have hdrawn : (d.draw copy).2.stock.2 = d.stock.2 + 1 := by
      rcases hempty : d.script with _ | ⟨r, rest⟩
      · simp [Deck.draw, hempty, Deck.stock]
      · simp [Deck.draw, hempty, Deck.stock]
    simp only [supply, prompted]
    rcases hempty : d.script with _ | ⟨r, rest⟩
    · have hsame : (d.draw copy).1 = .cancel ∧ (d.draw copy).2.stock.1 = d.stock.1 := by
        simp [Deck.draw, hempty, Deck.stock]
      refine Or.inl ⟨hsame.1, ?_, ?_⟩
      · omega
      · omega
    · have hless : (d.draw copy).2.stock.1 + 1 = d.stock.1 := by
        simp [Deck.draw, hempty, Deck.stock]
      refine Or.inr ⟨?_, ?_⟩
      · omega
      · omega

end Session

/-! ## Costs -/

/-- The prompts that an outcome may have cost beyond the replies that were there: one, if it is the
end of the whole interview. -/
def Outcome.excess : Outcome (Reply Json) → Nat
  | .done (.value _) => 0
  | .done .back => 0
  | _ => 1

/-- An outcome is an answer, or the wish to go back, or the end. -/
theorem Outcome.excess_cases (out : Outcome (Reply Json)) :
    (∃ v, out = .done (.value v)) ∨ out = .done .back ∨ out.excess = 1 := by
  rcases out with (v | _ | _) | _ | _ | _
  · exact Or.inl ⟨v, rfl⟩
  · exact Or.inr (Or.inl rfl)
  · exact Or.inr (Or.inr rfl)
  · exact Or.inr (Or.inr rfl)
  · exact Or.inr (Or.inr rfl)
  · exact Or.inr (Or.inr rfl)

/-- **What asking may cost.** `hang` is what holds if the interview waits for ever, and `forms` says
whether there may be forms among what is asked. -/
structure Costs (hang : Prop) (forms : Bool) (out : Outcome (Reply Json)) (w w' : Session) :
    Prop where
  rehearsed : w'.Rehearsed
  supply_le : w'.supply ≤ w.supply
  prompted_le : w'.prompted + w'.supply ≤ w.prompted + w.supply + out.excess
  back : out = .done .back → w'.supply < w.supply
  value : forms = false → ∀ v, out = .done (.value v) → w'.supply < w.supply
  finished : out ≠ .exhausted
  hangs : out = .suspended → hang

namespace Costs

variable {hang : Prop} {forms : Bool} {out out₁ : Outcome (Reply Json)} {w w₁ w' : Session}

/-- What holds if the interview waits for ever may be weakened. -/
theorem mono {hang' : Prop} (h : Costs hang forms out w w') (himp : hang → hang') :
    Costs hang' forms out w w' :=
  { h with hangs := fun hout => himp (h.hangs hout) }

/-- What is no prompt may come before. -/
theorem after (h : Costs hang forms out w₁ w') (hbefore : w.Undrawn w₁) :
    Costs hang forms out w w' := by
  have hsupply := hbefore.supply_eq
  have hprompted := hbefore.prompted_eq
  exact {
    rehearsed := h.rehearsed
    supply_le := hsupply ▸ h.supply_le
    prompted_le := hsupply ▸ hprompted ▸ h.prompted_le
    back := hsupply ▸ h.back
    value := hsupply ▸ h.value
    finished := h.finished
    hangs := h.hangs }

/-- What is no prompt may follow. -/
theorem followed (h : Costs hang forms out w w₁) (hafter : w₁.Undrawn w') :
    Costs hang forms out w w' := by
  have hsupply := hafter.supply_eq
  have hprompted := hafter.prompted_eq
  exact {
    rehearsed := hafter.rehearsed h.rehearsed
    supply_le := hsupply ▸ h.supply_le
    prompted_le := hsupply ▸ hprompted ▸ h.prompted_le
    back := hsupply ▸ h.back
    value := hsupply ▸ h.value
    finished := h.finished
    hangs := h.hangs }

/-- After an answer, or the wish to go back, something else is asked. -/
theorem andThen {hang₁ : Prop} (h₁ : Costs hang₁ forms out₁ w w₁) (hgoes : out₁.excess = 0)
    {forms' : Bool} (h : Costs hang forms' out w₁ w') : Costs hang forms' out w w' where
  rehearsed := h.rehearsed
  supply_le := Nat.le_trans h.supply_le h₁.supply_le
  prompted_le := by
    have hfirst := h₁.prompted_le
    have hsecond := h.prompted_le
    omega
  back hback := Nat.lt_of_lt_of_le (h.back hback) h₁.supply_le
  value hforms v hv := Nat.lt_of_lt_of_le (h.value hforms v hv) h₁.supply_le
  finished := h.finished
  hangs := h.hangs

/-- Transformed answers cost the same. -/
theorem map (h : Costs hang forms out w w') (f : Json → Json) :
    Costs hang forms (out.map (Reply.map f)) w w' := by
  rcases out with (v | _ | _) | e | _ | _
  · exact { h with
      back := fun hback => absurd hback (by simp [Outcome.map, Reply.map])
      value := fun hforms v _ => h.value hforms _ rfl
      finished := by simp [Outcome.map]
      hangs := by simp [Outcome.map] }
  · exact h
  · exact h
  · exact h
  · exact h
  · exact h

/-- An outcome that ends the interview without a prompt. -/
theorem of_undrawn (hw : w.Rehearsed) (hsame : w.Undrawn w') (hexcess : out.excess = 1)
    (hfinished : out ≠ .exhausted) (hhangs : out = .suspended → hang) :
    Costs hang forms out w w' where
  rehearsed := hsame.rehearsed hw
  supply_le := Nat.le_of_eq hsame.supply_eq
  prompted_le := by
    rw [hsame.supply_eq, hsame.prompted_eq]
    exact Nat.le_add_right _ _
  back hback := absurd hexcess (by simp [hback, Outcome.excess])
  value _ v hv := absurd hexcess (by simp [hv, Outcome.excess])
  finished := hfinished
  hangs := hhangs

/-- **A draw from a deck.** -/
theorem draw (hw : w.Rehearsed) (id copy : Nat) :
    Costs hang forms (.done (w.draw id copy).1) w (w.draw id copy).2 := by
  obtain ⟨scripts, hscripts⟩ := hw
  obtain ⟨hhost, ⟨hcancel, hsupply, hprompted⟩ | ⟨hsupply, hprompted⟩⟩ := w.balance_draw id copy
  · rw [hcancel]
    exact {
      rehearsed := ⟨scripts, hhost.trans hscripts⟩
      supply_le := Nat.le_of_eq hsupply
      prompted_le := by
        simp only [Outcome.excess]
        omega
      back := by simp
      value := by simp
      finished := by simp
      hangs := by simp }
  · exact {
      rehearsed := ⟨scripts, hhost.trans hscripts⟩
      supply_le := by omega
      prompted_le := by omega
      back := fun _ => by omega
      value := fun _ _ _ => by omega
      finished := by simp
      hangs := by simp }

end Costs

end Interview
