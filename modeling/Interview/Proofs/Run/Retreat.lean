import Mathlib
import Interview.Proofs.Run.ForwardPass
import Interview.Proofs.Run.Inner
/-
Going back moves back.

For the user, going back should lead to an earlier question, through however many forms inside the
form the two questions are apart. No run sees to that as a whole: a run inside a form knows its own
history only, and when the user goes back out of it, the outer run lands on the last field that it
has an answer for. Seen from outside, the question that comes next is then the first one of that
field, which lies before.

There is one way in which this fails. A form inside the form may have nothing to ask and still be
answered, at once and without the user. To land on it is to come forward again at once, to the very
question that was just left. A field that is no form is left out in such a case, and going back
passes over it; an inner form is entered in the history.

What holds of every run is a statement about its stops: the questions, and with them the inner
forms that completed. The stop after a question that was left by going back is always an earlier
one. It is the question that the user sees next, unless an inner form has completed first.

The proof is one induction on the bound of the loops, for forms and runs together. What is said of
the stops looks only at their ends: the turn that follows a retreat starts where the run landed, and
a run that the user went back out of ends with the question that was left so.
-/

set_option autoImplicit false

namespace Interview

/-- A list that goes into an earlier branch comes before. -/
theorem lt_of_concat_prefix {a x y : List Nat} {e p : Nat} (hx : a ++ [p] <+: x)
    (hy : a ++ [e] <+: y) (hep : e < p) : y < x := by
  obtain ⟨s, rfl⟩ := hx
  obtain ⟨t, rfl⟩ := hy
  -- both lists go the same way up to the branch, and part there
  rw [List.append_assoc, List.append_assoc, List.singleton_append, List.singleton_append]
  induction a with
  | nil => exact List.cons_lt_cons_iff.mpr (Or.inl hep)
  | cons b a ih => exact List.cons_lt_cons_iff.mpr (Or.inr ⟨rfl, ih⟩)

/-! ## Stops -/

/-- The address and the outcome of a question that is no form, or of an inner form that
completed. -/
def Episode.stop? : Episode → Option (List Nat × Outcome (Reply Json))
  | .asked a o => some (a, o)
  | .concluded a (.done (.value v)) => some (a, .done (.value v))
  | _ => none

namespace Account

/-- The questions that are no forms, and the inner forms where they completed. -/
def stops (acc : Account) : List (List Nat × Outcome (Reply Json)) :=
  acc.filterMap Episode.stop?

variable {acc acc' : Account}

@[simp] theorem stops_nil : stops [] = [] := rfl

@[simp] theorem stops_append : stops (acc ++ acc') = stops acc ++ stops acc' :=
  List.filterMap_append

@[simp] theorem stops_ofEntries (es : List Entry) : stops (ofEntries es) = [] := by
  simp [stops, ofEntries, Episode.stop?]

@[simp] theorem stops_asked (a : List Nat) (o : Outcome (Reply Json)) :
    stops (.asked a o :: acc) = (a, o) :: stops acc := rfl

@[simp] theorem stops_announced (r : Run) (a : List Nat) (o : Options) (form : Form)
    (place : Nat) (path : Path) : stops (r.announced a o form place path) = [] := by
  rw [Run.announced]
  exact stops_ofEntries _

theorem stops_concluded_value (a : List Nat) (v : Json) :
    stops [.concluded a (.done (.value v))] = [(a, .done (.value v))] := rfl

theorem stops_concluded_of_ne {a : List Nat} {o : Outcome (Reply Json)}
    (h : ∀ v, o ≠ .done (.value v)) : stops [.concluded a o] = [] := by
  rcases o with (v | _ | _) | _ | _ | _
  · exact absurd rfl (h v)
  all_goals rfl

theorem address_of_mem_stops_concluded {a : List Nat} {o : Outcome (Reply Json)}
    {x : List Nat × Outcome (Reply Json)} (h : x ∈ stops [.concluded a o]) : x.1 = a := by
  rcases o with (v | _ | _) | _ | _ | _
  · exact congrArg Prod.fst (List.mem_singleton.mp h)
  all_goals exact absurd h List.not_mem_nil

/-- Whether no inner form completes before something is asked. -/
def asksFirst : Account → Bool
  | [] => true
  | .asked _ _ :: _ => true
  | .concluded _ (.done (.value _)) :: _ => false
  | _ :: acc => asksFirst acc

/-- If no inner form completes before something is asked, the first stop is the first question. -/
theorem head?_stops (h : acc.asksFirst = true) : acc.stops.head? = acc.leaves.head? := by
  induction acc with
  | nil => rfl
  | cons e acc ih =>
      cases e with
      | asked a o => rfl
      | concluded a o =>
          rcases o with (v | _ | _) | _ | _ | _
          · exact absurd h (by simp [asksFirst])
          all_goals exact ih h
      | _ => exact ih h

end Account

/-! ## Retreats -/

/-- **What going back does in a series of stops** that came to an outcome: whenever one of them
was left by going back, the next one is for an earlier field; if there is no next one, there was
no answer; and the whole was left by going back only if the last stop was. -/
structure Retreats (stops : List (List Nat × Outcome (Reply Json)))
    (outcome : Outcome (Reply Json)) : Prop where
  chain : stops.IsChain fun x y => x.2 = .done .back → y.1 < x.1
  unanswered : ∀ x ∈ stops.getLast?, x.2 = .done .back → ∀ v, outcome ≠ .done (.value v)
  back : outcome = .done .back → ∃ x ∈ stops.getLast?, x.2 = .done .back

namespace Retreats

variable {stops stops' : List (List Nat × Outcome (Reply Json))}
variable {outcome outcome' : Outcome (Reply Json)}

/-- There was no stop. -/
theorem nil (h : outcome ≠ .done .back) : Retreats [] outcome :=
  ⟨.nil, by simp, fun hback => absurd hback h⟩

/-- There was one stop, and its outcome is the outcome. -/
theorem single (a : List Nat) (outcome : Outcome (Reply Json)) :
    Retreats [(a, outcome)] outcome where
  chain := .singleton _
  unanswered := by
    simp only [List.getLast?_singleton, Option.mem_some_iff]
    rintro _ rfl hback v hv
    exact absurd (hback.symm.trans hv) (by simp)
  back hback := ⟨(a, outcome), rfl, hback⟩

/-- More stops followed. If the first ones ended with going back, the others go on with an earlier
field, or else there is no answer. -/
theorem append (h : Retreats stops outcome) (h' : Retreats stops' outcome')
    (hjoin : ∀ x ∈ stops.getLast?, x.2 = .done .back →
      (∀ y ∈ stops'.head?, y.1 < x.1) ∧ (stops' = [] → ∀ v, outcome' ≠ .done (.value v))) :
    Retreats (stops ++ stops') outcome' where
  chain := List.isChain_append.mpr
    ⟨h.chain, h'.chain, fun x hx y hy hback => (hjoin x hx hback).1 y hy⟩
  unanswered := by
    rintro x hx hback
    -- the last stop is one of the first ones only if no more followed
    rw [List.getLast?_append] at hx
    cases hlast : stops'.getLast? with
    | none =>
        rw [hlast, Option.none_or] at hx
        exact (hjoin x hx hback).2 (List.getLast?_eq_none_iff.mp hlast)
    | some y =>
        rw [hlast, Option.some_or] at hx
        exact h'.unanswered x (hlast ▸ hx) hback
  back := by
    intro hback
    obtain ⟨x, hx, hlast⟩ := h'.back hback
    refine ⟨x, ?_, hlast⟩
    rw [List.getLast?_append, Option.mem_def.mp hx, Option.some_or]
    rfl

/-- Stops that came to an answer did not end with going back. -/
theorem append_of_value {v : Json} (h : Retreats stops (.done (.value v)))
    (h' : Retreats stops' outcome') : Retreats (stops ++ stops') outcome' :=
  h.append h' fun x hx hback => absurd rfl (h.unanswered x hx hback v)

/-- An inner form retreats with its completion as with the stops in it. -/
theorem concluded (h : Retreats stops outcome) (a : List Nat) :
    Retreats (stops ++ Account.stops [.concluded a outcome]) outcome := by
  by_cases hvalue : ∃ v, outcome = .done (.value v)
  · obtain ⟨v, rfl⟩ := hvalue
    exact h.append_of_value (.single a _)
  · rw [Account.stops_concluded_of_ne (fun v hv => hvalue ⟨v, hv⟩), List.append_nil]
    exact h

/-- The stops are as good with another outcome that is no answer. -/
theorem of_outcome (h : Retreats stops outcome) (hvalue : ∀ v, outcome' ≠ .done (.value v))
    (hback : outcome' = .done .back → outcome = .done .back) : Retreats stops outcome' :=
  ⟨h.chain, fun _ _ _ => hvalue, fun h' => h.back (hback h')⟩

end Retreats

/-- The stops of a run retreat, and they are those of its own fields. -/
structure Backtracks (a : List Nat) (stops : List (List Nat × Outcome (Reply Json)))
    (outcome : Outcome (Reply Json)) : Prop extends Retreats stops outcome where
  under : ∀ x ∈ stops, ∃ i, a ++ [i] <+: x.1

/-- The stops of a run begin with those of one field, or there are none and no answer. -/
def Resumes (a : List Nat) (i : Nat) (stops : List (List Nat × Outcome (Reply Json)))
    (outcome : Outcome (Reply Json)) : Prop :=
  (∀ y ∈ stops.head?, a ++ [i] <+: y.1) ∧ (stops = [] → ∀ v, outcome ≠ .done (.value v))

/-- What is known of a question: what holds for a run, with the question's own address, and that it
comes to no answer without a stop. -/
structure Question.Backtracks (n : Nat) (a : List Nat) (q : Question) (w : Session) : Prop where
  retreats : Retreats (q.account n a w).stops (q.ask n w).1
  under : ∀ x ∈ (q.account n a w).stops, a <+: x.1
  asks : (q.account n a w).stops = [] → ∀ v, (q.ask n w).1 ≠ .done (.value v)

/-- A form whose fields, throughout, are left out in view of the draft alone. -/
def Form.Settled (o : Options) (form : Form) : Prop :=
  form.Throughout Form.Separate fun f => f.SkipsByDraft o

theorem Form.Settled.skipsByDraft {o : Options} {form : Form} (h : form.Settled o) :
    form.SkipsByDraft o := by
  intro f hf d a b
  rcases h.field hf with ⟨-, hskips⟩ | ⟨path, inner, rfl, -⟩
  · exact hskips d a b
  · rw [Form.declines_asField, Form.declines_asField]

/-- A start from which every answer can be taken back without a trace, in the form and in the forms
inside it that it leaves open. -/
inductive Form.CanRetract : Form → Draft → Prop
  | of {form : Form} {initial : Draft} (own : form.OpensTidy initial)
    (inside : ∀ path inner s, asField path inner ∈ form.fields →
      (asField path inner).isFilled initial = false → initial.startAt path = .ok s →
        CanRetract inner s) :
    CanRetract form initial

namespace Form.CanRetract

variable {form : Form} {initial : Draft}

theorem own (h : form.CanRetract initial) : form.OpensTidy initial := by
  obtain ⟨hown, -⟩ := h
  exact hown

theorem inside (h : form.CanRetract initial) {path : Path} {inner : Form} {s : Draft}
    (hf : asField path inner ∈ form.fields)
    (hopen : (asField path inner).isFilled initial = false)
    (hstart : initial.startAt path = .ok s) : inner.CanRetract s := by
  obtain ⟨-, hinside⟩ := h
  exact hinside path inner s hf hopen hstart

/-- Every answer can be taken back from a neat start. -/
theorem of_neat {P : Form → Prop} {L : Field → Prop} (hform : form.Throughout P L)
    (h : initial.Neat) : form.CanRetract initial := by
  induction hform generalizing initial with
  | of _ _ _ ih =>
      -- what a neat draft has at the field of an inner form is neat
      exact .of (h.opensTidy _) fun path inner s hf _ hstart => ih path inner hf (h.startAt hstart)

end Form.CanRetract

namespace Run

variable {n : Nat} {a : List Nat} {form : Form} {initial : Draft} {o : Options} {r r' : Run}
variable {k : Nat} {acc : Account} {outcome : Outcome Ending}

/-- A run on its pass, whatever the answers were. -/
abbrev Passes (r : Run) (o : Options) (form : Form) (initial : Draft) (k : Nat) : Prop :=
  r.OnPass o form initial (fun _ _ _ => True) k

/-- A run that goes on after a question goes on behind its field, or at the field, or the user went
back. Then it goes on at an earlier field, which is open and has something to ask. -/
theorem OnPass.of_settle (hsettled : form.Settled o) (htidy : form.OpensTidy initial)
    (h : r.Passes o form initial k) {f : Field} (hf : form.fields[k]? = some f)
    (hopen : r.isClosed k f = false) (hasks : f.declines o r.draft none = false)
    {out : Outcome (Reply Json)} {w w' : Session}
    (hsettle : r.settle o form k f out w = (.goesOn r', w')) :
    (∃ v i, out = .done (.value v) ∧ r'.Passes o form initial i) ∨
      (out = .done .back ∧ ∃ e g, e < k ∧ form.fields[e]? = some g ∧
        g.isFilled initial = false ∧ g.declines o r'.draft none = false ∧
        r'.Passes o form initial e) := by
  rcases settle_eq_goesOn hsettle with
    ⟨answer, v, -, hout, -, ⟨-, haccept⟩ | ⟨message, -, rfl⟩⟩ | ⟨hout, e, hlanding, hback⟩
  · exact Or.inl ⟨answer, k + 1, hout, h.accept hsettled.own hf hopen hasks trivial haccept⟩
  · exact Or.inl ⟨answer, k, hout, h.reject v message k⟩
  · -- the history ascends, so the user lands on the last answer
    rw [landing?_eq_getLast? h.1.history_lt] at hlanding
    obtain ⟨hs, g, hsplit, hg, htarget⟩ := h.1.exists_landing hf hlanding
    rw [htarget] at hback
    have he : e ∈ r.history := hsplit ▸ List.mem_append_right _ (List.mem_singleton_self e)
    obtain ⟨hr', hagain⟩ := h.goBack hsettled.own htidy hsplit hg hback
    exact Or.inr ⟨hout, e, g, h.1.history_lt e he, hg,
      h.1.isFilled_initial hg (h.1.history_new e he).1, hagain, hr'⟩

/-- What is said of a run in the induction: its stops backtrack, and if the field at its frontier is
open and has something to ask, they begin with those of that field. -/
def Retraces (n : Nat) : Prop :=
  ∀ {a : List Nat} {form : Form} {initial : Draft} {o : Options} {r : Run} {k : Nat} {w : Session},
    form.Settled o → form.CanRetract initial → r.Passes o form initial k →
    Interview.Backtracks a (r.account n a form o w).stops
        ((conduct n form o r w).1.map Ending.reply) ∧
      ∀ f, form.fields[k]? = some f → f.isFilled initial = false →
        f.declines o r.draft none = false →
        Resumes a k (r.account n a form o w).stops ((conduct n form o r w).1.map Ending.reply)

/-- Nothing was asked, and the run failed or its bound did not suffice. -/
theorem backtracks_nil {out : Outcome (Reply Json)} (h : out ≠ .done .back) :
    Interview.Backtracks a [] out :=
  ⟨.nil h, fun _ hx => absurd hx List.not_mem_nil⟩

end Run

/-- A form retreats if its run does. -/
theorem Form.backtracks_of_retraces {n : Nat} (ih : ∀ m < n, Run.Retraces m) {a : List Nat}
    {form : Form} {o : Options} {initial recent : Draft} {w : Session} (hsettled : form.Settled o)
    (hretract : form.CanRetract initial) :
    Backtracks a (form.account n a o initial recent w).stops
      ((conductForm n form o initial recent w).1.map Ending.reply) := by
  rcases n with _ | n
  · exact Run.backtracks_nil (by simp [conductForm, Outcome.map])
  · rw [Form.account, conductForm]
    rcases hstart : Run.start form initial recent with e | first
    · exact Run.backtracks_nil (by simp [Outcome.map])
    · exact (ih n (Nat.lt_succ_self n) hsettled hretract (.start hstart)).1

namespace Question

variable {n : Nat} {a : List Nat} {q : Question} {w : Session}

/-- Without any turn left the question is not even asked. -/
theorem backtracks_zero (a : List Nat) (q : Question) (w : Session) : q.Backtracks 0 a w := by
  have hask : (q.ask 0 w).1 = .exhausted := by rw [ask]
  have haccount : q.account 0 a w = [] := by rw [account]
  exact {
    retreats := by
      rw [haccount, hask]
      exact .nil (by simp)
    under := by
      rw [haccount]
      exact fun _ hx => absurd hx List.not_mem_nil
    asks := by
      rw [hask]
      exact fun _ v => by simp }

/-- A question that is no form is asked once. -/
theorem backtracks_of_isForm_eq_false (h : q.isForm = false) : q.Backtracks (n + 1) a w := by
  have haccount := account_of_isForm_eq_false h n a w
  exact {
    retreats := haccount ▸ .single _ _
    under := by
      rw [haccount]
      intro x hx
      obtain rfl := List.mem_singleton.mp hx
      exact List.prefix_refl _
    asks := by
      rw [haccount]
      exact fun hnil => absurd hnil (by simp) }

/-- A form asked as one question retreats as its runs do. Where it completes it has one stop more,
and this is not a retreat. -/
theorem backtracks_nested (ih : ∀ m < n, Run.Retraces m) {form : Form} {o : Options}
    {initial recent : Draft} (hsettled : form.Settled o) (hretract : form.CanRetract initial) :
    (nested form initial recent o).Backtracks (n + 1) a w := by
  have hform : Interview.Backtracks a (form.account n a o initial recent w).stops
      ((conductForm n form o initial recent w).1.map Ending.reply) :=
    Form.backtracks_of_retraces ih hsettled hretract
  have hask : ((nested form initial recent o).ask (n + 1) w).1 =
      (conductForm n form o initial recent w).1.map Ending.reply := by
    rw [ask]
  rw [← hask] at hform
  have hstops : ((nested form initial recent o).account (n + 1) a w).stops =
      (form.account n a o initial recent w).stops ++
        Account.stops [.concluded a ((nested form initial recent o).ask (n + 1) w).1] := by
    rw [account, hask, Account.stops_append]
  exact {
    retreats := hstops ▸ hform.toRetreats.concluded a
    under := by
      rw [hstops]
      intro x hx
      rcases List.mem_append.mp hx with hx | hx
      · obtain ⟨j, hj⟩ := hform.under x hx
        exact (List.prefix_append _ _).trans hj
      · exact Account.address_of_mem_stops_concluded hx ▸ List.prefix_refl _
    asks := by
      rw [hstops]
      intro hnil v hv
      rw [hv, Account.stops_concluded_value] at hnil
      exact absurd (List.append_eq_nil_iff.mp hnil).2 (by simp) }

end Question

/-- **The question of a step retreats**, whether it is a form or not. -/
theorem Run.OnPass.backtracks {n : Nat} (ih : ∀ m < n, Run.Retraces m) {a : List Nat} {form : Form}
    {o : Options} {initial : Draft} {r : Run} {k : Nat} {f : Field}
    {attempt : Option (Attempt Json)} {make : Session → Question × Session} {q : Question}
    {w w₁ : Session} (hsettled : form.Settled o) (hretract : form.CanRetract initial)
    (h : r.Passes o form initial k) (hf : form.fields[k]? = some f)
    (hopen : r.isClosed k f = false) (hoffer : f.offer ⟨f.path, r.draft, attempt, o⟩ = .ask make)
    (hpresent : r.present o form k f attempt make w = (q, w₁)) :
    q.Backtracks n (a ++ [k]) w₁ := by
  rcases n with _ | n
  · exact Question.backtracks_zero _ q w₁
  rcases hsettled.field (List.mem_of_getElem? hf) with ⟨hleaf, -⟩ | ⟨path, inner, rfl, hinner⟩
  · exact Question.backtracks_of_isForm_eq_false (isForm_present (hleaf _ make w hoffer) hpresent)
  · obtain ⟨s, hs, rfl⟩ := Form.offer_asField_eq_ask hoffer
    rw [present_asField, Prod.mk.injEq] at hpresent
    obtain ⟨rfl, rfl⟩ := hpresent
    -- nothing was answered at this field, so the inner form starts with what the start has here
    have hread : r.draft.get? path = initial.get? path :=
      h.1.answered.kept k _ hf fun hmem => Nat.lt_irrefl k (h.1.history_lt k hmem)
    have hunfilled := h.1.isFilled_initial hf (h.1.not_mem_of_isOpen hf hopen).1
    have hinside := hretract.inside (List.mem_of_getElem? hf) hunfilled
      ((Draft.startAt_congr hread).symm.trans hs)
    exact Question.backtracks_nested (fun m hm => ih m (Nat.lt_succ_of_lt hm)) hinner hinside

section Turn

variable {n : Nat} {a : List Nat} {i : Nat} {q : Question} {w : Session}
variable {stops' : List (List Nat × Outcome (Reply Json))} {outcome : Outcome (Reply Json)}

/-- A run that ends with a question, without an answer. -/
theorem Question.Backtracks.last (h : q.Backtracks n (a ++ [i]) w)
    (hvalue : ∀ v, outcome ≠ .done (.value v))
    (hback : outcome = .done .back → (q.ask n w).1 = .done .back) :
    Interview.Backtracks a (q.account n (a ++ [i]) w).stops outcome ∧
      Resumes a i (q.account n (a ++ [i]) w).stops outcome :=
  ⟨⟨h.retreats.of_outcome hvalue hback, fun x hx => ⟨i, h.under x hx⟩⟩,
    fun y hy => h.under y (List.mem_of_mem_head? hy), fun _ => hvalue⟩

/-- A run that goes on after a question: behind an answer, or at an earlier field after the user
went back. In both cases there was a stop. -/
theorem Question.Backtracks.followed (h : q.Backtracks n (a ++ [i]) w)
    (hrest : Interview.Backtracks a stops' outcome)
    (hnext : (∃ v, (q.ask n w).1 = .done (.value v)) ∨
      ((q.ask n w).1 = .done .back ∧ ∃ e < i, Resumes a e stops' outcome)) :
    Interview.Backtracks a ((q.account n (a ++ [i]) w).stops ++ stops') outcome ∧
      Resumes a i ((q.account n (a ++ [i]) w).stops ++ stops') outcome := by
  have hsome : (q.account n (a ++ [i]) w).stops ≠ [] := by
    intro hnil
    rcases hnext with ⟨v, hv⟩ | ⟨hback, -⟩
    · exact h.asks hnil v hv
    · obtain ⟨x, hx, -⟩ := h.retreats.back hback
      rw [hnil] at hx
      exact absurd hx (by simp)
  have hretreats : Retreats ((q.account n (a ++ [i]) w).stops ++ stops') outcome := by
    rcases hnext with ⟨v, hv⟩ | ⟨-, e, he, hfirst, hnone⟩
    · exact (hv ▸ h.retreats).append_of_value hrest.toRetreats
    · refine h.retreats.append hrest.toRetreats fun x hx _ => ⟨fun y hy => ?_, hnone⟩
      exact lt_of_concat_prefix (h.under x (List.mem_of_getLast? hx)) (hfirst y hy) he
  refine ⟨⟨hretreats, fun x hx => ?_⟩, fun y hy => ?_, fun hnil => ?_⟩
  · rcases List.mem_append.mp hx with hx | hx
    · exact ⟨i, h.under x hx⟩
    · exact hrest.under x hx
  · rw [List.head?_append_of_ne_nil _ hsome] at hy
    exact h.under y (List.mem_of_mem_head? hy)
  · exact absurd (List.append_eq_nil_iff.mp hnil).1 hsome

end Turn

namespace Run

/-- A run that has nothing left to ask does not end by going back. -/
theorem conclude_ne_back {form : Form} {o : Options} {r : Run} {w : Session} :
    (r.conclude o form w).1 ≠ .done .back := by
  unfold conclude
  split
  · simp
  · simp

/-- How a run ends with a question: not as completed, and by going back only if the user went back
from that question. -/
theorem reply_of_settle_eq_ends {form : Form} {o : Options} {r : Run} {place : Nat} {f : Field}
    {out : Outcome (Reply Json)} {w w' : Session} {e : Outcome Ending}
    (h : r.settle o form place f out w = (.ends e, w')) :
    (∀ v, e.map Ending.reply ≠ .done (.value v)) ∧
      (e.map Ending.reply = .done .back → out = .done .back) := by
  constructor
  · intro v hv
    obtain ⟨d, rfl, -⟩ := map_reply_eq_value.mp hv
    exact settled_ne_completed (v := ⟨r, place, f, none, out, w⟩) h
  · intro hback
    rw [map_reply_eq_back.mp hback] at h
    exact outcome_of_settle_eq_back h

variable {n : Nat} {a : List Nat} {form : Form} {initial : Draft} {o : Options} {r run : Run}
variable {k place : Nat} {f : Field} {attempt : Option (Attempt Json)} {entries : List Entry}
variable {make : Session → Question × Session} {acc : Account} {out : Outcome Ending}

/-- The run of a step that was found is on its pass, with its frontier there. -/
theorem OnPass.shows_of_seek (hsettled : form.Settled o) (hr : r.Passes o form initial k)
    (h : r.seek o form = (entries, run, .step place f attempt make)) :
    form.fields[place]? = some f ∧ run.isClosed place f = false ∧
      f.declines o run.draft none = false ∧ run.Passes o form initial place :=
  hr.shows hsettled.skipsByDraft (v := ⟨run, place, f, attempt, .exhausted, .new (.rehearsal [])⟩)
    ⟨entries, make, h⟩

/-- A search that fails or finds a step at a place does not find one elsewhere. -/
theorem place_eq_of_seek (h : r.seek o form = (entries, run, .step place f attempt make))
    (hk : (∃ entries run e, r.seek o form = (entries, run, .failed e)) ∨
      ∃ entries run f attempt make, r.seek o form = (entries, run, .step k f attempt make)) :
    place = k := by
  rcases hk with ⟨_, _, _, hseek⟩ | ⟨_, _, _, _, _, hseek⟩
  · exact absurd (h.symm.trans hseek) (by simp)
  · have heq := h.symm.trans hseek
    simp only [Prod.mk.injEq, Found.step.injEq] at heq
    exact heq.2.2.1

/-- **One turn of a run.** The stops of the turn are those of one field. When the run goes on after
the user went back from there, it goes on with the first stop of the field that it has landed
on. -/
theorem Turn.backtracks (ih : ∀ m ≤ n, Retraces m) (hsettled : form.Settled o)
    (hretract : form.CanRetract initial) (hr : r.Passes o form initial k)
    (h : r.Turn n a form o acc out) :
    Interview.Backtracks a acc.stops (out.map Ending.reply) ∧
      ((∃ entries run e, r.seek o form = (entries, run, .failed e)) ∨
        (∃ entries run f attempt make, r.seek o form = (entries, run, .step k f attempt make)) →
          Resumes a k acc.stops (out.map Ending.reply)) := by
  cases h with
  | failed sought =>
      simp only [Account.stops_ofEntries]
      exact ⟨backtracks_nil (by simp [Outcome.map]), fun _ =>
        ⟨fun _ hy => absurd hy (by simp), fun _ v => by simp [Outcome.map]⟩⟩
  | finished sought =>
      simp only [Account.stops_append, Account.stops_ofEntries, List.append_nil]
      refine ⟨backtracks_nil fun hback => conclude_ne_back (map_reply_eq_back.mp hback), ?_⟩
      rintro (⟨entries, run, e, hseek⟩ | ⟨entries, run, f, attempt, make, hseek⟩)
      · exact absurd (sought.symm.trans hseek) (by simp)
      · exact absurd (sought.symm.trans hseek) (by simp)
  | @step entries run place f attempt make q w w₁ w₂ w₃ course sought presented settled =>
      obtain ⟨hf, hopen, hasks, hrun⟩ := hr.shows_of_seek hsettled sought
      have hq := hrun.backtracks (a := a) (fun m hm => ih m (Nat.le_of_lt hm)) hsettled hretract hf
        hopen (offer_of_seek_eq sought).2 presented
      simp only [Account.stops_append, Account.stops_ofEntries, Account.stops_announced,
        List.nil_append]
      rcases course with e | r'
      · -- the question was the last one
        obtain ⟨hvalue, hback⟩ := reply_of_settle_eq_ends settled
        obtain ⟨hbacktracks, hresumes⟩ := hq.last hvalue hback
        simp only [Course.account, Account.stops_nil, List.append_nil]
        exact ⟨hbacktracks, fun hlands => place_eq_of_seek sought hlands ▸ hresumes⟩
      · -- what comes after the question is a run again, and it may start from an earlier field
        have hnext : Interview.Backtracks a (r'.account n a form o w₃).stops
              ((conduct n form o r' w₃).1.map Ending.reply) ∧
            ((∃ v, (q.ask n w₁).1 = .done (.value v)) ∨ ((q.ask n w₁).1 = .done .back ∧
              ∃ e < place, Resumes a e (r'.account n a form o w₃).stops
                ((conduct n form o r' w₃).1.map Ending.reply))) := by
          rcases hrun.of_settle hsettled hretract.own hf hopen hasks settled with
            ⟨v, i, hv, hr'⟩ | ⟨hback, e, g, he, hg, hunfilled, hagain, hr'⟩
          · exact ⟨(ih n (Nat.le_refl n) hsettled hretract hr').1, Or.inl ⟨v, hv⟩⟩
          · obtain ⟨hrest, hlands⟩ := ih n (Nat.le_refl n) hsettled hretract hr'
            exact ⟨hrest, Or.inr ⟨hback, e, he, hlands g hg hunfilled hagain⟩⟩
        obtain ⟨hbacktracks, hresumes⟩ := hq.followed hnext.1 hnext.2
        exact ⟨hbacktracks, fun hlands => place_eq_of_seek sought hlands ▸ hresumes⟩

/-- **Every run retraces its steps.** The induction is on the bound. A turn adds the stops of one
field, and by the time the run goes on it is known whether the user went back from them. -/
theorem retraces (n : Nat) : Retraces n := by
  induction n using Nat.strong_induction_on with
  | _ n ih =>
    intro a form initial o r k w hsettled hretract hr
    rcases n with _ | n
    · have hexhausted : (conduct 0 form o r w).1.map Ending.reply = .exhausted := by
        rw [conduct]
        rfl
      rw [hexhausted]
      exact ⟨backtracks_nil (by simp), fun _ _ _ _ =>
        ⟨fun _ hy => absurd hy (by simp [Run.account]), fun _ v => by simp⟩⟩
    · obtain ⟨hbacktracks, hresumes⟩ := (r.turn n a form o w).backtracks
        (fun m hm => ih m (Nat.lt_succ_of_le hm)) hsettled hretract hr
      refine ⟨hbacktracks, fun f hf hunfilled hasks => hresumes ?_⟩
      -- an open field at the frontier is where the search ends, whatever the attempt is
      rcases hr.1.seek_frontier (o := o) hf hunfilled fun a =>
        (hsettled.skipsByDraft f (List.mem_of_getElem? hf) r.draft a none).trans hasks with
        hfailed | ⟨entries, run, attempt, make, hseek⟩
      · exact Or.inl hfailed
      · exact Or.inr ⟨entries, run, f, attempt, make, hseek⟩

end Run

/-! ## Forms run from the start -/

/-- **The stop after a retreat is an earlier one**, in every run: a question of a field declared
earlier, with the fields of every inner form read in place of its own, or the completion of an inner
form there. If there is none, the form is not completed. -/
theorem Form.stops_of_asked_back {form : Form} {o : Options} {initial recent : Draft} {n : Nat}
    {w : Session} (hsettled : form.Settled o) (hretract : form.CanRetract initial)
    {before after : Account} {a : List Nat}
    (h : form.account n [] o initial recent w = before ++ .asked a (.done .back) :: after) :
    (after.stops = [] ∧ ∀ d, (conductForm n form o initial recent w).1 ≠ .done (.completed d)) ∨
      ∃ b out rest, after.stops = (b, out) :: rest ∧ b < a := by
  have hform : Backtracks [] (form.account n [] o initial recent w).stops
      ((conductForm n form o initial recent w).1.map Ending.reply) :=
    backtracks_of_retraces (fun m _ => Run.retraces m) hsettled hretract
  rw [h, Account.stops_append, Account.stops_asked] at hform
  rcases hafter : after.stops with _ | ⟨⟨b, out⟩, rest⟩
  · -- the retreat was the last stop, so the run did not come to an answer
    have hlast : (a, Outcome.done Reply.back) ∈
        (before.stops ++ (a, .done .back) :: after.stops).getLast? := by
      rw [hafter, List.getLast?_concat]
      rfl
    exact Or.inl ⟨rfl, fun d hd =>
      hform.unanswered _ hlast rfl d.toJson (map_reply_eq_value.mpr ⟨d, hd, rfl⟩)⟩
  · have hchain := hform.chain
    rw [hafter] at hchain
    have hpair := (List.isChain_append.mp hchain).2.1
    exact Or.inr ⟨b, out, rest, rfl, (List.isChain_cons_cons.mp hpair).1 rfl⟩

/-- **Going back moves back.** Whenever a question that is no form is left by going back, either
nothing is asked any more and the form is not completed, or the next such question is that of a
field declared earlier, with the fields of every inner form read in place of its own. The run must
not land on an inner form that completes without asking anything. -/
theorem Form.retreats_of_asked_back {form : Form} {o : Options} {initial recent : Draft} {n : Nat}
    {w : Session} (hsettled : form.Settled o) (hretract : form.CanRetract initial)
    {before after : Account} {a : List Nat}
    (h : form.account n [] o initial recent w = before ++ .asked a (.done .back) :: after)
    (hfirst : after.asksFirst = true) :
    (after.leaves = [] ∧ ∀ d, (conductForm n form o initial recent w).1 ≠ .done (.completed d)) ∨
      ∃ b out rest, after.leaves = (b, out) :: rest ∧ b < a := by
  -- the next stop is the next question
  have hhead := Account.head?_stops hfirst
  rcases stops_of_asked_back hsettled hretract h with ⟨hnone, hvalue⟩ | ⟨b, out, rest, hstops, hlt⟩
  · rw [hnone, List.head?_nil] at hhead
    exact Or.inl ⟨List.head?_eq_none_iff.mp hhead.symm, hvalue⟩
  · rw [hstops, List.head?_cons] at hhead
    obtain ⟨rest', hleaves⟩ := List.head?_eq_some_iff.mp hhead.symm
    exact Or.inr ⟨b, out, rest', hleaves, hlt⟩

example : (Form.excursion.account 12 [] .default .empty .empty .excursion).leaves.map Prod.fst =
    [[0], [1, 0], [1, 1], [2], [1, 0], [0], [1, 0], [1, 1], [2]] := by
  decide +kernel

-- an inner form without anything to ask completes at once, and the same question comes again
example : ((Form.empty.bind (Form.empty.asField (.ofText "target"))
      |>.bind (.asking (.ofText "runtime") (.shaped .text) (.deck 3 0 false))).account 12 []
        .default .empty .empty .excursion).leaves.map Prod.fst = [[1], [1]] := by
  decide +kernel

/-- The user of the excursion goes back from the runtime, and the kind is asked next. -/
theorem retreats_of_excursion :
    Form.excursion.Settled .default ∧ Form.excursion.CanRetract .empty ∧
    ∃ before after, Form.excursion.account 12 [] .default .empty .empty .excursion =
        before ++ .asked [2] (.done .back) :: after ∧ Account.asksFirst after = true ∧
      ((Account.leaves after = [] ∧ ∀ d, (conductForm 12 Form.excursion .default .empty .empty
          .excursion).1 ≠ .done (.completed d)) ∨
        ∃ b out rest, Account.leaves after = (b, out) :: rest ∧ b < [2]) := by
  have hsettled : Form.excursion.Settled .default :=
    Form.throughout_excursion fun path type q => Field.skipsByDraft_asking path type q _
  have hretract : Form.excursion.CanRetract .empty := .of_neat hsettled Draft.neat_empty
  obtain ⟨hlt, hback⟩ := List.getElem?_eq_some_iff.mp
    (show (Form.excursion.account 12 [] .default .empty .empty .excursion)[19]? =
      some (.asked [2] (.done .back)) by cbv)
  have hsplit : Form.excursion.account 12 [] .default .empty .empty .excursion =
      List.take 19 (Form.excursion.account 12 [] .default .empty .empty .excursion) ++
        .asked [2] (.done .back) ::
          List.drop 20 (Form.excursion.account 12 [] .default .empty .empty .excursion) := by
    rw [← hback, List.getElem_cons_drop, List.take_append_drop]
  have hfirst : Account.asksFirst
      (List.drop 20 (Form.excursion.account 12 [] .default .empty .empty .excursion)) = true := by
    decide +kernel
  exact ⟨hsettled, hretract, _, _, hsplit, hfirst,
    Form.retreats_of_asked_back hsettled hretract hsplit hfirst⟩

end Interview
