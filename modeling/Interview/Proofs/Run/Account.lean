import Interview.Proofs.Run.Order
/-
Accounts: all that can be told of a run from outside, through every form inside the form.

A visit knows what its question came to, and nothing of what went on inside it. But a question
may be a form, with steps of its own, and what the user sees is one series of steps. The account
of a run is that series. It records every step with its numbers and its draft, every question
that is no form with its outcome, the end of every inner form, and what the observer is told.

Steps are told apart by addresses. The address of a field is the list of the places that lead
to it, from the outermost form inwards, so the lexicographic order of addresses is the order in
which the fields are declared when every inner form is read in place of its field.
-/

set_option autoImplicit false

namespace Interview

/-! ## Episodes -/

/-- One thing that happens in a run or in a run inside it. -/
inductive Episode
  /-- The observer was told something. -/
  | told (e : Entry)
  /-- A step was shown, with its two numbers, for a draft. -/
  | shown (address : List Nat) (current total : Nat) (draft : Draft)
  /-- A question that is no form was asked, and came to this. -/
  | asked (address : List Nat) (outcome : Outcome (Reply Json))
  /-- A form that was asked as one question came to this. -/
  | concluded (address : List Nat) (outcome : Outcome (Reply Json))

/-- What happens in a run, in order. -/
abbrev Account := List Episode

/-- Whether the entry is something that an observer was told. -/
def Entry.isReport : Entry → Bool
  | .reported _ | .logged _ => true
  | _ => false

/-- The address and the outcome of a question that is no form. -/
def Episode.asked? : Episode → Option (List Nat × Outcome (Reply Json))
  | .asked a o => some (a, o)
  | _ => none

namespace Account

/-- What the observer is told, out of some entries of a transcript. -/
def ofEntries (es : List Entry) : Account :=
  (es.filter Entry.isReport).map Episode.told

/-- The questions that are no forms, each with its address and its outcome. -/
def leaves (acc : Account) : List (List Nat × Outcome (Reply Json)) :=
  acc.filterMap Episode.asked?

/-- The outcomes of these questions: all that the run is given from outside. -/
def results (acc : Account) : List (Outcome (Reply Json)) :=
  acc.leaves.map Prod.snd

variable {acc acc' : Account}

@[simp] theorem leaves_append : leaves (acc ++ acc') = leaves acc ++ leaves acc' :=
  List.filterMap_append

end Account

/-- What was added to the transcript between two sessions. -/
def Session.since (w w' : Session) : List Entry :=
  (w'.entries.take (w'.entries.length - w.entries.length)).reverse

@[simp] theorem Session.since_emit (w : Session) (es : List Entry) :
    w.since (w.emit es) = es := by
  have hlength : (es.reverse ++ w.entries).length - w.entries.length = es.reverse.length := by
    rw [List.length_append, Nat.add_sub_cancel]
  rw [Session.since, Session.emit, hlength, List.take_left, List.reverse_reverse]

@[simp] theorem Session.since_report (w : Session) (o : Options) (r : Report) :
    w.since (w.report o r) = o.observer.entries r :=
  Session.since_emit w _

theorem Session.since_emit_emit (w : Session) (es es' : List Entry) :
    w.since ((w.emit es).emit es') = es ++ es' := by
  have hemit : (w.emit es).emit es' = w.emit (es ++ es') := by
    simp only [Session.emit, List.reverse_append, List.append_assoc]
  rw [hemit, since_emit]

@[simp] theorem Session.since_self (w : Session) : w.since w = [] := by
  rw [Session.since, Nat.sub_self, List.take_zero, List.reverse_nil]

/-! ## Accounts -/

/-- How a step is announced. -/
def Run.announced (r : Run) (a : List Nat) (o : Options) (form : Form) (place : Nat) (path : Path) :
    Account :=
  .shown (a ++ [place]) r.current (r.total form place) r.draft ::
    Account.ofEntries (o.observer.entries (.step path r.current (r.total form place)))

mutual

/-- What happens while a question is asked: the account of its run if it is a form, and else just
that it was asked. -/
def Question.account : Nat → List Nat → Question → Session → Account
  | 0, _, _, _ => []
  | n + 1, a, .nested form initial recent options, w =>
    Form.account n a form options initial recent w ++
      [.concluded a ((conductForm n form options initial recent w).1.map Ending.reply)]
  | n + 1, a, q, w => [.asked a (q.ask (n + 1) w).1]

/-- The account of a form that is run from the start. -/
def Form.account : Nat → List Nat → Form → Options → Draft → Draft → Session → Account
  | 0, _, _, _, _, _, _ => []
  | n + 1, a, form, o, initial, recent, w =>
    match Run.start form initial recent with
    | .error _ => []
    | .ok run => Run.account n a form o run w

/-- The account of a run, turn by turn as the run is conducted. -/
def Run.account : Nat → List Nat → Form → Options → Run → Session → Account
  | 0, _, _, _, _, _ => []
  | n + 1, a, form, o, run, w =>
    let (entries, run, found) := run.seek o form
    let w := w.emit entries
    Account.ofEntries entries ++
    match found with
    | .failed _ => []
    | .nothing => Account.ofEntries (w.since (run.conclude o form w).2)
    | .step place field attempt make =>
      let (q, w) := run.present o form place field attempt make w
      let (outcome, q', w') := q.ask n w
      let w' := (q'.dispose w').2
      run.announced a o form place field.path ++ Question.account n (a ++ [place]) q w ++
      match run.settle o form place field outcome w' with
      | (.ends _, w'') => Account.ofEntries (w'.since w'')
      | (.goesOn run, w'') =>
        Account.ofEntries (w'.since w'') ++ Run.account n a form o run w''

end

/-- What the account says of a run from where its course leads. -/
def Course.account (n : Nat) (a : List Nat) (form : Form) (o : Options) :
    Course → Session → Account
  | .ends _, _ => []
  | .goesOn r, w => r.account n a form o w

/-- What a run comes to from where its course leads. -/
def Course.outcome (n : Nat) (form : Form) (o : Options) : Course → Session → Outcome Ending
  | .ends e, _ => e
  | .goesOn r, w => (conduct n form o r w).1

/-- How a turn of a run goes, with what the account says from there on and what the run comes
to. -/
inductive Run.Turn (n : Nat) (a : List Nat) (form : Form) (o : Options) (r : Run) :
    Account → Outcome Ending → Prop
  /-- The question of a field could not be made. -/
  | failed {entries : List Entry} {run : Run} {e : RunError}
    (sought : r.seek o form = (entries, run, .failed e)) :
    Turn n a form o r (Account.ofEntries entries) (.failed e)
  /-- There is nothing left to ask. -/
  | finished {entries : List Entry} {run : Run} {w : Session}
    (sought : r.seek o form = (entries, run, .nothing)) :
    Turn n a form o r
      (Account.ofEntries entries ++ Account.ofEntries (w.since (run.conclude o form w).2))
      (run.conclude o form w).1
  /-- A question is asked, and the run takes its course. -/
  | step {entries : List Entry} {run : Run} {place : Nat} {f : Field}
    {attempt : Option (Attempt Json)} {make : Session → Question × Session} {q : Question}
    {w w₁ w₂ w₃ : Session} {course : Course}
    (sought : r.seek o form = (entries, run, .step place f attempt make))
    (presented : run.present o form place f attempt make w = (q, w₁))
    -- the sessions between asking and settling do not matter to what is said here
    (settled : run.settle o form place f (q.ask n w₁).1 w₂ = (course, w₃)) :
    Turn n a form o r
      (Account.ofEntries entries ++ (run.announced a o form place f.path ++
        q.account n (a ++ [place]) w₁ ++
        (Account.ofEntries (w₂.since w₃) ++ course.account n a form o w₃)))
      (course.outcome n form o w₃)

/-- **A run is conducted turn by turn**, and so is its account. -/
theorem Run.turn (n : Nat) (a : List Nat) (form : Form) (o : Options) (r : Run) (w : Session) :
    r.Turn n a form o (r.account (n + 1) a form o w) (conduct (n + 1) form o r w).1 := by
  rw [Run.account, conduct]
  rcases hseek : r.seek o form with ⟨entries, run, _ | e | ⟨place, f, attempt, make⟩⟩
  · exact .finished hseek
  · simp only [List.append_nil]
    exact .failed hseek
  · rcases hpresent : run.present o form place f attempt make (w.emit entries) with ⟨q, w₁⟩
    rcases hask : q.ask n w₁ with ⟨outcome, q', w'⟩
    simp only [hpresent, hask]
    have houtcome : (q.ask n w₁).1 = outcome := by rw [hask]
    rcases hsettle : run.settle o form place f outcome (q'.dispose w').2 with ⟨e | r', w₃⟩
    · have h := Turn.step (a := a) hseek hpresent (houtcome.symm ▸ hsettle)
      rwa [Course.account, List.append_nil] at h
    · exact .step hseek hpresent (houtcome.symm ▸ hsettle)

/-- Whether the question is a form. -/
def Question.isForm : Question → Bool
  | .nested .. => true
  | _ => false

theorem Question.account_of_isForm_eq_false {q : Question} (h : q.isForm = false) (n : Nat)
    (a : List Nat) (w : Session) : q.account (n + 1) a w = [.asked a (q.ask (n + 1) w).1] := by
  cases q with
  | nested => exact absurd h (by simp [Question.isForm])
  | _ => rfl

/-! ## Addresses -/

/-- The address of the field that an episode is about. -/
def Episode.address? : Episode → Option (List Nat)
  | .told _ => none
  | .shown a _ _ _ => some a
  | .asked a _ => some a
  | .concluded a _ => some a

/-- All of the account is about fields at an address or under it. -/
def Account.Under (acc : Account) (a : List Nat) : Prop :=
  ∀ e ∈ acc, ∀ b, e.address? = some b → a <+: b

namespace Account.Under

variable {acc acc' : Account} {a b : List Nat}

theorem append (h : acc.Under a) (h' : acc'.Under a) : (acc ++ acc').Under a := by
  intro e he
  rcases List.mem_append.mp he with he | he
  · exact h e he
  · exact h' e he

theorem nil (a : List Nat) : Account.Under [] a :=
  fun _ he => absurd he List.not_mem_nil

theorem single {e : Episode} (he : e.address? = some a) : Account.Under [e] a := by
  intro e' he' b hb
  obtain rfl := List.mem_singleton.mp he'
  rw [he, Option.some.injEq] at hb
  exact hb ▸ List.prefix_refl a

/-- What the observer is told is about no field. -/
theorem ofEntries (es : List Entry) (a : List Nat) : (Account.ofEntries es).Under a := by
  intro e he b hb
  obtain ⟨entry, -, rfl⟩ := List.mem_map.mp he
  exact absurd hb (by simp [Episode.address?])

theorem of_concat {i : Nat} (h : acc.Under (a ++ [i])) : acc.Under a :=
  fun e he b hb => (List.prefix_append a [i]).trans (h e he b hb)

end Account.Under

variable {form : Form} {o : Options} {r : Run} {a : List Nat}

/-- What is said of runs in the induction: their accounts are about fields under an address. -/
def Run.StaysUnder (n : Nat) : Prop :=
  ∀ {a : List Nat} {form : Form} {o : Options} {r : Run} {w : Session},
    (r.account n a form o w).Under a

/-- The account of a question is about the field that asks it, and fields under it. -/
theorem Question.under_account {n : Nat} (ih : ∀ m < n, Run.StaysUnder m) (q : Question)
    (a : List Nat) (w : Session) : (q.account n a w).Under a := by
  rcases n with _ | n
  · exact .nil a
  by_cases hform : q.isForm = false
  · rw [Question.account_of_isForm_eq_false hform]
    exact .single rfl
  · obtain ⟨form, initial, recent, options, rfl⟩ : ∃ form initial recent options,
        q = .nested form initial recent options := by
      cases q with
      | nested => exact ⟨_, _, _, _, rfl⟩
      | _ => exact absurd rfl hform
    rw [Question.account]
    refine .append ?_ (.single rfl)
    rcases n with _ | n
    · exact .nil a
    · rw [Form.account]
      rcases Run.start form initial recent with e | first
      · exact .nil a
      · exact ih n (by omega)

/-- The account of one turn of a run is about the fields of its form, and fields under them. -/
theorem Run.Turn.under {n : Nat} (ih : ∀ m ≤ n, Run.StaysUnder m) {acc : Account}
    {out : Outcome Ending} (h : r.Turn n a form o acc out) : acc.Under a := by
  cases h with
  | failed sought => exact .ofEntries _ a
  | finished sought => exact .append (.ofEntries _ a) (.ofEntries _ a)
  | @step entries run place f attempt make q w w₁ w₂ w₃ course sought presented settled =>
      have hshown : (run.announced a o form place f.path).Under a :=
        .of_concat (.append (.single rfl) (.ofEntries _ _))
      have hasked : (q.account n (a ++ [place]) w₁).Under a :=
        .of_concat (q.under_account (fun m hm => ih m (Nat.le_of_lt hm)) _ w₁)
      refine .append (.ofEntries _ a) (.append (.append hshown hasked)
        (.append (.ofEntries _ a) ?_))
      rcases course with e | r'
      · exact .nil a
      · exact ih n (Nat.le_refl n)

/-- **The account of a run is about the fields of its form**, and fields under them. The induction
is on the bound. -/
theorem Run.staysUnder (n : Nat) : StaysUnder n := by
  induction n using Nat.strongRecOn with
  | ind n ih =>
    intro a form o r w
    rcases n with _ | n
    · exact .nil a
    · exact (r.turn n a form o w).under fun m hm => ih m (Nat.lt_succ_of_le hm)

end Interview
