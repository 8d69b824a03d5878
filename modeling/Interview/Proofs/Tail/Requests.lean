import Interview.Proofs.Answers.Records
import Interview.Proofs.Controls.Made
import Interview.Proofs.Tail.Questions
/-
The interview for a live-tail request never fails, and what it brings is in the catalogue.

The form is one of fields that answer (`TailRequest.answers_form`), so a sitting ends well: the user
leaves, or the draft is that of a single pass. In that pass the log group is a choice that the
two-tier question made as a whole, region and log group together, and no reply to another question
reaches it. What the two tiers went through before they came to the choice, and how often the user
came back to them, is not in the pass any more.

A log group that is given beforehand fills its field from the start. Then the pass leaves the field
alone (`Finished.logGroup`), and the run makes no control for it, since the only controls of a run
are those of the fields that the start leaves open.
-/

set_option autoImplicit false

namespace Interview

open Control (Event)

/-! ## Reading a request -/

/-- The two parts of a choice, in order of their names. -/
theorem LogGroupChoice.answer_eq (c : LogGroupChoice) :
    c.answer = .object [("item", .text c.group), ("key", .text c.region)] := by
  have hlt : "item" < "key" := by decide
  simp [answer, Json.ofMembers, Members.ofList, Members.put, Members.find?, Members.insert, hlt]

theorem LogGroupChoice.decode?_answer (c : LogGroupChoice) :
    shape.decode? c.answer = some c.answer := by
  rw [answer_eq, shape, Shape.choice, Shape.decode?]
  simp [Shape.decodeParts, Shape.decode?, Members.find?, ← answer_eq, answer]

theorem LogGroupChoice.ofJson?_answer (c : LogGroupChoice) : ofJson? c.answer = some c := by
  rw [ofJson?, decode?_answer, answer_eq]
  simp [Json.member?, Members.find?, Json.text?]

theorem StartFrom.decode?_text_name (s : StartFrom) :
    shape.decode? (.text s.name) = some (.text s.name) := by
  cases s <;> rfl

theorem StartFrom.ofJson?_text_name (s : StartFrom) : ofJson? (.text s.name) = some s := by
  cases s <;> rfl

namespace TailRequest

/-- A request is read from the three members that the form fills. -/
theorem ofJson?_object {ms : Members} {c : LogGroupChoice} {pattern : String} {s : StartFrom}
    (hgroup : ms.find? "logGroup" = some c.answer)
    (hpattern : ms.find? "pattern" = some (.text pattern))
    (hstart : ms.find? "start" = some (.text s.name)) :
    ofJson? (.object ms) = some ⟨c, pattern, s⟩ := by
  have hgroup' : LogGroupChoice.shape.part? "logGroup" ms = some c.answer :=
    (Shape.part?_of_find? hgroup).trans c.decode?_answer
  have hpattern' : Shape.part? .text "pattern" ms = some (.text pattern) :=
    Shape.part?_of_find? hpattern
  have hstart' : StartFrom.shape.part? "start" ms = some (.text s.name) :=
    (Shape.part?_of_find? hstart).trans s.decode?_text_name
  have hall : ∀ p ∈ [("logGroup", LogGroupChoice.shape), ("pattern", .text),
      ("start", StartFrom.shape)], (p.2.part? p.1 ms).isSome = true := by
    simp [hgroup', hpattern', hstart']
  obtain ⟨ms', hdecode, hparts⟩ := Shape.exists_decode_record (by decide) hall
  simp only [List.forall_mem_cons, hgroup', hpattern', hstart'] at hparts
  obtain ⟨hg, hp, hs, -⟩ := hparts
  simp [ofJson?, shape, hdecode, Json.member?, hg, hp, hs, Json.text?,
    LogGroupChoice.ofJson?_answer, StartFrom.ofJson?_text_name]

/-! ## Starts -/

/-- The draft that the form starts with: the log group, if it is given. -/
def started : Option LogGroupChoice → Draft
  | some c => ⟨[("logGroup", c.answer)]⟩
  | none => .empty

theorem preset_eq (given : Option LogGroupChoice) : preset given = .ok (started given) := by
  cases given with
  | none => rfl
  | some c => rfl

theorem neat_started (given : Option LogGroupChoice) : (started given).Neat := by
  cases given with
  | none => exact Draft.neat_empty
  | some c =>
      have hordered : Members.Ascending [("item", Json.text c.group), ("key", .text c.region)] :=
        List.pairwise_pair.mpr (by decide : "item" < "key")
      refine ⟨⟨by simp [started, Members.Ascending], ?_⟩, ?_⟩
      · simp [started, c.answer_eq, Json.OrderedMembers, Json.Ordered, hordered]
      · simp [started, c.answer_eq, Json.SolidMembers, Json.Solid]

variable {w : Wording} {g : LogGroups} {given : Option LogGroupChoice} {o : Options}
variable {hs : List Nat} {d : Draft}

/-- The paths of the form have one segment each, so that nothing can stand in the way. -/
theorem ready_form (r : Run) (v : Validator) : r.Ready (form w g v) := by
  have hadmits : ∀ (d : Draft), ∀ f ∈ (form w g v).fields, d.Admits f.path := by
    intro d f hf
    rw [fields_form] at hf
    simp only [fields, List.mem_cons, List.not_mem_nil, or_false] at hf
    rcases hf with rfl | rfl | rfl <;> trivial
  exact ⟨hadmits _, hadmits _⟩

/-- The interview begins, since nothing is required. -/
theorem exists_start (w : Wording) (g : LogGroups) (v : Validator) (d : Draft) :
    ∃ first, Run.start (form w g v) d .empty = .ok first :=
  ⟨_, rfl⟩

/-- Only the log group can be filled from the start. -/
theorem isFilled_started {j : Nat} {f : Field} {v : Validator} (hf : (fields w g v)[j]? = some f) :
    f.isFilled (started given) = true ↔ j = 0 ∧ given.isSome = true := by
  match j with
  | 0 =>
      obtain rfl := Option.some.inj hf
      cases given with
      | none => exact iff_of_false (by simp [Field.isFilled_empty, started]) (by simp)
      | some c => exact iff_of_true rfl ⟨rfl, rfl⟩
  | 1 =>
      obtain rfl := Option.some.inj hf
      cases given with
      | none => exact iff_of_false (by simp [Field.isFilled_empty, started]) (by simp)
      | some c => exact iff_of_false Bool.false_ne_true (by simp)
  | 2 =>
      obtain rfl := Option.some.inj hf
      cases given with
      | none => exact iff_of_false (by simp [Field.isFilled_empty, started]) (by simp)
      | some c => exact iff_of_false Bool.false_ne_true (by simp)
  | _ + 3 => exact absurd hf (by simp [fields])

/-! ## Finished passes -/

/-- The draft of a pass over all fields of the form. -/
def Finished (w : Wording) (g : LogGroups) (o : Options) (given : Option LogGroupChoice)
    (hs : List Nat) (d : Draft) : Prop :=
  Pass o (form w g FilterPattern.validator) (started given)
    (Form.Given (form w g FilterPattern.validator) (Fits g))
    (form w g FilterPattern.validator).fields.length hs d

namespace Finished

/-- Every field has an answer that fits, unless it was filled from the start. -/
theorem at_place (h : Finished w g o given hs d) {j : Nat} {f : Field}
    (hf : (fields w g FilterPattern.validator)[j]? = some f)
    (hasks : ∀ d, f.declines o d none = false) :
    (j ∉ hs ∧ j = 0 ∧ given.isSome = true) ∨
      (¬(j = 0 ∧ given.isSome = true) ∧
        ∃ d₀ v, Fits g j d₀ v ∧ d.members.at? f.path.segments = some v) := by
  rw [← fields_form] at hf
  obtain ⟨hj, -⟩ := List.getElem?_eq_some_iff.mp hf
  obtain ⟨d₀, -, -, hat⟩ := Pass.read (separate_form ..) h hj hf
  rcases hat with ⟨hnew, hfilled | hdeclines⟩ | ⟨hmem, -, v, ⟨f', hf', hfits, -⟩, hread⟩
  · exact Or.inl ⟨hnew, (isFilled_started hf).mp hfilled⟩
  · rw [hasks d₀] at hdeclines
    exact absurd hdeclines (by decide)
  · refine Or.inr ⟨fun hgiven => ?_, d₀, v, hfits, hread⟩
    have hunfilled := Pass.unfilled_of_mem h hmem hf
    rw [(isFilled_started hf).mpr hgiven] at hunfilled
    exact absurd hunfilled (by decide)

/-- **The log group is the one that was given, or one of the catalogue.** -/
theorem logGroup (h : Finished w g o given hs d) :
    ∃ c : LogGroupChoice, d.members.find? "logGroup" = some c.answer ∧
      (∀ p, given = some p → c = p) ∧ (given = none → g.Holds c) := by
  have hf : (form w g FilterPattern.validator).fields[0]? =
      some (.asking (.ofText "logGroup") (.shaped LogGroupChoice.shape) (g.question w)) := rfl
  rcases h.at_place hf (fun _ => rfl) with ⟨hnew, -, hgiven⟩ | ⟨hopen, d₀, v, ⟨c, rfl, hc⟩, hread⟩
  · -- the pass does not touch what the start has
    obtain ⟨p, rfl⟩ := Option.isSome_iff_exists.mp hgiven
    obtain ⟨hkept, -⟩ :=
      Pass.frame (separate_form ..) h ((neat_started _).tidy _) hf hnew
    exact ⟨p, hkept, fun p' hp => Option.some.inj hp, fun hnone => absurd hnone (by simp)⟩
  · refine ⟨c, hread, fun p hp => ?_, fun _ => hc⟩
    exact absurd ⟨rfl, by rw [hp]; rfl⟩ hopen

theorem pattern (h : Finished w g o given hs d) :
    ∃ s, d.members.find? "pattern" = some (.text s) ∧ FilterPattern.fault? s = none := by
  have hf : (form w g FilterPattern.validator).fields[1]? =
      some (.asking (.ofText "pattern") (.shaped .text)
        (FilterPattern.question w FilterPattern.validator)) := rfl
  rcases h.at_place hf (fun _ => rfl) with ⟨-, hzero, -⟩ | ⟨-, d₀, v, ⟨s, rfl, hs⟩, hread⟩
  · exact absurd hzero (by decide)
  · exact ⟨s, hread, hs⟩

theorem start (h : Finished w g o given hs d) :
    ∃ s : StartFrom, d.members.find? "start" = some (.text s.name) := by
  have hf : (form w g FilterPattern.validator).fields[2]? =
      some (.asking (.ofText "start") (.shaped StartFrom.shape) (startQuestion w)) := rfl
  rcases h.at_place hf (fun _ => rfl) with ⟨-, hzero, -⟩ | ⟨-, d₀, v, ⟨s, rfl⟩, hread⟩
  · exact absurd hzero (by decide)
  · exact ⟨s, hread⟩

end Finished

/-! ## Requests of a catalogue -/

/-- **A request that the catalogue bears out**: its pattern has no fault, and its log group is the
one that was given, or else one that the catalogue holds for the region it is named with. -/
structure DrawnFrom (g : LogGroups) (given : Option LogGroupChoice) (r : TailRequest) : Prop where
  fault_eq_none : FilterPattern.fault? r.pattern = none
  logGroup_eq : ∀ c, given = some c → r.logGroup = c
  holds : given = none → g.Holds r.logGroup

/-- **The draft of a finished pass is read as such a request.** -/
theorem Finished.exists_ofJson? (h : Finished w g o given hs d) :
    ∃ r, ofJson? d.toJson = some r ∧ r.DrawnFrom g given := by
  obtain ⟨c, hgroup, hgiven, hpicked⟩ := h.logGroup
  obtain ⟨pattern, hpattern, hfault⟩ := h.pattern
  obtain ⟨s, hstart⟩ := h.start
  exact ⟨⟨c, pattern, s⟩, ofJson?_object hgroup hpattern hstart, hfault, hgiven, hpicked⟩

/-! ## Controls -/

/-- A control that asks for the pattern or for the start, and not for a region or a log group. -/
def AsksForRest (w : Wording) (kind : Control.Kind) (chrome : Chrome) : Prop :=
  (∃ value, kind = .text value false) ∨
    (kind = .list false ∧
      ∃ steps : Option (Nat × Nat), chrome.title = some (
        match steps with
        | some (current, total) => w.stepTitle "Start from" current total
        | none => "Start from"))

/-- The controls of the pattern and the start are of this kind. -/
theorem makes_of_unfilled {K : Described} (hK : ∀ id kind chrome, AsksForRest w kind chrome →
      K id kind chrome) (c : LogGroupChoice) {v : Validator} {f : Field}
    (hf : f ∈ (form w g v).fields) (hunfilled : f.isFilled (started (some c)) = false) :
    f.Makes K := by
  rw [fields_form] at hf
  simp only [fields, List.mem_cons, List.not_mem_nil, or_false] at hf
  rcases hf with rfl | rfl | rfl
  · -- the log group is filled
    rw [(@isFilled_started w g (some c) 0 _ v rfl).mpr ⟨rfl, rfl⟩] at hunfilled
    exact absurd hunfilled (by simp)
  · refine Field.makes_asking _ _ ⟨trivial, rfl, fun c steps id hc => hK _ _ _ (Or.inl ?_)⟩
    cases c with
    | text t => exact ⟨t.value, congrArg (Control.Kind.text t.value) hc⟩
    | list l => exact absurd hc not_false
  · refine Field.makes_asking _ _ ⟨PickList.quiet_of_idle trivial rfl, rfl,
      fun c steps id hc => hK _ _ _ (Or.inr ?_)⟩
    cases c with
    | text t => exact absurd hc not_false
    | list l => exact ⟨congrArg Control.Kind.list hc, steps, rfl⟩

/-! ## The sitting -/

/-- Within a number of turns the interview ends without a failure, or they run out and are then too
few. -/
theorem outcome_cases (hg : g.Complete) (w : Wording) (given : Option LogGroupChoice) (o : Options)
    {scripts : List (List Event)} {session : Session} (hhost : session.host = .rehearsal scripts)
    (n : Nat) :
    let sitting := Sitting.new (form w g FilterPattern.validator) (started given) o
    let outcome := (sitting.conduct (n + 1) ofJson? session).1
    (outcome = .exhausted ∧ n < Run.turns scripts) ∨ outcome = .done none ∨
      ∃ r, outcome = .done (some r) ∧ r.DrawnFrom g given := by
  intro sitting outcome
  obtain ⟨first, hstart⟩ := exists_start w g FilterPattern.validator (started given)
  have hends := (answers_form hg w o).endsWell hstart (neat_started given) (ready_form first _)
    (fun _ _ _ _ hp => absurd hp List.not_mem_nil) hhost n
  have houtcome : outcome =
      (conductForm (n + 1) (form w g FilterPattern.validator) o (started given) .empty session).1.bind
        (Sitting.respond ofJson?) := Sitting.conduct_new _ _ _ _ _ _
  rcases hends with ⟨hexhausted, hlt⟩ | hback | hcancelled | ⟨d, hs, hcompleted, hfinished⟩
  · exact Or.inl ⟨by rw [houtcome, hexhausted]; rfl, hlt⟩
  · exact Or.inr (Or.inl (by rw [houtcome, hback]; rfl))
  · exact Or.inr (Or.inl (by rw [houtcome, hcancelled]; rfl))
  · obtain ⟨r, hread, hdrawn⟩ := Finished.exists_ofJson? hfinished
    refine Or.inr (Or.inr ⟨r, ?_, hdrawn⟩)
    rw [houtcome, hcompleted]
    simp only [Outcome.bind, Sitting.respond, hread]

/-- **The interview for a live-tail request never fails, and what it brings is in the catalogue**,
whatever the regions are, whichever log group is given, and whatever the controls hand out: given
enough turns, it ends with nothing or with a request that the catalogue bears out, and within fewer
turns nothing else can happen than that they run out. With a log group that is given, every control
that it makes asks for the pattern or for the start. -/
theorem drawnFrom_of_conduct (w : Wording) (listed : List (Region × List String))
    (given : Option LogGroupChoice) (o : Options) (scripts : List (List Event))
    (session : Session) :
    ∃ s, sitting w (.ofRegions listed) FilterPattern.validator given o = .ok s ∧
      (∀ n, (s.conduct n ofJson? { session with host := .rehearsal scripts }).1 = .exhausted ∨
        ∃ response, (s.conduct n ofJson? { session with host := .rehearsal scripts }).1 =
          .done response ∧ ∀ r, response = some r → r.DrawnFrom (.ofRegions listed) given) ∧
      (∃ enough, ∀ n, enough ≤ n →
        (s.conduct n ofJson? { session with host := .rehearsal scripts }).1 ≠ .exhausted) ∧
      (given.isSome = true → ∀ n id kind chrome, Entry.made id kind chrome ∈
          (s.conduct n ofJson? { session with host := .rehearsal scripts }).2.2.transcript →
        Entry.made id kind chrome ∈ session.transcript ∨ AsksForRest w kind chrome) := by
  have hhost : Session.host { session with host := .rehearsal scripts } = .rehearsal scripts := rfl
  have hcases := outcome_cases (LogGroups.complete_ofRegions listed) w given o hhost
  refine ⟨_, by rw [sitting, preset_eq]; rfl, fun n => ?_, ?_, fun hgiven n id kind chrome hmem => ?_⟩
  · rcases n with _ | n
    · exact Or.inl rfl
    · rcases hcases n with ⟨hexhausted, -⟩ | hnone | ⟨r, hsome, hdrawn⟩
      · exact Or.inl hexhausted
      · exact Or.inr ⟨none, hnone, fun r hr => absurd hr (by simp)⟩
      · exact Or.inr ⟨some r, hsome, fun r' hr' => Option.some.inj hr' ▸ hdrawn⟩
  · refine ⟨Run.turns scripts + 1, fun n hn hexhausted => ?_⟩
    obtain ⟨n, rfl⟩ : ∃ m, n = m + 1 := ⟨n - 1, by omega⟩
    rcases hcases n with ⟨-, hlt⟩ | hnone | ⟨r, hsome, -⟩
    · omega
    · rw [hnone] at hexhausted
      exact absurd hexhausted (by simp)
    · rw [hsome] at hexhausted
      exact absurd hexhausted (by simp)
  · obtain ⟨c, rfl⟩ := Option.isSome_iff_exists.mp hgiven
    -- the controls that were there before are described as such
    let K : Described := fun id kind chrome =>
      Entry.made id kind chrome ∈ session.transcript ∨ AsksForRest w kind chrome
    have hbefore : Session.Made K { session with host := .rehearsal scripts } :=
      fun id kind chrome hmade => Or.inl (List.mem_reverse.mpr hmade)
    have hmade := @Form.made_of_conductForm K _ _ o _ .empty n
      (separate_form w (.ofRegions listed) FilterPattern.validator)
      (fun f hf hunfilled => makes_of_unfilled (fun _ _ _ hrest => Or.inr hrest) c hf hunfilled)
      hbefore
    exact hmade id kind chrome (List.mem_reverse.mp hmem)

/-! ## A way back to another region -/

/-- A catalogue in which the second region is listed again with another log group. -/
def relisted : List (Region × List String) :=
  [(⟨"us-east-1", "Virginia"⟩, ["orders"]), (⟨"eu-west-1", "Ireland"⟩, ["thumbnails"]),
    (⟨"eu-west-1", "Ireland"⟩, ["payments"])]

/-- A user who opens the first region, goes back from its log groups, picks one of the second, goes
back from the pattern, and picks it once more. -/
def roundabout : List (List Event) :=
  [[.accept], [.button 0], [.selected [1], .accept], [.accept], [.button 0], [.accept], [.accept],
    [.changed "ERROR", .accept], [.accept]]

/-- The request that an interview brought, if it brought one. -/
def response? : Outcome (Option TailRequest) → Option TailRequest
  | .done r => r
  | _ => none

/-- The request names the second region, with the log group that it was listed with last. -/
theorem drawnFrom_of_roundabout :
    ∃ s r, sitting .english (.ofRegions relisted) FilterPattern.validator none .default = .ok s ∧
      (s.conduct 40 ofJson? (Session.new (.rehearsal roundabout))).1 = .done (some r) ∧
      r.DrawnFrom (.ofRegions relisted) none ∧ r = ⟨⟨"eu-west-1", "payments"⟩, "ERROR", .now⟩ := by
  obtain ⟨s, hs, hcases, -⟩ := drawnFrom_of_conduct .english relisted none .default roundabout
    (Session.new (.rehearsal []))
  have hsession : { Session.new (.rehearsal []) with host := .rehearsal roundabout } =
      Session.new (.rehearsal roundabout) := rfl
  obtain rfl : Sitting.new (form .english (.ofRegions relisted) FilterPattern.validator) .empty
      .default = s := Except.ok.inj hs
  have hreached : response? ((Sitting.new (form .english (.ofRegions relisted)
      FilterPattern.validator) .empty .default).conduct 40 ofJson?
        (Session.new (.rehearsal roundabout))).1 =
      some ⟨⟨"eu-west-1", "payments"⟩, "ERROR", .now⟩ := by
    decide +kernel
  have hcase := hcases 40
  rw [hsession] at hcase
  rcases hcase with hexhausted | ⟨response, hdone, hdrawn⟩
  · rw [hexhausted] at hreached
    exact absurd hreached (by decide)
  · rw [hdone] at hreached
    obtain rfl : response = some _ := hreached
    exact ⟨_, _, hs, hdone, hdrawn _ rfl, rfl⟩

end TailRequest

end Interview
