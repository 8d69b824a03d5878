import Interview.Proofs.Launch.Questions
import Interview.Proofs.Launch.Reading
/-
The interview for a launch configuration never fails, and what it brings is coherent.

The form is one of fields that answer (`answers_form`), so a sitting ends well: the user leaves,
or the draft is that of a single pass (`Form.Answers.endsWell`). How often the user went back and
changed the target does not matter any more. In a single pass the target is answered before the
fields that depend on it, and what they find in the draft is the target that stays. So a field
that applies under some targets has an answer exactly if the last target is one of these
(`Finished.under`). With the answers that the questions let through this makes the draft a
filled one (`Finished.filled`), and a filled draft is read as a coherent configuration.
-/

set_option autoImplicit false

namespace Interview

open Control (Event)

/-- Two members of one object. -/
theorem Members.exists_object {ms : Members} {s t u : String} {v v' : Json}
    (h : ms.at? [s, t] = some v) (h' : ms.at? [s, u] = some v') :
    ∃ inner, ms.find? s = some (.object inner) ∧ find? t inner = some v ∧
      find? u inner = some v' := by
  obtain ⟨inner, hs, ht⟩ := at?_cons_eq_some.mp h
  obtain ⟨inner', hs', hu⟩ := at?_cons_eq_some.mp h'
  rw [hs, Option.some.injEq, Json.object.injEq] at hs'
  subst hs'
  exact ⟨inner, hs, ht, hu⟩

namespace LaunchConfig

variable {w : Wording} {taken : List String} {o : Options} {hs : List Nat} {d : Draft}
variable {k : TargetKind}

/-! ## Finished passes -/

/-- The draft of a pass over all fields of the form from an empty start. -/
def Finished (w : Wording) (taken : List String) (o : Options) (hs : List Nat) (d : Draft) : Prop :=
  Pass o (form w taken) .empty (Form.Given (form w taken) Fits) (form w taken).fields.length hs d

namespace Finished

/-- A field was left out because it had nothing to ask, or it has an answer that fits and was
accepted. The fields after the target found the target that stays. -/
theorem at_place (h : Finished w taken o hs d) {j : Nat} {f : Field}
    (hf : (fields w taken)[j]? = some f) :
    ∃ d₀, (1 < j → targetIn d₀ = targetIn d) ∧
      ((j ∉ hs ∧ f.declines o d₀ none = true) ∨
        (f.declines o d₀ none = false ∧
          ∃ v, Fits j d₀ v ∧ f.Accepts d₀ v ∧ d.members.at? f.path.segments = some v)) := by
  rw [← fields_form] at hf
  obtain ⟨hj, -⟩ := List.getElem?_eq_some_iff.mp hf
  obtain ⟨d₀, -, hbefore, hat⟩ := Pass.read (separate_form w taken) h hj hf
  refine ⟨d₀, fun hlt => ?_, ?_⟩
  · have htarget : (form w taken).fields[1]? =
        some (.asking targetPath (.shaped TargetKind.shape) (targetQuestion w)) := by
      rw [fields_form]
      rfl
    have hget : d₀.get? targetPath = d.get? targetPath :=
      Draft.get?_eq_of_at?_eq (hbefore 1 _ hlt htarget)
    rw [targetIn, targetIn, hget]
  · rcases hat with ⟨hnew, hfilled | hdeclines⟩ | ⟨-, hasks, v, ⟨g, hg, hfits, haccepts⟩, hread⟩
    · -- an empty start fills nothing
      rw [Field.isFilled_empty] at hfilled
      exact absurd hfilled (by decide)
    · exact Or.inl ⟨hnew, hdeclines⟩
    · rw [hf, Option.some.injEq] at hg
      subst hg
      exact Or.inr ⟨hasks, v, hfits, haccepts, hread⟩

/-- Nothing is stored under a name if only fields without an answer store something there. -/
theorem find?_eq_none (h : Finished w taken o hs d) {name : String} (places : List Nat)
    (hname : (Path.ofText name).segments = [name])
    (hplaces : ∀ x ∈ paths.zipIdx, x.2 ∈ places ∨ x.1.overlaps (.ofText name) = false)
    (hnew : ∀ j ∈ places, j ∉ hs) : d.members.find? name = none := by
  have hapart : ∀ j ∈ hs, ∀ f, (form w taken).fields[j]? = some f →
      Apart f.path.segments [name] := by
    intro j hj f hf
    have hpath : paths[j]? = some f.path := by
      rw [← map_path_fields w taken, ← fields_form, List.getElem?_map, hf]
      rfl
    rcases hplaces (f.path, j) (List.mem_zipIdx_iff_getElem?.mpr hpath) with hmem | hoverlaps
    · exact absurd hj (hnew j hmem)
    · rw [← hname]
      exact Path.apart_of_overlaps hoverlaps
  exact Pass.at?_of_apart h hapart

/-! ## The members of the draft -/

theorem name (h : Finished w taken o hs d) : ∃ s, d.members.find? "name" = some (.text s) ∧
    Text.isBlankText s = false ∧ s ∉ taken := by
  have hf : (fields w taken)[0]? = some (nameField w taken) := rfl
  obtain ⟨d₀, -, ⟨-, hdeclines⟩ | ⟨-, v, ⟨s, rfl, hblank⟩, ⟨session, haccepted⟩, hread⟩⟩ :=
    h.at_place hf
  · have hasks : (nameField w taken).declines o d₀ none = false := rfl
    rw [hasks] at hdeclines
    exact absurd hdeclines (by decide)
  · rw [weigh_nameField] at haccepted
    split at haccepted
    · exact absurd haccepted (by simp)
    · rename_i hnew
      exact ⟨s, hread, hblank, hnew⟩

theorem target (h : Finished w taken o hs d) :
    ∃ k, targetIn d = some k ∧ d.members.find? "target" = some (.text k.name) := by
  have hf : (fields w taken)[1]? =
      some (.asking targetPath (.shaped TargetKind.shape) (targetQuestion w)) := rfl
  obtain ⟨d₀, -, ⟨-, hdeclines⟩ | ⟨-, v, ⟨k, rfl⟩, -, hread⟩⟩ := h.at_place hf
  · exact absurd hdeclines (by simp [Field.declines, Field.asking, Offer.isDecline])
  · have hget : d.get? targetPath = some (.text k.name) := by
      have hat : d.members.at? targetPath.segments = some (.text k.name) := hread
      rw [Draft.get?, hat]
      rfl
    refine ⟨k, ?_, hread⟩
    rw [targetIn, hget]
    exact k.ofJson?_text_name

/-- **A field under some targets has an answer exactly if the target that stays is one of them.** -/
theorem under (h : Finished w taken o hs d) (hk : targetIn d = some k) {j : Nat} (hj : 1 < j)
    {kinds : List TargetKind} {path : String} {type : Shape} {q : Question}
    (hf : (fields w taken)[j]? = some (fieldUnder kinds path type q)) :
    (k ∉ kinds ∧ j ∉ hs) ∨
      (k ∈ kinds ∧ ∃ d₀ v, Fits j d₀ v ∧
        d.members.at? (Path.ofText path).segments = some v) := by
  obtain ⟨d₀, hsame, hat⟩ := h.at_place hf
  have hcondition : targetIsOneOf kinds d₀ = decide (k ∈ kinds) := by
    rw [targetIsOneOf, hsame hj, hk]
    rfl
  have hdeclines : (fieldUnder kinds path type q).declines o d₀ none = !decide (k ∈ kinds) := by
    show (!targetIsOneOf kinds d₀ || false) = _
    rw [Bool.or_false, hcondition]
  rw [hdeclines] at hat
  rcases hat with ⟨hnew, hno⟩ | ⟨hyes, v, hfits, -, hread⟩
  · exact Or.inl ⟨by simpa using hno, hnew⟩
  · exact Or.inr ⟨by simpa using hyes, d₀, v, hfits, hread⟩

theorem handler (h : Finished w taken o hs d) (hk : targetIn d = some k) :
    if k = .code then ∃ s, d.members.find? "handler" = some (.text s) ∧ isHandler s = true
    else d.members.find? "handler" = none := by
  have hf : (fields w taken)[2]? = some (fieldUnder [.code] "handler" .text (handlerQuestion w)) :=
    rfl
  rcases h.under hk (by decide) hf with ⟨hno, hnew⟩ | ⟨hyes, d₀, v, ⟨s, rfl, hs⟩, hread⟩
  · rw [if_neg (by simpa using hno)]
    exact h.find?_eq_none [2] (by decide) (by decide) (by simpa using hnew)
  · rw [if_pos (by simpa using hyes)]
    exact ⟨s, hread, hs⟩

theorem template (h : Finished w taken o hs d) (hk : targetIn d = some k) :
    if k = .code then d.members.find? "template" = none
    else ∃ (inner : Members) (path logicalId : String),
      d.members.find? "template" = some (.object inner) ∧
      inner.find? "path" = some (.text path) ∧ Text.isBlankText path = false ∧
      inner.find? "logicalId" = some (.text logicalId) ∧ isLogicalId logicalId = true := by
  have hpath : (fields w taken)[3]? =
      some (fieldUnder [.template, .api] "template.path" .text (templatePathQuestion w)) := rfl
  have hid : (fields w taken)[4]? =
      some (fieldUnder [.template, .api] "template.logicalId" .text (logicalIdQuestion w)) := rfl
  have hbuilt : k = .code ↔ k ∉ [TargetKind.template, TargetKind.api] := by
    cases k <;> decide
  rcases h.under hk (by decide) hpath with ⟨hno, hnew⟩ | ⟨hyes, -, v, ⟨path, rfl, hblank⟩, hread⟩
  · -- neither part was asked for, so nothing made the object
    rcases h.under hk (by decide) hid with ⟨-, hnew'⟩ | ⟨hyes, -⟩
    · rw [if_pos (hbuilt.mpr hno)]
      exact h.find?_eq_none [3, 4] (by decide) (by decide) (by simpa using ⟨hnew, hnew'⟩)
    · exact absurd hyes hno
  · rcases h.under hk (by decide) hid with
      ⟨hno, -⟩ | ⟨-, -, v', ⟨logicalId, rfl, hlogical⟩, hread'⟩
    · exact absurd hyes hno
    · rw [if_neg fun hcode => hbuilt.mp hcode hyes]
      obtain ⟨inner, hobject, hpath', hid'⟩ := Members.exists_object hread hread'
      exact ⟨inner, path, logicalId, hobject, hpath', hblank, hid', hlogical⟩

theorem api (h : Finished w taken o hs d) (hk : targetIn d = some k) :
    if k = .api then ∃ (inner : Members) (path : String) (m : HttpMethod),
      d.members.find? "api" = some (.object inner) ∧ inner.find? "path" = some (.text path) ∧
      isRoutePath path = true ∧ inner.find? "method" = some (.text m.name)
    else d.members.find? "api" = none := by
  have hpath : (fields w taken)[5]? =
      some (fieldUnder [.api] "api.path" .text (routePathQuestion w)) := rfl
  have hmethod : (fields w taken)[6]? =
      some (fieldUnder [.api] "api.method" HttpMethod.shape (methodQuestion w)) := rfl
  rcases h.under hk (by decide) hpath with ⟨hno, hnew⟩ | ⟨hyes, -, v, ⟨path, rfl, hroute⟩, hread⟩
  · rcases h.under hk (by decide) hmethod with ⟨-, hnew'⟩ | ⟨hyes, -⟩
    · rw [if_neg (by simpa using hno)]
      exact h.find?_eq_none [5, 6] (by decide) (by decide) (by simpa using ⟨hnew, hnew'⟩)
    · exact absurd hyes hno
  · rcases h.under hk (by decide) hmethod with ⟨hno, -⟩ | ⟨-, -, v', ⟨m, rfl⟩, hread'⟩
    · exact absurd hyes hno
    · rw [if_pos (by simpa using hyes)]
      obtain ⟨inner, hobject, hpath', hmethod'⟩ := Members.exists_object hread hread'
      exact ⟨inner, path, m, hobject, hpath', hroute, hmethod'⟩

/-- The runtime was chosen among those of the target that stays. -/
theorem runtime (h : Finished w taken o hs d) (hk : targetIn d = some k) :
    ∃ s ∈ k.runtimes, d.members.find? "runtime" = some (.text s) := by
  have hf : (fields w taken)[7]? = some (runtimeField w) := rfl
  obtain ⟨d₀, hsame, hat⟩ := h.at_place hf
  have htarget : targetIn d₀ = some k := (hsame (by decide)).trans hk
  rcases hat with ⟨-, hdeclines⟩ | ⟨-, v, ⟨k', s, hk', hs, rfl⟩, -, hread⟩
  · have hasks : (runtimeField w).declines o d₀ none = false := by
      simp [Field.declines, runtimeField, Field.asking, htarget, Offer.isDecline]
    rw [hasks] at hdeclines
    exact absurd hdeclines (by decide)
  · rw [htarget, Option.some.injEq] at hk'
    subst hk'
    exact ⟨s, hs, hread⟩

/-- **The draft of a finished pass is filled** for its target. -/
theorem filled (h : Finished w taken o hs d) : ∃ k, Filled taken k d.members := by
  obtain ⟨k, hk, htarget⟩ := h.target
  exact ⟨k, {
    name := h.name
    target := htarget
    handler := h.handler hk
    template := h.template hk
    api := h.api hk
    runtime := h.runtime hk }⟩

end Finished

/-! ## What is required -/

theorem required_form (w : Wording) (taken : List String) :
    (form w taken).required = [.ofText "name", targetPath, .ofText "runtime"] :=
  rfl

/-- The interview begins: everything that is required is the path of a field. -/
theorem exists_start (w : Wording) (taken : List String) :
    ∃ first, Run.start (form w taken) .empty .empty = .ok first := by
  have hbound : ∀ p ∈ [Path.ofText "name", targetPath, .ofText "runtime"],
      (paths.any fun q => p.startsWith q) = true := by decide
  have hfind : (form w taken).required.find?
      (fun p => !Draft.empty.contains p && !(form w taken).isBound p) = none := by
    refine List.find?_eq_none.mpr fun p hp => ?_
    rw [required_form] at hp
    have hp' : (form w taken).isBound p = true := by
      rw [Form.isBound, fields_form, ← hbound p hp, ← map_path_fields w taken, List.any_map]
      rfl
    rw [hp', Bool.not_true, Bool.and_false]
    decide
  exact ⟨_, by rw [Run.start, hfind]⟩

/-- A text that is a member of a draft is a value at its path. -/
theorem contains_of_find? {p : Path} {s : String} (h : d.members.at? p.segments = some (.text s)) :
    d.contains p = true := by
  rw [Draft.contains, Draft.get?, h]
  rfl

/-- A finished pass has all that is required. -/
theorem Finished.contains (h : Finished w taken o hs d) :
    ∀ p ∈ (form w taken).required, d.contains p = true := by
  obtain ⟨s, hname, -⟩ := h.name
  obtain ⟨k, hk, htarget⟩ := h.target
  obtain ⟨t, -, hruntime⟩ := h.runtime hk
  intro p hp
  rw [required_form] at hp
  simp only [List.mem_cons, List.not_mem_nil, or_false] at hp
  rcases hp with rfl | rfl | rfl
  · exact contains_of_find? hname
  · exact contains_of_find? htarget
  · exact contains_of_find? hruntime

/-! ## The sitting -/

/-- How the interview for a configuration ends, within a number of turns. -/
def outcome (w : Wording) (taken : List String) (o : Options) (n : Nat) (session : Session) :
    Outcome (Option LaunchConfig) :=
  ((sitting w taken .empty o).conduct n ofJson? session).1

/-- Within a number of turns the interview ends without a failure, or they run out and are then too
few. -/
theorem outcome_cases (w : Wording) (taken : List String) (o : Options)
    {scripts : List (List Event)} {session : Session} (hhost : session.host = .rehearsal scripts)
    (n : Nat) :
    (outcome w taken o (n + 1) session = .exhausted ∧ n < Run.turns scripts) ∨
      outcome w taken o (n + 1) session = .done none ∨
      ∃ c, outcome w taken o (n + 1) session = .done (some c) ∧ c.Coherent taken := by
  obtain ⟨first, hstart⟩ := exists_start w taken
  have hends := (answers_form w taken o).endsWell hstart Draft.neat_empty
    ((separate_form w taken).ready_of_empty hstart) (fun _ _ => Finished.contains) hhost n
  have houtcome : outcome w taken o (n + 1) session =
      (conductForm (n + 1) (form w taken) o .empty .empty session).1.bind
        (Sitting.respond ofJson?) := Sitting.conduct_new _ _ _ _ _ _
  rcases hends with ⟨hexhausted, hlt⟩ | hback | hcancelled | ⟨d, hs, hcompleted, hfinished⟩
  · exact Or.inl ⟨by rw [houtcome, hexhausted]; rfl, hlt⟩
  · exact Or.inr (Or.inl (by rw [houtcome, hback]; rfl))
  · exact Or.inr (Or.inl (by rw [houtcome, hcancelled]; rfl))
  · obtain ⟨k, hfilled⟩ := Finished.filled hfinished
    obtain ⟨c, hread, hcoherent⟩ := hfilled.exists_ofJson?
    have hrespond : Sitting.respond ofJson? (.completed d) = .done (some c) := by
      have hread' : ofJson? d.toJson = some c := hread
      rw [Sitting.respond, hread']
    exact Or.inr (Or.inr ⟨c, by rw [houtcome, hcompleted]; exact hrespond, hcoherent⟩)

/-- **The interview for a configuration never fails, and what it brings is coherent**, whatever the
controls hand out and whichever names are taken: given enough turns, it ends with nothing or with
a coherent configuration, and within fewer turns nothing else can happen than that they run out. -/
theorem coherent_of_conduct (w : Wording) (taken : List String) (o : Options)
    (scripts : List (List Event)) (session : Session) :
    (∀ n, outcome w taken o n { session with host := .rehearsal scripts } = .exhausted ∨
      ∃ response, outcome w taken o n { session with host := .rehearsal scripts } = .done response ∧
        ∀ c, response = some c → c.Coherent taken) ∧
    ∃ enough, ∀ n, enough ≤ n →
      outcome w taken o n { session with host := .rehearsal scripts } ≠ .exhausted := by
  have hhost : Session.host { session with host := .rehearsal scripts } = .rehearsal scripts := rfl
  have hcases := outcome_cases w taken o hhost
  constructor
  · intro n
    rcases n with _ | n
    · exact Or.inl rfl
    · rcases hcases n with ⟨hexhausted, -⟩ | hnone | ⟨c, hsome, hcoherent⟩
      · exact Or.inl hexhausted
      · exact Or.inr ⟨none, hnone, fun c hc => absurd hc (by simp)⟩
      · refine Or.inr ⟨some c, hsome, fun c' hc' => ?_⟩
        exact Option.some.inj hc' ▸ hcoherent
  · refine ⟨Run.turns scripts + 1, fun n hn hexhausted => ?_⟩
    obtain ⟨n, rfl⟩ : ∃ m, n = m + 1 := ⟨n - 1, by omega⟩
    rcases hcases n with ⟨-, hlt⟩ | hnone | ⟨c, hsome, -⟩
    · omega
    · rw [hnone] at hexhausted
      exact absurd hexhausted (by simp)
    · rw [hsome] at hexhausted
      exact absurd hexhausted (by simp)

/-- A user who goes back from the runtime to the target, and turns a handler into a route. -/
def detour : List (List Event) :=
  [[.changed "orders", .accept], [.selected [0], .accept], [.changed "app.main", .accept],
    [.button 0], [.button 0], [.selected [2], .accept], [.changed "template.yaml", .accept],
    [.changed "Orders", .accept], [.accept], [.selected [1], .accept], [.selected [0], .accept],
    [.accept]]

/-- Whether an interview ended with a configuration of some kind. -/
def brings (p : LaunchConfig → Bool) : Outcome (Option LaunchConfig) → Bool
  | .done (some c) => p c
  | _ => false

/-- The detour ends with the route, and nothing is left of the handler. -/
theorem coherent_of_detour :
    ∃ c, outcome .english ["x"] .default 40 (Session.new (.rehearsal detour)) = .done (some c) ∧
      c.Coherent ["x"] ∧ c.target = .api ∧ c.handler = none ∧ c.api = some ⟨"/", .post⟩ := by
  have hreached : brings
      (fun c => decide (c.target = .api ∧ c.handler = none ∧ c.api = some ⟨"/", .post⟩))
      (outcome .english ["x"] .default 40 (Session.new (.rehearsal detour))) = true := by
    decide +kernel
  have hcases :=
    (coherent_of_conduct .english ["x"] .default detour (Session.new (.rehearsal []))).1 40
  generalize hend : outcome .english ["x"] .default 40 (Session.new (.rehearsal detour)) = ending
    at hreached
  have hsession : { Session.new (.rehearsal []) with host := .rehearsal detour } =
      Session.new (.rehearsal detour) := rfl
  rw [hsession, hend] at hcases
  rcases hcases with rfl | ⟨_ | c, rfl, hcoherent⟩
  · exact absurd hreached (by simp [brings])
  · exact absurd hreached (by simp [brings])
  · exact ⟨c, rfl, hcoherent c rfl, of_decide_eq_true hreached⟩

end LaunchConfig

end Interview
