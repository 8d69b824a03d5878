import Interview.Flows.LaunchForm
import Interview.Proofs.Answers.Records
/-
Reading a launch configuration from a filled draft.

A configuration can be read as soon as the members that must be there are there, since a record is
read part by part (`Shape.exists_decode_record`), and its parts are then those members.

A configuration is coherent when its optional parts are there for the targets that need them,
and for no others (`LaunchConfig.Coherent`). The type does not say so. A draft in which the
members are there in this way (`LaunchConfig.Filled`) is read as a coherent configuration.
-/

set_option autoImplicit false

namespace Interview

/-! ## The parts of a configuration -/

theorem TargetKind.ofJson?_text_name (k : TargetKind) : ofJson? (.text k.name) = some k := by
  cases k <;> rfl

theorem TargetKind.decode?_text_name (k : TargetKind) :
    shape.decode? (.text k.name) = some (.text k.name) := by
  cases k <;> rfl

theorem HttpMethod.ofJson?_text_name (m : HttpMethod) : ofJson? (.text m.name) = some m := by
  cases m <;> rfl

theorem HttpMethod.decode?_text_name (m : HttpMethod) :
    shape.decode? (.text m.name) = some (.text m.name) := by
  cases m <;> rfl

/-- A template resource is read from an object with its two parts, and reading it as its shape says
keeps these. -/
theorem TemplateTarget.exists_decode {ms : Members} {path logicalId : String}
    (hpath : ms.find? "path" = some (.text path))
    (hid : ms.find? "logicalId" = some (.text logicalId)) :
    ∃ ms' : Members, shape.decode? (.object ms) = some (.object ms') ∧
      ms'.find? "path" = some (.text path) ∧ ms'.find? "logicalId" = some (.text logicalId) := by
  have hpath' : Shape.part? .text "path" ms = some (.text path) := Shape.part?_of_find? hpath
  have hid' : Shape.part? .text "logicalId" ms = some (.text logicalId) := Shape.part?_of_find? hid
  have hall : ∀ p ∈ [("path", Shape.text), ("logicalId", .text)],
      (p.2.part? p.1 ms).isSome = true := by simp [hpath', hid']
  obtain ⟨ms', hdecode, hparts⟩ := Shape.exists_decode_record (by decide) hall
  exact ⟨ms', hdecode, (hparts ("path", .text) (by simp)).trans hpath',
    (hparts ("logicalId", .text) (by simp)).trans hid'⟩

theorem TemplateTarget.ofJson?_object {ms : Members} {path logicalId : String}
    (hpath : ms.find? "path" = some (.text path))
    (hid : ms.find? "logicalId" = some (.text logicalId)) :
    ofJson? (.object ms) = some ⟨path, logicalId⟩ := by
  obtain ⟨ms', hdecode, hpath', hid'⟩ := exists_decode hpath hid
  simp [ofJson?, hdecode, Json.member?, hpath', hid', Json.text?]

/-- A route is read from an object with its two parts in the same way. -/
theorem ApiTarget.exists_decode {ms : Members} {path : String} {m : HttpMethod}
    (hpath : ms.find? "path" = some (.text path)) (hm : ms.find? "method" = some (.text m.name)) :
    ∃ ms' : Members, shape.decode? (.object ms) = some (.object ms') ∧
      ms'.find? "path" = some (.text path) ∧ ms'.find? "method" = some (.text m.name) := by
  have hpath' : Shape.part? .text "path" ms = some (.text path) := Shape.part?_of_find? hpath
  have hm' : HttpMethod.shape.part? "method" ms = some (.text m.name) :=
    (Shape.part?_of_find? hm).trans m.decode?_text_name
  have hall : ∀ p ∈ [("path", Shape.text), ("method", HttpMethod.shape)],
      (p.2.part? p.1 ms).isSome = true := by simp [hpath', hm']
  obtain ⟨ms', hdecode, hparts⟩ := Shape.exists_decode_record (by decide) hall
  exact ⟨ms', hdecode, (hparts ("path", .text) (by simp)).trans hpath',
    (hparts ("method", HttpMethod.shape) (by simp)).trans hm'⟩

theorem ApiTarget.ofJson?_object {ms : Members} {path : String} {m : HttpMethod}
    (hpath : ms.find? "path" = some (.text path)) (hm : ms.find? "method" = some (.text m.name)) :
    ofJson? (.object ms) = some ⟨path, m⟩ := by
  obtain ⟨ms', hdecode, hpath', hm'⟩ := exists_decode hpath hm
  simp [ofJson?, hdecode, Json.member?, hpath', hm', Json.text?, HttpMethod.ofJson?_text_name]

namespace LaunchConfig

/-! ## Coherent configurations -/

/-- **A configuration whose parts go with its target**, and whose name is new. -/
structure Coherent (taken : List String) (c : LaunchConfig) : Prop where
  name : Text.isBlankText c.name = false ∧ c.name ∉ taken
  handler_iff : c.handler.isSome = true ↔ c.target = .code
  handler : ∀ s, c.handler = some s → '.' ∈ s.toList ∨ [':', ':'] <:+: s.toList
  template_iff : c.template.isSome = true ↔ c.target = .template ∨ c.target = .api
  template : ∀ t, c.template = some t → Text.isBlankText t.path = false ∧
    t.logicalId ≠ "" ∧ ∀ ch ∈ t.logicalId.toList, ch.isAlphanum = true
  api_iff : c.api.isSome = true ↔ c.target = .api
  api : ∀ a, c.api = some a → ∃ cs, a.path.toList = '/' :: cs
  runtime : c.runtime ∈ c.target.runtimes

/-- The members of a draft that is filled for a target. -/
structure Filled (taken : List String) (k : TargetKind) (ms : Members) : Prop where
  name : ∃ s, ms.find? "name" = some (.text s) ∧ Text.isBlankText s = false ∧ s ∉ taken
  target : ms.find? "target" = some (.text k.name)
  handler : if k = .code then ∃ s, ms.find? "handler" = some (.text s) ∧ isHandler s = true
    else ms.find? "handler" = none
  template : if k = .code then ms.find? "template" = none
    else ∃ (inner : Members) (path logicalId : String), ms.find? "template" = some (.object inner) ∧
      inner.find? "path" = some (.text path) ∧ Text.isBlankText path = false ∧
      inner.find? "logicalId" = some (.text logicalId) ∧ isLogicalId logicalId = true
  api : if k = .api then ∃ (inner : Members) (path : String) (m : HttpMethod),
      ms.find? "api" = some (.object inner) ∧ inner.find? "path" = some (.text path) ∧
      isRoutePath path = true ∧ inner.find? "method" = some (.text m.name)
    else ms.find? "api" = none
  runtime : ∃ s ∈ k.runtimes, ms.find? "runtime" = some (.text s)

variable {taken : List String} {k : TargetKind} {ms : Members}

/-- A text is a handler if it has one of the two marks. -/
theorem mem_or_infix_of_isHandler {s : String} (h : isHandler s = true) :
    '.' ∈ s.toList ∨ [':', ':'] <:+: s.toList := by
  rw [isHandler, Bool.or_eq_true] at h
  rcases h with h | h
  · exact Or.inl (by simpa using h)
  · exact Or.inr (Text.occurs_iff.mp h)

theorem Filled.handler_part (h : Filled taken k ms) :
    ∃ v, (Shape.defaulted .text).part? "handler" ms = some v ∧
      (v.text?.isSome = true ↔ k = .code) ∧
      ∀ s, v.text? = some s → '.' ∈ s.toList ∨ [':', ':'] <:+: s.toList := by
  have hhandler := h.handler
  split at hhandler
  · rename_i hk
    obtain ⟨s, hfind, hs⟩ := hhandler
    refine ⟨.text s, Shape.part?_of_find? hfind, ⟨fun _ => hk, fun _ => rfl⟩, fun s' hs' => ?_⟩
    rw [Json.text?, Option.some.injEq] at hs'
    exact hs' ▸ mem_or_infix_of_isHandler hs
  · rename_i hk
    refine ⟨.null, Shape.part?_of_find?_eq_none hhandler, ⟨fun hsome => ?_, fun hcode => ?_⟩,
      fun _ hs => absurd hs (by simp [Json.text?])⟩
    · exact absurd hsome (by simp [Json.text?])
    · exact absurd hcode hk

theorem Filled.template_part (h : Filled taken k ms) :
    ∃ v, (Shape.defaulted TemplateTarget.shape).part? "template" ms = some v ∧
      ((TemplateTarget.ofJson? v).isSome = true ↔ k = .template ∨ k = .api) ∧
      ∀ t, TemplateTarget.ofJson? v = some t → Text.isBlankText t.path = false ∧
        t.logicalId ≠ "" ∧ ∀ ch ∈ t.logicalId.toList, ch.isAlphanum = true := by
  have htemplate := h.template
  split at htemplate
  · rename_i hk
    refine ⟨.null, Shape.part?_of_find?_eq_none htemplate, ⟨fun hsome => ?_, fun hbuilt => ?_⟩,
      fun _ ht => absurd ht (by simp [TemplateTarget.ofJson?, TemplateTarget.shape, Shape.decode?])⟩
    · exact absurd hsome (by simp [TemplateTarget.ofJson?, TemplateTarget.shape, Shape.decode?])
    · rw [hk] at hbuilt
      exact absurd hbuilt (by simp)
  · rename_i hk
    obtain ⟨inner, path, logicalId, hfind, hpath, hblank, hid, hlogical⟩ := htemplate
    obtain ⟨ms', hdecode, hpath', hid'⟩ := TemplateTarget.exists_decode hpath hid
    have hread := TemplateTarget.ofJson?_object hpath' hid'
    refine ⟨.object ms', (Shape.part?_of_find? hfind).trans hdecode, ?_, fun t ht => ?_⟩
    · rw [hread]
      refine ⟨fun _ => ?_, fun _ => rfl⟩
      cases k with
      | code => exact absurd rfl hk
      | template => exact Or.inl rfl
      | api => exact Or.inr rfl
    · rw [hread, Option.some.injEq] at ht
      rw [← ht]
      simp only [isLogicalId, Bool.and_eq_true, Bool.not_eq_true', List.all_eq_true] at hlogical
      refine ⟨hblank, fun hempty : logicalId = "" => ?_, hlogical.2⟩
      rw [hempty] at hlogical
      exact absurd hlogical.1 (by decide)

theorem Filled.api_part (h : Filled taken k ms) :
    ∃ v, (Shape.defaulted ApiTarget.shape).part? "api" ms = some v ∧
      ((ApiTarget.ofJson? v).isSome = true ↔ k = .api) ∧
      ∀ a, ApiTarget.ofJson? v = some a → ∃ cs, a.path.toList = '/' :: cs := by
  have hapi := h.api
  split at hapi
  · rename_i hk
    obtain ⟨inner, path, m, hfind, hpath, hroute, hm⟩ := hapi
    obtain ⟨ms', hdecode, hpath', hm'⟩ := ApiTarget.exists_decode hpath hm
    have hread := ApiTarget.ofJson?_object hpath' hm'
    refine ⟨.object ms', (Shape.part?_of_find? hfind).trans hdecode, ?_, fun a ha => ?_⟩
    · rw [hread]
      exact ⟨fun _ => hk, fun _ => rfl⟩
    · rw [hread, Option.some.injEq] at ha
      rw [← ha]
      simp only [isRoutePath, decide_eq_true_eq, List.head?_eq_some_iff] at hroute
      exact hroute
  · rename_i hk
    refine ⟨.null, Shape.part?_of_find?_eq_none hapi, ⟨fun hsome => ?_, fun h => absurd h hk⟩,
      fun _ ha => absurd ha (by simp [ApiTarget.ofJson?, ApiTarget.shape, Shape.decode?])⟩
    exact absurd hsome (by simp [ApiTarget.ofJson?, ApiTarget.shape, Shape.decode?])

/-- The event is read whatever it is. -/
theorem isSome_part?_event (ms : Members) :
    ((Shape.defaulted .anything).part? "event" ms).isSome = true := by
  rw [Shape.part?]
  split
  · rename_i v _
    cases v <;> rfl
  · rfl

/-- **A filled draft is read as a coherent configuration.** -/
theorem Filled.exists_ofJson? (h : Filled taken k ms) :
    ∃ c, ofJson? (.object ms) = some c ∧ c.Coherent taken := by
  obtain ⟨name, hname, hblank, hnew⟩ := h.name
  obtain ⟨runtime, hruntimes, hruntime⟩ := h.runtime
  obtain ⟨vh, hvh, hhandler_iff, hhandler⟩ := h.handler_part
  obtain ⟨vt, hvt, htemplate_iff, htemplate⟩ := h.template_part
  obtain ⟨va, hva, hapi_iff, hapi⟩ := h.api_part
  have hvn : Shape.part? .text "name" ms = some (.text name) := Shape.part?_of_find? hname
  have hvr : Shape.part? .text "runtime" ms = some (.text runtime) := Shape.part?_of_find? hruntime
  have hvk : TargetKind.shape.part? "target" ms = some (.text k.name) :=
    (Shape.part?_of_find? h.target).trans k.decode?_text_name
  have hall : ∀ p ∈ [("name", Shape.text), ("target", TargetKind.shape),
      ("handler", .defaulted .text), ("template", .defaulted TemplateTarget.shape),
      ("api", .defaulted ApiTarget.shape), ("runtime", .text), ("event", .defaulted .anything)],
      (p.2.part? p.1 ms).isSome = true := by
    simp [hvn, hvk, hvh, hvt, hva, hvr, isSome_part?_event]
  obtain ⟨ms', hdecode, hparts⟩ := Shape.exists_decode_record (by decide) hall
  simp only [List.forall_mem_cons, hvn, hvk, hvh, hvt, hva, hvr] at hparts
  obtain ⟨hn, hk, hh, ht, ha, hr, -⟩ := hparts
  refine ⟨⟨name, k, vh.text?, TemplateTarget.ofJson? vt, ApiTarget.ofJson? va, runtime,
    ((ms'.find? "event").filter fun v => !v.isNull)⟩, ?_, ?_⟩
  · simp [ofJson?, shape, hdecode, Json.member?, hn, hk, hh, ht, ha, hr, Json.text?,
      TargetKind.ofJson?_text_name]
  · exact {
      name := ⟨hblank, hnew⟩
      handler_iff := hhandler_iff
      handler := hhandler
      template_iff := htemplate_iff
      template := htemplate
      api_iff := hapi_iff
      api := hapi
      runtime := hruntimes }

end LaunchConfig

end Interview
