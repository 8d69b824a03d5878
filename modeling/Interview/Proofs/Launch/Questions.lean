import Interview.Proofs.Answers.Forms
import Interview.Flows.LaunchForm
/-
The questions of the interview for a launch configuration, and their answers.

Every question is a screen that answers: a line of text with a validator, or a list of items
that is there from the start. So its answers are the texts that the validator lets through, or
the data of its items (`LaunchConfig.Fits`), and the form is one of fields that answer
(`LaunchConfig.answers_form`). Only the name has a check, which refuses the names that are taken.
-/

set_option autoImplicit false

namespace Interview

namespace LaunchConfig

variable {w : Wording} {taken : List String} {o : Options}

/-! ## The fields -/

/-- The fields of the form, in order. -/
def fields (w : Wording) (taken : List String) : List Field :=
  [{ Field.asking (.ofText "name") (.shaped .text) (nameQuestion w) with
      check := some (nameCheck taken) },
    .asking targetPath (.shaped TargetKind.shape) (targetQuestion w),
    fieldUnder [.code] "handler" .text (handlerQuestion w),
    fieldUnder [.template, .api] "template.path" .text (templatePathQuestion w),
    fieldUnder [.template, .api] "template.logicalId" .text (logicalIdQuestion w),
    fieldUnder [.api] "api.path" .text (routePathQuestion w),
    fieldUnder [.api] "api.method" HttpMethod.shape (methodQuestion w),
    runtimeField w,
    .asking (.ofText "event") (.shaped (.optional .anything)) (eventQuestion w)]

/-- The paths of the fields, in order. -/
def paths : List Path :=
  [.ofText "name", targetPath, .ofText "handler", .ofText "template.path",
    .ofText "template.logicalId", .ofText "api.path", .ofText "api.method", .ofText "runtime",
    .ofText "event"]

theorem map_path_fields (w : Wording) (taken : List String) :
    (fields w taken).map Field.path = paths :=
  rfl

theorem fields_form (w : Wording) (taken : List String) :
    (form w taken).fields = fields w taken := by
  have hbind : (form w taken).fields = ((fields w taken).foldl Form.bind Form.empty).fields := by
    simp only [form, fields, Form.require, List.foldl_cons, List.foldl_nil]
  have hnew : paths.Pairwise (· ≠ ·) := by decide
  rw [← map_path_fields w taken, List.pairwise_map] at hnew
  exact hbind.trans (Form.fields_foldl_bind hnew)

theorem separate_form (w : Wording) (taken : List String) : (form w taken).Separate := by
  have hpaths : (form w taken).fields.map Field.path = paths := by
    rw [fields_form, map_path_fields]
  constructor
  · intro f hf
    have hroot : ∀ p ∈ paths, p.isRoot = false := by decide
    exact hroot f.path (hpaths ▸ List.mem_map_of_mem hf)
  · have hpairs : paths.Pairwise fun p q => p.overlaps q = false := by decide
    rw [← hpaths, List.pairwise_map] at hpairs
    exact hpairs

theorem skipsByDraft_form (w : Wording) (taken : List String) (o : Options) :
    (form w taken).SkipsByDraft o := by
  intro f hf
  rw [fields_form] at hf
  simp only [fields, List.mem_cons, List.not_mem_nil, or_false] at hf
  rcases hf with rfl | rfl | rfl | rfl | rfl | rfl | rfl | rfl | rfl <;> exact fun _ _ _ => rfl

/-! ## The answers -/

/-- What the field at a place is answered with, for a draft. -/
def Fits (i : Nat) (d : Draft) (v : Json) : Prop :=
  match i with
  | 0 | 3 => ∃ s, v = .text s ∧ Text.isBlankText s = false
  | 1 => ∃ k : TargetKind, v = .text k.name
  | 2 => ∃ s, v = .text s ∧ isHandler s = true
  | 4 => ∃ s, v = .text s ∧ isLogicalId s = true
  | 5 => ∃ s, v = .text s ∧ isRoutePath s = true
  | 6 => ∃ m : HttpMethod, v = .text m.name
  | 7 => ∃ k s, targetIn d = some k ∧ s ∈ k.runtimes ∧ v = .text s
  | _ => True

/-- A line of text with a validator answers with the texts that it lets through. -/
theorem answers_line {R : Json → Prop} {holds : String → Bool} {message : String}
    (h : ∀ s, holds s = true → R (.text s)) (s : Screen) (value : String)
    (hcontent : s.content = .text { TextEntry.new with
      value, validator := some (refuseUnless holds message) })
    (hcontrol : s.control = none) (hdisposed : s.disposed = false)
    (hback : ∀ b ∈ s.buttons, b.click = .ok (some .back)) : s.Answers R := by
  refine Screen.answers_of_text value hcontent (fun s hs => h s ?_) hcontrol hdisposed hback
  rcases hholds : holds s with _ | _
  · rw [hholds] at hs
    exact absurd hs (by simp)
  · rfl

/-- A list answers with the data of its items. -/
theorem answers_list {R : Json → Prop} (w : Wording) (title : String) {items : List Item}
    (h : ∀ i ∈ items, R i.data) : (listOf w title items).Answers R :=
  Screen.answers_of_list rfl (PickList.calm_fixed _) h rfl rfl fun _ =>
    Screen.click_of_mem_back

theorem answers_nameQuestion (w : Wording) (d : Draft) : (nameQuestion w).Answers (Fits 0 d) := by
  have hbuttons : ∀ b ∈ ([] : List Button), b.click = .ok (some .back) :=
    fun b hb => absurd hb List.not_mem_nil
  refine answers_line (fun s hs => ⟨s, rfl, ?_⟩) _ "" rfl rfl rfl hbuttons
  simpa using hs

theorem answers_targetQuestion (w : Wording) (d : Draft) :
    (targetQuestion w).Answers (Fits 1 d) := by
  refine answers_list w "Target" fun i hi => ?_
  simp only [List.mem_cons, List.not_mem_nil, or_false] at hi
  rcases hi with rfl | rfl | rfl
  · exact ⟨.code, rfl⟩
  · exact ⟨.template, rfl⟩
  · exact ⟨.api, rfl⟩

theorem answers_handlerQuestion (w : Wording) (d : Draft) :
    (handlerQuestion w).Answers (Fits 2 d) :=
  answers_line (fun s hs => ⟨s, rfl, hs⟩) _ "" rfl rfl rfl fun _ => Screen.click_of_mem_back

theorem answers_templatePathQuestion (w : Wording) (d : Draft) :
    (templatePathQuestion w).Answers (Fits 3 d) := by
  refine answers_line (fun s hs => ⟨s, rfl, ?_⟩) _ "" rfl rfl rfl fun _ => Screen.click_of_mem_back
  simpa using hs

theorem answers_logicalIdQuestion (w : Wording) (d : Draft) :
    (logicalIdQuestion w).Answers (Fits 4 d) :=
  answers_line (fun s hs => ⟨s, rfl, hs⟩) _ "" rfl rfl rfl fun _ => Screen.click_of_mem_back

theorem answers_routePathQuestion (w : Wording) (d : Draft) :
    (routePathQuestion w).Answers (Fits 5 d) :=
  answers_line (fun s hs => ⟨s, rfl, hs⟩) _ "/" rfl rfl rfl fun _ => Screen.click_of_mem_back

theorem answers_methodQuestion (w : Wording) (d : Draft) :
    (methodQuestion w).Answers (Fits 6 d) := by
  refine answers_list w "HTTP method" fun i hi => ?_
  obtain ⟨m, -, rfl⟩ := List.mem_map.mp hi
  exact ⟨m, rfl⟩

theorem answers_runtimeQuestion (w : Wording) {d : Draft} {k : TargetKind}
    (h : targetIn d = some k) : (runtimeQuestion w k).Answers (Fits 7 d) := by
  refine answers_list w "Runtime" fun i hi => ?_
  obtain ⟨s, hs, rfl⟩ := List.mem_map.mp hi
  exact ⟨k, s, h, hs, rfl⟩

theorem answers_eventQuestion (w : Wording) (d : Draft) :
    (eventQuestion w).Answers (Fits 8 d) :=
  ⟨⟨_, TextEntry.calm_new "", fun _ _ => trivial⟩, rfl, rfl, rfl, fun _ => Screen.click_of_mem_back⟩

/-! ## The form -/

/-- The field of the name. -/
def nameField (w : Wording) (taken : List String) : Field :=
  { Field.asking (.ofText "name") (.shaped .text) (nameQuestion w) with
    check := some (nameCheck taken) }

/-- The check of the name refuses the names that are taken, and never fails. -/
theorem weigh_nameField (w : Wording) (taken : List String) (s : String) (d : Draft)
    (session : Session) :
    (weigh (nameField w taken) (.text s) d session).1 =
      if s ∈ taken then .rejected ("A configuration named \"" ++ s ++ "\" already exists")
      else .accepted := by
  have hdecode : (nameField w taken).type.decode? (.text s) = some (.text s) := rfl
  unfold weigh
  simp only [nameField, nameCheck, Judgement.now, Delay.none, Delay.isNever,
    Json.text?] at hdecode ⊢
  rw [hdecode]
  simp only
  by_cases hs : s ∈ taken
  · simp [hs]
  · simp [hs]

theorem answers_form (w : Wording) (taken : List String) (o : Options) :
    (form w taken).Answers o Fits where
  separate := separate_form w taken
  skips := skipsByDraft_form w taken o
  fields := by
    intro i f hf
    rw [fields_form] at hf
    match i with
    | 0 =>
        -- the only field with a check, which refuses an answer but does not fail
        obtain rfl : nameField w taken = f := Option.some.inj hf
        refine Field.answers_of_offer rfl (fun _ => rfl) (answers_nameQuestion w) ?_
        rintro v d session ⟨s, rfl, -⟩
        rw [weigh_nameField]
        split
        · exact Or.inr ⟨_, rfl⟩
        · exact Or.inl rfl
    | 1 =>
        obtain rfl := Option.some.inj hf
        exact Field.answers_of_check_eq_none rfl (fun _ => rfl) rfl (answers_targetQuestion w)
    | 2 =>
        obtain rfl := Option.some.inj hf
        exact Field.answers_of_check_eq_none rfl (fun _ => rfl) rfl (answers_handlerQuestion w)
    | 3 =>
        obtain rfl := Option.some.inj hf
        exact Field.answers_of_check_eq_none rfl (fun _ => rfl) rfl (answers_templatePathQuestion w)
    | 4 =>
        obtain rfl := Option.some.inj hf
        exact Field.answers_of_check_eq_none rfl (fun _ => rfl) rfl (answers_logicalIdQuestion w)
    | 5 =>
        obtain rfl := Option.some.inj hf
        exact Field.answers_of_check_eq_none rfl (fun _ => rfl) rfl (answers_routePathQuestion w)
    | 6 =>
        obtain rfl := Option.some.inj hf
        exact Field.answers_of_check_eq_none rfl (fun _ => rfl) rfl (answers_methodQuestion w)
    | 7 =>
        -- the only field whose question depends on the draft
        obtain rfl : runtimeField w = f := Option.some.inj hf
        refine ⟨fun c => ?_, fun _ => rfl, fun v d session _ =>
          Or.inl (weigh_of_check_eq_none rfl v d session)⟩
        rcases htarget : targetIn c.draft with _ | k
        · exact Or.inl (by simp only [runtimeField, htarget])
        · exact Or.inr ⟨fun session => (runtimeQuestion w k, session),
            by simp only [runtimeField, htarget],
            fun session => ⟨answers_runtimeQuestion w htarget, rfl⟩⟩
    | 8 =>
        obtain rfl := Option.some.inj hf
        exact Field.answers_of_check_eq_none rfl (fun _ => rfl) rfl (answers_eventQuestion w)
    | _ + 9 => exact absurd hf (by simp [fields])

end LaunchConfig

end Interview
