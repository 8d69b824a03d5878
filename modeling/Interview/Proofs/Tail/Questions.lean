import Interview.Flows.TailForm
import Interview.Proofs.Answers.Forms
/-
The questions of the interview for a live-tail request, and their answers.

The catalogue of log groups is listed region by region, and a region that is listed again replaces
the log groups it had. So every region that is shown is known to the lookup, and opening one does
not fail (`LogGroups.Complete`). The log groups of a region are ready when they are shown, which
makes both tiers screens that answer: the first with the id of a region, and the second with one of
the log groups that the catalogue holds for that very id. What the two tiers make of it together is
a choice that the catalogue holds, whatever region was opened before (`answers_question`).
-/

set_option autoImplicit false

namespace Interview

/-! ## Catalogues -/

namespace LogGroups

variable {g : LogGroups}

/-- The catalogue of regions with their log groups, listed one after the other. -/
def ofRegions (listed : List (Region × List String)) : LogGroups :=
  listed.foldl (fun g r => g.withRegion r.1 r.2) empty

/-- The catalogue holds a choice: its region is listed, and its log group is one of those that are
known for this region. -/
def Holds (g : LogGroups) (c : LogGroupChoice) : Prop :=
  (∃ r ∈ g.regions, r.id = c.region) ∧
    ∃ groups, g.lookup c.region = .ok groups ∧ c.group ∈ groups

/-- A catalogue in which every listed region can be looked up, at once. -/
structure Complete (g : LogGroups) : Prop where
  latency : g.latency = .none
  known : ∀ r ∈ g.regions, ∃ groups, g.lookup r.id = .ok groups

/-- The log groups of a region are those that were listed with it last. -/
theorem lookup_withRegion (g : LogGroups) (r : Region) (groups : List String) (id : String) :
    (g.withRegion r groups).lookup id = if r.id = id then .ok groups else g.lookup id := by
  unfold lookup withRegion
  by_cases hid : r.id = id
  · rw [if_pos hid, List.find?_cons_of_pos (by simpa using hid)]
  · -- the entries that were filtered out are those of the new region, and that is another one
    have hsame : (g.groups.filter fun p => p.1 ≠ r.id).find? (fun p => p.1 = id) =
        g.groups.find? fun p => p.1 = id := by
      refine List.find?_filter.trans (congrArg g.groups.find? (funext fun p => ?_))
      by_cases hp : p.1 = id
      · simp [hp, Ne.symm hid]
      · simp [hp]
    rw [if_neg hid, List.find?_cons_of_neg (by simpa using hid), hsame]

theorem complete_empty : empty.Complete :=
  ⟨rfl, fun _ hr => absurd hr List.not_mem_nil⟩

theorem Complete.withRegion (h : g.Complete) (r : Region) (groups : List String) :
    (g.withRegion r groups).Complete := by
  refine ⟨h.latency, fun r' hr' => ?_⟩
  rw [lookup_withRegion]
  split
  · exact ⟨groups, rfl⟩
  · rename_i hne
    rcases List.mem_append.mp hr' with hr' | hr'
    · exact h.known r' hr'
    · exact absurd (congrArg Region.id (List.mem_singleton.mp hr')).symm hne

/-- **Every catalogue that is listed is complete**, also when a region is listed repeatedly. -/
theorem complete_ofRegions (listed : List (Region × List String)) :
    (ofRegions listed).Complete := by
  unfold ofRegions
  generalize hg : empty = g
  have hcomplete : g.Complete := hg ▸ complete_empty
  clear hg
  induction listed generalizing g with
  | nil => exact hcomplete
  | cons r listed ih => exact ih (g.withRegion r.1 r.2) (hcomplete.withRegion r.1 r.2)

/-- The log groups of a region, as items that are ready when they are shown. -/
theorem Complete.prompt_load (h : g.Complete) {id : String} {groups : List String}
    (hgroups : g.lookup id = .ok groups) :
    (ItemSource.lazy (g.load id)).Prompt (groups.map Item.labelled) := by
  refine ⟨fun b hb => ?_, rfl⟩
  rw [List.mem_singleton.mp hb]
  refine ⟨by rw [h.latency]; rfl, groups.map Item.labelled, by rw [hgroups]; rfl, ?_⟩
  exact fun _ hi => hi

/-- **Both tiers answer**, and together with a choice that the catalogue holds. -/
theorem Complete.answers_question (h : g.Complete) (w : Wording) :
    (g.question w).Answers fun v => ∃ c : LogGroupChoice, v = c.answer ∧ g.Holds c := by
  refine ⟨fun key => ∃ r ∈ g.regions, key = .text r.id, fun recent session => ?_, ?_⟩
  · -- only the item that is marked depends on the region opened last
    have hcalm : PickList.Calm (g.regions.map regionItem)
        { PickList.new (.fixed (g.regions.map regionItem)) false with recent := recent.toList } :=
      (PickList.calm_fixed _).withRecent _
    refine ⟨_, rfl, Screen.answers_of_list rfl hcalm (fun i hi => ?_) rfl rfl fun _ =>
      Screen.click_of_mem_back⟩
    obtain ⟨r, hr, rfl⟩ := List.mem_map.mp hi
    exact ⟨r, hr, rfl⟩
  · rintro key session ⟨r, hr, rfl⟩
    obtain ⟨groups, hgroups⟩ := h.known r hr
    refine ⟨_, rfl, Screen.answers_of_list rfl (PickList.calm_new (h.prompt_load hgroups)) ?_
      rfl rfl fun _ => Screen.click_of_mem_back⟩
    intro i hi
    obtain ⟨group, hgroup, rfl⟩ := List.mem_map.mp hi
    exact ⟨⟨r.id, group⟩, rfl, ⟨r, hr, rfl⟩, groups, hgroups, hgroup⟩

end LogGroups

/-- The line for a pattern answers with the patterns that have no fault. -/
theorem FilterPattern.answers_question (w : Wording) :
    (question w validator).Answers fun v => ∃ s, v = .text s ∧ fault? s = none := by
  refine Screen.answers_of_text "" rfl (fun s hs => ⟨s, rfl, ?_⟩) rfl rfl fun _ =>
    Screen.click_of_mem_back
  exact Option.map_eq_none_iff.mp hs

namespace TailRequest

variable {w : Wording} {g : LogGroups} {v : Validator} {o : Options}

/-- The list of starts answers with a start. -/
theorem answers_startQuestion (w : Wording) :
    (startQuestion w).Answers fun v => ∃ s : StartFrom, v = .text s.name := by
  refine Screen.answers_of_list rfl (PickList.calm_fixed _) (fun i hi => ?_) rfl rfl
    fun _ => Screen.click_of_mem_back
  obtain ⟨s, -, rfl⟩ := List.mem_map.mp hi
  exact ⟨s, rfl⟩

/-! ## The form -/

/-- The fields of the form, in order. -/
def fields (w : Wording) (g : LogGroups) (v : Validator) : List Field :=
  [.asking (.ofText "logGroup") (.shaped LogGroupChoice.shape) (g.question w),
    .asking (.ofText "pattern") (.shaped .text) (FilterPattern.question w v),
    .asking (.ofText "start") (.shaped StartFrom.shape) (startQuestion w)]

theorem fields_form (w : Wording) (g : LogGroups) (v : Validator) :
    (form w g v).fields = fields w g v :=
  rfl

theorem separate_form (w : Wording) (g : LogGroups) (v : Validator) : (form w g v).Separate := by
  have hpaths : (form w g v).fields.map Field.path =
      [.ofText "logGroup", .ofText "pattern", .ofText "start"] := rfl
  constructor
  · intro f hf
    have hroot : ∀ p ∈ [Path.ofText "logGroup", .ofText "pattern", .ofText "start"],
        p.isRoot = false := by decide
    exact hroot f.path (hpaths ▸ List.mem_map_of_mem hf)
  · have hpairs : [Path.ofText "logGroup", .ofText "pattern", .ofText "start"].Pairwise
        fun p q => p.overlaps q = false := by decide
    rw [← hpaths, List.pairwise_map] at hpairs
    exact hpairs

theorem skipsByDraft_form (w : Wording) (g : LogGroups) (v : Validator) (o : Options) :
    (form w g v).SkipsByDraft o :=
  (((Form.skipsByDraft_empty o).bind (Field.skipsByDraft_asking _ _ _ _)).bind
    (Field.skipsByDraft_asking _ _ _ _)).bind (Field.skipsByDraft_asking _ _ _ _)

/-- What the field at a place is answered with. -/
def Fits (g : LogGroups) (i : Nat) (_ : Draft) (v : Json) : Prop :=
  match i with
  | 0 => ∃ c : LogGroupChoice, v = c.answer ∧ g.Holds c
  | 1 => ∃ s, v = .text s ∧ FilterPattern.fault? s = none
  | _ => ∃ s : StartFrom, v = .text s.name

theorem answers_form (h : g.Complete) (w : Wording) (o : Options) :
    (form w g FilterPattern.validator).Answers o (Fits g) where
  separate := separate_form w g _
  skips := skipsByDraft_form w g _ o
  fields := by
    intro i f hf
    rw [fields_form] at hf
    match i with
    | 0 =>
        obtain rfl := Option.some.inj hf
        exact Field.answers_of_check_eq_none rfl (fun _ => rfl) rfl fun _ => h.answers_question w
    | 1 =>
        obtain rfl := Option.some.inj hf
        exact Field.answers_of_check_eq_none rfl (fun _ => rfl) rfl fun _ =>
          FilterPattern.answers_question w
    | 2 =>
        obtain rfl := Option.some.inj hf
        exact Field.answers_of_check_eq_none rfl (fun _ => rfl) rfl fun _ =>
          answers_startQuestion w
    | _ + 3 => exact absurd hf (by simp [fields])

end TailRequest

end Interview
