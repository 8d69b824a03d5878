import Interview.Answer.Shape
/-
Reading records.

A record is read part by part, and every part is what its own shape makes of the member of that
name, or of the lack of one. Written out this is a fold over the parts, and what it makes is a list
of members in order of their names. Nobody who reads a record wants to know that. What is wanted is
that a record can be read when each of its parts can, and that each part is then found under its
name (`Shape.exists_decode_record`).
-/

set_option autoImplicit false

namespace Interview

/-- What a part of a record is read as. -/
def Shape.part? (s : Shape) (name : String) (ms : Members) : Option Json :=
  match ms.find? name with
  | some v => s.decode? v
  | none => s.absent?

theorem Shape.part?_of_find? {s : Shape} {name : String} {ms : Members} {v : Json}
    (h : ms.find? name = some v) : s.part? name ms = s.decode? v := by
  rw [part?, h]

theorem Shape.part?_of_find?_eq_none {s : Shape} {name : String} {ms : Members}
    (h : ms.find? name = none) : s.part? name ms = s.absent? := by
  rw [part?, h]

theorem Members.find?_foldl_put_of_not_mem {name : String} {ms : Members} :
    ∀ {acc : Members}, name ∉ ms.map Prod.fst →
      find? name (ms.foldl (fun acc m => put m.1 m.2 acc) acc) = find? name acc := by
  induction ms with
  | nil => exact fun _ => rfl
  | cons m ms ih =>
      intro acc hname
      rw [List.map_cons, List.mem_cons, not_or] at hname
      rw [List.foldl_cons, ih hname.2, find?_put_of_ne hname.1]

/-- In a list without repeated names, every member is found under its name. -/
theorem Members.find?_ofList {ms : Members} (hnames : (ms.map Prod.fst).Nodup) {m : String × Json}
    (hm : m ∈ ms) : find? m.1 (ofList ms) = some m.2 := by
  unfold ofList
  generalize ([] : Members) = acc
  induction ms generalizing acc with
  | nil => exact absurd hm List.not_mem_nil
  | cons m' ms ih =>
      rw [List.map_cons, List.nodup_cons] at hnames
      rw [List.foldl_cons]
      rcases List.mem_cons.mp hm with rfl | hm
      · rw [find?_foldl_put_of_not_mem hnames.1, find?_put_self]
      · exact ih hnames.2 hm _

/-- If every part can be read, so can the parts together, and none is lost. -/
theorem Shape.exists_decodeParts {ms : Members} : ∀ {parts : List (String × Shape)},
    (∀ p ∈ parts, (p.2.part? p.1 ms).isSome = true) →
    ∃ out, decodeParts parts ms = some out ∧ out.map Prod.fst = parts.map Prod.fst ∧
      ∀ p ∈ parts, ∃ v, p.2.part? p.1 ms = some v ∧ (p.1, v) ∈ out
  | [], _ => ⟨[], rfl, rfl, fun _ hp => absurd hp List.not_mem_nil⟩
  | (name, s) :: parts, h => by
      obtain ⟨v, hv⟩ := Option.isSome_iff_exists.mp (h (name, s) List.mem_cons_self)
      obtain ⟨out, hout, hnames, hmem⟩ :=
        exists_decodeParts fun p hp => h p (List.mem_cons_of_mem _ hp)
      refine ⟨(name, v) :: out, ?_, ?_, fun p hp => ?_⟩
      · rw [part?] at hv
        rw [decodeParts]
        rcases hfind : ms.find? name with _ | v'
        · simp only [hfind] at hv ⊢
          rw [hv, hout]
          rfl
        · simp only [hfind] at hv ⊢
          rw [hv, hout]
          rfl
      · rw [List.map_cons, List.map_cons, hnames]
      · rcases List.mem_cons.mp hp with rfl | hp
        · exact ⟨v, hv, List.mem_cons_self⟩
        · obtain ⟨v', hv', hmem'⟩ := hmem p hp
          exact ⟨v', hv', List.mem_cons_of_mem _ hmem'⟩

/-- **A record is read part by part.** -/
theorem Shape.exists_decode_record {parts : List (String × Shape)} {ms : Members}
    (hnames : (parts.map Prod.fst).Nodup) (h : ∀ p ∈ parts, (p.2.part? p.1 ms).isSome = true) :
    ∃ ms' : Members, (Shape.record parts).decode? (.object ms) = some (.object ms') ∧
      ∀ p ∈ parts, ms'.find? p.1 = p.2.part? p.1 ms := by
  obtain ⟨out, hout, hnames', hmem⟩ := exists_decodeParts h
  refine ⟨Members.ofList out, ?_, fun p hp => ?_⟩
  · rw [decode?, hout]
    rfl
  · obtain ⟨v, hv, hv'⟩ := hmem p hp
    rw [hv]
    exact Members.find?_ofList (hnames'.symm ▸ hnames) hv'

end Interview
