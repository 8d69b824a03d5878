import Interview.Proofs.Draft.Below
/-
The footprint of a path: what a write and a removal at it change, and what they leave alone.

The other files of this folder take the laws of a draft apart, by where one path lies to another.
Here they are put together again, for one path at a time. A write is seen at its path and below it
and nowhere else, and so is a removal, which also takes with it the objects that it empties
(`Draft.framed`). Nothing is asked of the draft: it may hold nulls and empty objects, and its names
may stand in any order.

Taking back a write needs more, since a removal cannot tell an object that the write made from an
empty one that was there before. So the objects above the path have to hold something, or not to be
there. The order of the names does not matter, because the write has put something under a name that
was free, and the removal takes it out where it is.
-/

set_option autoImplicit false

namespace Interview

/-! ## Paths below others -/

namespace Path

variable {p q : Path}

/-- The other path is the path of a field, and this one leads through it. -/
structure Below (p q : Path) : Prop where
  field : q.isRoot = false
  startsWith : p.startsWith q = true
  ne : q ≠ p

/-- The way down from a path to one below it. -/
theorem Below.exists_append (h : p.Below q) :
    q.segments ≠ [] ∧ ∃ u, u ≠ [] ∧ p.segments = q.segments ++ u := by
  obtain ⟨u, hu⟩ := exists_append_of_startsWith h.startsWith
  refine ⟨segments_ne_nil h.field, u, ?_, hu⟩
  rintro rfl
  rw [List.append_nil] at hu
  exact h.ne (ext hu.symm)

/-- Wherever the segments of a path are cut, it is below the path of the first part. -/
theorem exists_below_of_append {t u : List String} (ht : t ≠ []) (hu : u ≠ [])
    (h : p.segments = t ++ u) : ∃ q : Path, q.segments = t ∧ p.Below q := by
  have hproper : ∀ s ∈ t, ProperSegment s := fun s hs =>
    p.proper s (h ▸ List.mem_append_left u hs)
  refine ⟨⟨t, hproper⟩, rfl, List.isEmpty_eq_false_iff.mpr ht,
    List.isPrefixOf_iff_prefix.mpr ⟨u, h.symm⟩, ?_⟩
  rintro rfl
  exact hu (List.append_cancel_left (h.symm.trans (List.append_nil t).symm))

end Path

/-! ## Reading in a value -/

/-- What is read in a value behind some segments: the value itself behind none. -/
def Json.at? (v : Json) : List String → Option Json
  | [] => some v
  | s :: rest =>
    match v with
    | .object ms => Members.at? ms (s :: rest)
    | _ => none

/-- What a value has at a relative path, unless it is null. -/
def Json.get? (v : Json) (r : Path) : Option Json :=
  (v.at? r.segments).filter fun w => !w.isNull

namespace Members

/-- **Reading behind a path** is reading in the value at the path. -/
theorem at?_append {p : List String} (hp : p ≠ []) (u : List String) (ms : Members) :
    ms.at? (p ++ u) = (ms.at? p).bind fun v => v.at? u := by
  rcases u with _ | ⟨t, u⟩
  · rw [List.append_nil]
    exact (Option.bind_fun_some _).symm
  · refine Option.ext fun w => ?_
    rw [at?_append_eq_some hp (List.cons_ne_nil t u), Option.bind_eq_some_iff]
    constructor
    · rintro ⟨inner, hat, hread⟩
      exact ⟨.object inner, hat, hread⟩
    · rintro ⟨v, hat, hread⟩
      cases v with
      | object inner => exact ⟨inner, hat, hread⟩
      | null | bool | int | float | text | list => exact absurd hread (by simp [Json.at?])

/-! ## Taking back a write -/

/-- Above the path there are objects that hold something, or nothing. -/
def Firm (ms : Members) (p : List String) : Prop :=
  ∀ t u, t ≠ [] → u ≠ [] → p = t ++ u →
    ms.at? t = none ∨ ∃ inner, inner ≠ [] ∧ ms.at? t = some (.object inner)

theorem firm_empty (p : List String) : Firm [] p :=
  fun t _ _ _ _ => Or.inl (at?_empty t)

/-- What is above a path of two segments or more is firm in the object under the first one. -/
theorem Firm.object {ms inner : Members} {s t : String} {rest : List String}
    (h : ms.Firm (s :: t :: rest)) (hs : find? s ms = some (.object inner)) :
    inner.Firm (t :: rest) := by
  intro p u hp hu heq
  obtain ⟨t', p', rfl⟩ := List.exists_cons_of_ne_nil hp
  have hfirm := h (s :: t' :: p') u (List.cons_ne_nil s _) hu (congrArg (s :: ·) heq)
  rwa [at?_cons_of_object hs] at hfirm

/-- The first segment of a firm path has no null under it, and no empty object. -/
theorem Firm.find? {ms : Members} {s t : String} {rest : List String}
    (h : ms.Firm (s :: t :: rest)) :
    find? s ms = none ∨ ∃ inner, inner ≠ [] ∧ find? s ms = some (.object inner) :=
  h [s] (t :: rest) (List.cons_ne_nil s []) (List.cons_ne_nil t rest) rfl

/-- **A removal takes back a write** at a firm path where nothing was. The induction is on the path,
and at each segment the object goes on being the one that was there, or it was made by the write and
is left empty. -/
theorem remove_set?_of_firm {p : List String} : ∀ {ms ms' : Members} {v : Json},
    ms.Firm p → ms.at? p = none → ms.set? v p = some ms' → (ms'.remove p).2 = ms := by
  induction p with
  | nil =>
      intro ms ms' v _ _ h
      exact absurd h (by simp [set?])
  | cons s rest ih =>
      intro ms ms' v hfirm hnone h
      rcases rest with _ | ⟨t, rest⟩
      · simp only [set?, Option.some.injEq] at h
        rw [← h]
        exact (erase_put s v ms).trans (erase_of_find?_eq_none hnone)
      · have hread := at?_set?_self h
        obtain ⟨inner, inner', hset, rfl, hs⟩ := set?_cons_eq_some h
        rcases remove_cons (ms.put s (.object inner')) s t rest with
          ⟨-, hgone⟩ | ⟨inner₂, w, left, hs₂, hr, heq⟩
        · rw [hread] at hgone
          exact absurd hgone (by simp)
        · rw [find?_put_self, Option.some.injEq, Json.object.injEq] at hs₂
          subst hs₂
          rw [heq, erase_put, put_put]
          rcases hfirm.find? with hfree | ⟨inner₃, hne, hobject⟩
          · -- the write made the object, and the removal takes it with it
            obtain rfl : inner = [] := by
              rcases hs with hs | ⟨rfl, -⟩
              · rw [hfree] at hs
                exact absurd hs (by simp)
              · rfl
            have hleft := ih (firm_empty _) (at?_empty _) hset
            rw [hr] at hleft
            rw [if_pos hleft, erase_of_find?_eq_none hfree]
          · -- the object was there before and holds something
            obtain rfl : inner = inner₃ := by
              rcases hs with hs | ⟨-, hs | hs⟩
              · exact Json.object.inj (Option.some.inj (hs.symm.trans hobject))
              · exact absurd (hs.symm.trans hobject) (by simp)
              · exact absurd (hs.symm.trans hobject) (by simp)
            rw [at?_cons_of_object hobject] at hnone
            have hleft := ih (hfirm.object hobject) hnone hset
            rw [hr] at hleft
            obtain rfl : left = inner := hleft
            rw [if_neg hne, put_of_find?_eq_some hobject]

end Members

/-! ## Drafts -/

namespace Draft

variable {d d' : Draft} {p q r : Path} {v : Json}

/-- There is no field at the path, not even one that holds null. -/
def Lacks (d : Draft) (p : Path) : Prop :=
  d.members.at? p.segments = none

/-- **What a write shows**, at every path that its own can be compared with. -/
theorem get?_set_below (h : d.set p v = .ok d') (hr : q.relativeTo? p = some r) :
    d'.get? q = v.get? r := by
  obtain ⟨hroot, hset⟩ := set_eq_ok h
  rw [get?, Path.relativeTo?_eq_some_iff.mp hr, Members.at?_append (Path.segments_ne_nil hroot),
    Members.at?_set?_self hset]
  rfl

theorem get?_set_of_overlaps (h : d.set p v = .ok d') (hpq : p.overlaps q = false) :
    d'.get? q = d.get? q :=
  get?_eq_of_at?_eq (at?_set_of_apart (Path.apart_of_overlaps hpq) h)

theorem get?_remove_of_overlaps (hpq : p.overlaps q = false) :
    (d.remove p).2.get? q = d.get? q :=
  get?_eq_of_at?_eq (at?_remove_of_apart (Path.apart_of_overlaps hpq))

theorem remove_fst (d : Draft) (p : Path) : (d.remove p).1 = d.get? p :=
  congrArg (Option.filter fun v : Json => !v.isNull) (Members.remove_fst p.segments d.members)

theorem get?_remove_self (d : Draft) (p : Path) : (d.remove p).2.get? p = none := by
  have hnone : (d.remove p).2.members.at? p.segments = none :=
    Members.at?_remove_self p.segments d.members
  rw [get?, hnone]
  rfl

/-- **A removal leaves no empty object above its path** if it took something out. -/
theorem get?_remove_above (h : ¬d.Lacks p) (hq : p.Below q) :
    (d.remove p).2.get? q ≠ some (.object []) := by
  obtain ⟨hne, u, hu, hp⟩ := hq.exists_append
  obtain ⟨w, hw⟩ := Option.ne_none_iff_exists'.mp h
  rw [hp] at hw
  intro hempty
  have hread : (d.members.remove p.segments).2.at? q.segments = some (.object []) :=
    (Option.filter_eq_some_iff.mp hempty).1
  rw [hp] at hread
  rcases Members.at?_remove_append hne hu hw with hnone | ⟨inner, hinner, hobject⟩
  · rw [hnone] at hread
    exact absurd hread (by simp)
  · obtain rfl := Json.object.inj (Option.some.inj (hobject.symm.trans hread))
    exact hinner rfl

/-- **A removal takes back a write** where nothing was, if above the path there is no null, no empty
object and no other value. -/
theorem remove_set (h : d.set p v = .ok d') (hlacks : d.Lacks p)
    (hfirm : ∀ q, p.Below q → d.Lacks q ∨ ∃ inner, inner ≠ [] ∧ d.get? q = some (.object inner)) :
    (d'.remove p).2 = d := by
  have hsegments : d.members.Firm p.segments := by
    intro t u ht hu hp
    obtain ⟨q, rfl, hbelow⟩ := Path.exists_below_of_append ht hu hp
    rcases hfirm q hbelow with hnone | ⟨inner, hne, hobject⟩
    · exact Or.inl hnone
    · exact Or.inr ⟨inner, hne, (Option.filter_eq_some_iff.mp hobject).1⟩
  exact congrArg Draft.mk
    (Members.remove_set?_of_firm hsegments hlacks (set_eq_ok h).2)

/-- **The frame of a path**, for what is written at it and for what is removed from it. -/
structure Framed (d : Draft) (p : Path) : Prop where
  /-- After a write the value is read at the path, and the parts of the value below it. -/
  set_below : ∀ v d', d.set p v = .ok d' → ∀ q r, q.relativeTo? p = some r → d'.get? q = v.get? r
  /-- A write is not seen from a path that does not overlap. -/
  set_apart : ∀ v d', d.set p v = .ok d' → ∀ q, p.overlaps q = false → d'.get? q = d.get? q
  /-- A removal hands out what was read at the path. -/
  remove_value : (d.remove p).1 = d.get? p
  /-- After a removal nothing is read at the path. -/
  remove_self : (d.remove p).2.get? p = none
  /-- A removal is not seen from a path that does not overlap. -/
  remove_apart : ∀ q, p.overlaps q = false → (d.remove p).2.get? q = d.get? q
  /-- A removal of a field, be it one that holds null, leaves no empty object above the path. -/
  remove_above : ¬d.Lacks p → ∀ q, p.Below q → (d.remove p).2.get? q ≠ some (.object [])
  /-- Where there is no field, a removal changes nothing. -/
  remove_lacking : d.Lacks p → (d.remove p).2 = d
  /-- A removal takes back a write where there was no field, if above the path there are objects
  that hold something, or nothing. -/
  remove_set : ∀ v d', d.set p v = .ok d' → d.Lacks p →
    (∀ q, p.Below q → d.Lacks q ∨ ∃ inner, inner ≠ [] ∧ d.get? q = some (.object inner)) →
    (d'.remove p).2 = d

/-- **Every path has its frame**, in every draft. -/
theorem framed (d : Draft) (p : Path) : d.Framed p where
  set_below _ _ h _ _ hr := get?_set_below h hr
  set_apart _ _ h _ hpq := get?_set_of_overlaps h hpq
  remove_value := d.remove_fst p
  remove_self := d.get?_remove_self p
  remove_apart _ hpq := get?_remove_of_overlaps hpq
  remove_above h _ hq := get?_remove_above h hq
  remove_lacking h := congrArg Draft.mk (Members.remove_of_at?_eq_none h)
  remove_set _ _ h hlacks hfirm := Draft.remove_set h hlacks hfirm

/-- A draft that holds nulls. -/
def patchy : Draft :=
  ⟨[("a", .object [("b", .null), ("c", .int 1)]), ("e", .null)]⟩

/-- A write makes the object that is missing on its way, and the removal takes it away again. The
null under the other name is in nobody's way. -/
theorem framed_of_patchy :
    let p := Path.ofText "a.x.y"
    let inner : Members := [("b", .null), ("c", .int 1), ("x", .object [("y", .bool true)])]
    let written : Draft := ⟨[("a", .object inner), ("e", .null)]⟩
    patchy.set p (.bool true) = .ok written ∧ written.get? p = some (.bool true) ∧
      written.get? (.ofText "a.c") = some (.int 1) ∧ (written.remove p).1 = some (.bool true) ∧
      (written.remove p).2 = patchy := by
  intro p inner written
  have hset : patchy.set p (.bool true) = .ok written := rfl
  have hframed := patchy.framed p
  refine ⟨hset, hframed.set_below _ _ hset p .root rfl, hframed.set_apart _ _ hset _ rfl,
    (written.framed p).remove_value, hframed.remove_set _ _ hset rfl fun q hq => ?_⟩
  obtain ⟨hne, u, hu, hp⟩ := hq.exists_append
  rcases hq' : q.segments with _ | ⟨s, _ | ⟨t, _ | ⟨k, rest⟩⟩⟩
  · exact absurd hq' hne
  · rw [hq'] at hp
    obtain rfl : "a" = s := (List.cons.inj hp).1
    refine Or.inr ⟨[("b", .null), ("c", .int 1)], List.cons_ne_nil _ _, ?_⟩
    rw [get?, hq']
    rfl
  · rw [hq'] at hp
    obtain ⟨rfl, hp'⟩ := List.cons.inj hp
    obtain rfl : "x" = t := (List.cons.inj hp').1
    exact Or.inl (by rw [Lacks, hq']; rfl)
  · -- a third segment would be the last one of the path
    rw [hq'] at hp
    have hlength := congrArg List.length hp
    rw [List.length_append] at hlength
    have hlast : p.segments.length = 3 := rfl
    have hmore := List.length_pos_iff.mpr hu
    simp only [List.length_cons] at hlength
    omega

end Draft

end Interview
