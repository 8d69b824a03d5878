import Interview.Proofs.Draft.Records
import Interview.Proofs.Path.Algebra
/-
Above and below a path.

The frame laws tell what a write or a removal does at paths that are apart from its own. This file
is about the others. Below a path everything is determined by the value at the path. Above it, a
write leaves an object that is not empty, and so does a removal that takes something out, unless
the object goes with it. Hence neither of them makes a leaf on its way, be it null or an empty
object, and neither takes away a value on the way that is not an object: with such a value there
the write would fail, and there would be nothing to remove.
-/

set_option autoImplicit false

namespace Interview

namespace Members

/-! ## Below a path -/

/-- **Reading below a path** goes on in the object that is read at the path. -/
theorem at?_append_eq_some {p u : List String} (hp : p ≠ []) (hu : u ≠ []) {ms : Members}
    {v : Json} : ms.at? (p ++ u) = some v ↔
      ∃ inner, ms.at? p = some (.object inner) ∧ at? inner u = some v := by
  induction p generalizing ms with
  | nil => exact absurd rfl hp
  | cons s p ih =>
      rcases p with _ | ⟨t, p⟩
      · obtain ⟨t, u, rfl⟩ := List.exists_cons_of_ne_nil hu
        exact at?_cons_eq_some
      · rw [List.cons_append, List.cons_append, at?_cons_eq_some]
        simp only [← List.cons_append, ih (List.cons_ne_nil t p)]
        constructor
        · rintro ⟨inner, hs, inner', hat, hat'⟩
          exact ⟨inner', at?_cons_eq_some.mpr ⟨inner, hs, hat⟩, hat'⟩
        · rintro ⟨inner', hat, hat'⟩
          obtain ⟨inner, hs, hat⟩ := at?_cons_eq_some.mp hat
          exact ⟨inner, hs, inner', hat, hat'⟩

/-- Behind a segment with an object under it, reading goes on in the object. -/
theorem at?_cons_of_object {ms inner : Members} {s t : String} {rest : List String}
    (hs : find? s ms = some (.object inner)) : ms.at? (s :: t :: rest) = at? inner (t :: rest) := by
  refine Option.ext fun v => ?_
  rw [at?_cons_eq_some, hs]
  simp

/-- Behind a segment without an object under it, nothing is read. -/
theorem at?_cons_eq_none {ms : Members} {s t : String} {rest : List String}
    (hs : ∀ inner, find? s ms ≠ some (.object inner)) : ms.at? (s :: t :: rest) = none := by
  refine Option.eq_none_iff_forall_ne_some.mpr fun v hv => ?_
  obtain ⟨inner, hinner, -⟩ := at?_cons_eq_some.mp hv
  exact hs inner hinner

/-- **Going on below a free path.** The longer path is free just if nothing is read at the shorter
one, or null, or an object in which the rest is free. -/
theorem admits_append {p u : List String} (hp : p ≠ []) (hu : u ≠ []) {ms : Members} :
    ms.Admits (p ++ u) ↔ ms.Admits p ∧ (ms.at? p = none ∨ ms.at? p = some .null ∨
      ∃ inner, ms.at? p = some (.object inner) ∧ Admits inner u) := by
  induction p generalizing ms with
  | nil => exact absurd rfl hp
  | cons s p ih =>
      rcases p with _ | ⟨t, p⟩
      · obtain ⟨t, u, rfl⟩ := List.exists_cons_of_ne_nil hu
        exact admits_cons.trans (and_iff_right trivial).symm
      · rw [List.cons_append, List.cons_append, admits_cons, admits_cons]
        constructor
        · rintro (hs | hs | ⟨inner, hs, hrest⟩)
          · exact ⟨Or.inl hs, Or.inl (at?_cons_eq_none fun _ => by simp [hs])⟩
          · exact ⟨Or.inr (Or.inl hs), Or.inl (at?_cons_eq_none fun _ => by simp [hs])⟩
          · obtain ⟨hfree, hrest⟩ := (ih (List.cons_ne_nil t p)).mp hrest
            rw [at?_cons_of_object hs]
            exact ⟨Or.inr (Or.inr ⟨inner, hs, hfree⟩), hrest⟩
        · rintro ⟨hs | hs | ⟨inner, hs, hfree⟩, hrest⟩
          · exact Or.inl hs
          · exact Or.inr (Or.inl hs)
          · rw [at?_cons_of_object hs] at hrest
            exact Or.inr (Or.inr ⟨inner, hs, (ih (List.cons_ne_nil t p)).mpr ⟨hfree, hrest⟩⟩)

/-- A path above a free one is free. -/
theorem Admits.of_append {p u : List String} (hp : p ≠ []) {ms : Members}
    (h : ms.Admits (p ++ u)) : ms.Admits p := by
  rcases u with _ | ⟨t, u⟩
  · rwa [List.append_nil] at h
  · exact ((admits_append hp (List.cons_ne_nil t u)).mp h).1

/-! ## Above a path -/

/-- Nothing is read at no segments at all. -/
theorem ne_nil_of_at? {p : List String} {ms : Members} {v : Json} (h : ms.at? p = some v) :
    p ≠ [] := by
  rintro rfl
  exact absurd h (by simp [at?])

/-- **A write leaves an object above its path** that is not empty. -/
theorem exists_object_of_set? {t u : List String} (ht : t ≠ []) (hu : u ≠ []) {ms ms' : Members}
    {v : Json} (h : ms.set? v (t ++ u) = some ms') :
    ∃ inner, inner ≠ [] ∧ ms'.at? t = some (.object inner) := by
  obtain ⟨inner, hat, hread⟩ := (at?_append_eq_some ht hu).mp (at?_set?_self h)
  refine ⟨inner, fun hnil => ?_, hat⟩
  rw [hnil, at?_empty] at hread
  exact absurd hread (by simp)

/-- **A removal that takes something out** leaves above its path an object that is not empty, or
nothing. -/
theorem at?_remove_append {t u : List String} (ht : t ≠ []) (hu : u ≠ []) {ms : Members} {v : Json}
    (h : ms.at? (t ++ u) = some v) : (ms.remove (t ++ u)).2.at? t = none ∨
      ∃ inner, inner ≠ [] ∧ (ms.remove (t ++ u)).2.at? t = some (.object inner) := by
  induction t generalizing ms v with
  | nil => exact absurd rfl ht
  | cons s t ih =>
      obtain ⟨s', rest, hrest⟩ := List.exists_cons_of_ne_nil (List.append_ne_nil_of_right_ne_nil t hu)
      rw [List.cons_append, hrest] at h ⊢
      rcases remove_cons ms s s' rest with ⟨-, hnone⟩ | ⟨inner, w, inner', hs, hr, heq⟩
      · rw [hnone] at h
        exact absurd h (by simp)
      · rw [heq]
        by_cases hnil : inner' = []
        · -- the object under the segment went, and with it all that was read behind the segment
          rw [if_pos hnil]
          refine Or.inl ?_
          rw [at?_congr (show find? s (ms.erase s) = find? s [] from find?_erase_self s ms), at?_empty]
        · rw [if_neg hnil]
          rcases t with _ | ⟨t, ts⟩
          · exact Or.inr ⟨inner', hnil, find?_put_self s _ ms⟩
          · rw [at?_cons_of_object (find?_put_self s _ ms)]
            have hread : at? inner (s' :: rest) = some w := by rw [← remove_fst, hr]
            rw [← hrest] at hread hr
            have hinner := ih (List.cons_ne_nil t ts) hread
            rwa [hr] at hinner

end Members

/-! ## Leaves

Nothing is read below a leaf. An empty object and null are leaves too, but something can be written
below them, which makes an object that is no leaf. -/

namespace Json

/-- Whether nothing is read below a value: it is not an object, or an empty one. -/
def isLeaf : Json → Bool
  | .object (_ :: _) => false
  | _ => true

/-- Whether nothing can be written below a value either: it is neither null nor an object. -/
def isAtom : Json → Bool
  | .null => false
  | .object _ => false
  | _ => true

theorem isLeaf_of_isAtom {x : Json} (h : x.isAtom = true) : x.isLeaf = true := by
  cases x <;> simp_all [isAtom, isLeaf]

theorem isNull_of_isAtom {x : Json} (h : x.isAtom = true) : x.isNull = false := by
  cases x <;> simp_all [isAtom, isNull]

theorem isLeaf_object {ms : Members} (h : isLeaf (.object ms) = true) : ms = [] := by
  cases ms with
  | nil => rfl
  | cons => exact absurd h (by simp [isLeaf])

end Json

namespace Members

variable {s u : List String} {ms ms' : Members} {x v : Json}

/-- Nothing is read below a leaf. -/
theorem at?_append_of_leaf (hu : u ≠ []) (hx : x.isLeaf = true) (hat : ms.at? s = some x) :
    ms.at? (s ++ u) = none := by
  refine Option.eq_none_iff_forall_ne_some.mpr fun v hv => ?_
  obtain ⟨inner, hobject, hread⟩ := (at?_append_eq_some (ne_nil_of_at? hat) hu).mp hv
  obtain rfl : x = .object inner := Option.some.inj (hat.symm.trans hobject)
  rw [Json.isLeaf_object hx, at?_empty] at hread
  exact absurd hread (by simp)

/-- **A removal neither makes nor takes a leaf above its path.** -/
theorem at?_remove_above (hu : u ≠ []) (hx : x.isLeaf = true) :
    (ms.remove (s ++ u)).2.at? s = some x ↔ ms.at? s = some x := by
  rcases hat : ms.at? (s ++ u) with _ | v
  · rw [remove_of_at?_eq_none hat]
  · refine iff_of_false (fun hafter => ?_) fun hbefore => ?_
    · rcases at?_remove_append (ne_nil_of_at? hafter) hu hat with hnone | ⟨inner, hne, hinner⟩
      · rw [hnone] at hafter
        exact absurd hafter (by simp)
      · obtain rfl : x = .object inner := Option.some.inj (hafter.symm.trans hinner)
        exact hne (Json.isLeaf_object hx)
    · rw [at?_append_of_leaf hu hx hbefore] at hat
      exact absurd hat (by simp)

/-- **No leaf is above a path that was written.** -/
theorem at?_set?_above (hu : u ≠ []) (hx : x.isLeaf = true) (h : ms.set? v (s ++ u) = some ms') :
    ms'.at? s ≠ some x := by
  intro hafter
  obtain ⟨inner, hne, hinner⟩ := exists_object_of_set? (ne_nil_of_at? hafter) hu h
  obtain rfl : x = .object inner := Option.some.inj (hafter.symm.trans hinner)
  exact hne (Json.isLeaf_object hx)

/-- No path is free that goes on below an atom. -/
theorem not_admits_of_atom (hu : u ≠ []) (hx : x.isAtom = true) (hat : ms.at? s = some x) :
    ¬ms.Admits (s ++ u) := by
  intro hfree
  rcases ((admits_append (ne_nil_of_at? hat) hu).mp hfree).2 with hnone | hnull | ⟨inner, hobject, -⟩
  · rw [hat] at hnone
    exact absurd hnone (by simp)
  · obtain rfl : x = .null := Option.some.inj (hat.symm.trans hnull)
    exact absurd hx (by simp [Json.isAtom])
  · obtain rfl : x = .object inner := Option.some.inj (hat.symm.trans hobject)
    exact absurd hx (by simp [Json.isAtom])

end Members

/-- Drafts that agree at a path have the same atoms at the path and below it. -/
theorem Draft.at?_append_of_get?_eq {d d' : Draft} {p : Path} {x : Json} {u : List String}
    (hroot : p.segments ≠ []) (hx : x.isAtom = true) (h : d'.get? p = d.get? p)
    (hat : d.members.at? (p.segments ++ u) = some x) :
    d'.members.at? (p.segments ++ u) = some x := by
  have hsame : ∀ v, v.isNull = false → d.members.at? p.segments = some v →
      d'.members.at? p.segments = some v := by
    intro v hv hread
    rw [get?, get?, hread, Option.filter_some, hv] at h
    exact (Option.filter_eq_some_iff.mp h).1
  rcases u with _ | ⟨t, u⟩
  · rw [List.append_nil] at hat ⊢
    exact hsame x (Json.isNull_of_isAtom hx) hat
  · obtain ⟨inner, hread, hinner⟩ :=
      (Members.at?_append_eq_some hroot (List.cons_ne_nil t u)).mp hat
    exact (Members.at?_append_eq_some hroot (List.cons_ne_nil t u)).mpr
      ⟨inner, hsame _ rfl hread, hinner⟩

end Interview
