import Interview.Proofs.Draft.Footprint
/-
Writes in place.

A write in place makes the objects that are missing on its way before it knows whether the rest of
the path can be followed, and it can fail at every segment. Still a write that fails leaves no
trace. Where an object was made the rest of the path is free, because nothing stands in the way in
an empty object, so a write that has made one does not fail any more. And a write that has made none
has only put back the objects that it went through.

So a write in place succeeds just where `set` does and leaves the same draft, and what `set` was
shown to do holds of it as well. The rest of the file says when a write fails: a value that is
neither null nor an object stands above the end of the path (`Members.not_admits_iff`).
-/

set_option autoImplicit false

namespace Interview

namespace Members

/-! ## A write in place -/

/-- One segment of a write in place in an object that is there: the write goes on in it. -/
theorem write_cons_of_object {ms inner : Members} {s t : String} {rest : List String} (v : Json)
    (h : find? s ms = some (.object inner)) : ms.write v (s :: t :: rest) =
      ((inner.write v (t :: rest)).1, ms.put s (.object (inner.write v (t :: rest)).2)) := by
  have hopened : ms.opened s = ms := by rw [opened, h]
  rw [write]
  · simp only [hopened, h]
  · simp

/-- One segment of a write in place where nothing or null is: the write goes on in the object that
it has just made. -/
theorem write_cons_of_free {ms : Members} {s t : String} {rest : List String} (v : Json)
    (h : find? s ms = none ∨ find? s ms = some .null) : ms.write v (s :: t :: rest) =
      ((write [] v (t :: rest)).1, ms.put s (.object (write [] v (t :: rest)).2)) := by
  have hopened : ms.opened s = ms.put s (.object []) := by
    rcases h with h | h <;> rw [opened, h]
  rw [write]
  · simp only [hopened, find?_put_self, put_put]
  · simp

/-- One segment of a write in place where something else is: the write fails there. -/
theorem write_cons_of_atom {ms : Members} {x : Json} {s t : String} {rest : List String} (v : Json)
    (h : find? s ms = some x) (hx : x.isAtom = true) :
    ms.write v (s :: t :: rest) = (false, ms) := by
  cases x with
  | null | object => exact absurd hx (by simp [Json.isAtom])
  | bool | int | float | text | list =>
      have hopened : ms.opened s = ms := by rw [opened, h]
      rw [write]
      · simp only [hopened, h]
      · simp

/-- **A write in place that succeeds** leaves what `set?` says. -/
theorem write_of_set? {p : List String} {v : Json} : ∀ {ms ms' : Members},
    ms.set? v p = some ms' → ms.write v p = (true, ms') := by
  induction p with
  | nil => exact fun h => absurd h (by simp [set?])
  | cons s rest ih =>
      intro ms ms' h
      rcases rest with _ | ⟨t, rest⟩
      · rw [set?, Option.some.injEq] at h
        rw [write, h]
      · obtain ⟨inner, inner', hset, rfl, hs | ⟨rfl, hs⟩⟩ := set?_cons_eq_some h
        · rw [write_cons_of_object v hs, ih hset]
        · -- the object was made for this write, so what is written into was empty
          rw [write_cons_of_free v hs, ih hset]

/-- Under the first segment of a longer path that is not free there is an object in which the rest
is not free, or a value that is neither null nor an object. -/
theorem not_admits_cons {ms : Members} {s t : String} {rest : List String}
    (h : ¬ms.Admits (s :: t :: rest)) :
    (∃ inner, find? s ms = some (.object inner) ∧ ¬Admits inner (t :: rest)) ∨
      ∃ x, find? s ms = some x ∧ x.isAtom = true := by
  rw [admits_cons, not_or, not_or] at h
  obtain ⟨hnone, hnull, hobject⟩ := h
  obtain ⟨x, hx⟩ := Option.ne_none_iff_exists'.mp hnone
  cases x with
  | null => exact absurd hx hnull
  | object inner => exact Or.inl ⟨inner, hx, fun hinner => hobject ⟨inner, hx, hinner⟩⟩
  | bool | int | float | text | list => exact Or.inr ⟨_, hx, rfl⟩

/-- **A write in place that fails** leaves the members as they were. The induction is on the
segments. Behind an object that was made the write is one in an empty object and does not fail, so
what is put back here are objects that were there before, and each of them is as it was. -/
theorem write_of_not_admits {p : List String} {v : Json} : ∀ {ms : Members},
    ¬ms.Admits p → ms.write v p = (false, ms) := by
  induction p with
  | nil => exact fun _ => rfl
  | cons s rest ih =>
      intro ms h
      rcases rest with _ | ⟨t, rest⟩
      · exact absurd trivial h
      · rcases not_admits_cons h with ⟨inner, hobject, hinner⟩ | ⟨x, hx, hatom⟩
        · -- the write failed in the object, which is put back under its name
          rw [write_cons_of_object v hobject, ih hinner, put_of_find?_eq_some hobject]
        · exact write_cons_of_atom v hx hatom

/-! ## When a write fails -/

/-- **What stands in the way of a write**: above the end of the path, a value that is neither null
nor an object. -/
theorem not_admits_iff {p : List String} : ∀ {ms : Members}, ¬ms.Admits p ↔ p = [] ∨
    ∃ t u x, u ≠ [] ∧ p = t ++ u ∧ ms.at? t = some x ∧ x.isAtom = true := by
  intro ms
  constructor
  · induction p generalizing ms with
    | nil => exact fun _ => Or.inl rfl
    | cons s rest ih =>
        intro h
        refine Or.inr ?_
        rcases rest with _ | ⟨t, rest⟩
        · exact absurd trivial h
        · rcases not_admits_cons h with ⟨inner, hobject, hinner⟩ | ⟨x, hx, hatom⟩
          · obtain hnil | ⟨t', u, x, hu, heq, hat, hatom⟩ := ih hinner
            · exact absurd hnil (List.cons_ne_nil t rest)
            · obtain ⟨s', t', rfl⟩ := List.exists_cons_of_ne_nil (ne_nil_of_at? hat)
              refine ⟨s :: s' :: t', u, x, hu, congrArg (s :: ·) heq, ?_, hatom⟩
              rw [at?_cons_of_object hobject, hat]
          · exact ⟨[s], t :: rest, x, List.cons_ne_nil t rest, rfl, hx, hatom⟩
  · rintro (rfl | ⟨t, u, x, hu, rfl, hat, hatom⟩)
    · exact id
    · exact not_admits_of_atom hu hatom hat

end Members

/-! ## Drafts -/

namespace Draft

variable {d d' : Draft} {p : Path} {v : Json} {e : DraftError}

/-- A write in place that succeeds leaves what `set` says. -/
theorem write_of_set (h : d.set p v = .ok d') : d.write p v = (.ok (), d') := by
  obtain ⟨hroot, hset⟩ := set_eq_ok h
  rw [write, hroot, Members.write_of_set? hset]
  rfl

/-- **A write in place that fails** leaves the draft as it was. -/
theorem write_of_not_admits (h : ¬d.Admits p) (v : Json) :
    d.write p v = (.error (if p.isRoot then .rootPath else .notAnObject p), d) := by
  rw [write, Members.write_of_not_admits h]
  split <;> rfl

/-- What stands in the way of a write: that it is one at the root, or a value above the path. -/
theorem not_admits_iff : ¬d.Admits p ↔ p.isRoot = true ∨
    ∃ q x, p.Below q ∧ d.get? q = some x ∧ x.isAtom = true := by
  rw [Admits, Members.not_admits_iff]
  refine or_congr List.isEmpty_iff.symm ⟨?_, ?_⟩
  · rintro ⟨t, u, x, hu, hp, hat, hatom⟩
    obtain ⟨q, rfl, hbelow⟩ := Path.exists_below_of_append (Members.ne_nil_of_at? hat) hu hp
    refine ⟨q, x, hbelow, ?_, hatom⟩
    rw [get?, hat, Option.filter_some, Json.isNull_of_isAtom hatom]
    rfl
  · rintro ⟨q, x, hbelow, hget, hatom⟩
    obtain ⟨-, u, hu, hp⟩ := hbelow.exists_append
    exact ⟨q.segments, u, x, hu, hp, (Option.filter_eq_some_iff.mp hget).1, hatom⟩

/-- **A write in place is done in full or not at all.** -/
structure Atomic (d : Draft) (p : Path) (v : Json) : Prop where
  /-- A write fails at the root, and below a value that is neither null nor an object, and nowhere
  else. -/
  fails_iff : (∃ e, (d.write p v).1 = .error e) ↔ p.isRoot = true ∨
    ∃ q x, p.Below q ∧ d.get? q = some x ∧ x.isAtom = true
  /-- The error tells the two apart, and names the path of the write. -/
  error : ∀ e, (d.write p v).1 = .error e →
    e = if p.isRoot then .rootPath else .notAnObject p
  /-- A write that fails leaves the draft as it was. -/
  failed : ∀ e, (d.write p v).1 = .error e → (d.write p v).2 = d
  /-- A write succeeds where `set` does, and leaves the draft that `set` gives. -/
  stored_iff : ∀ d', d.write p v = (.ok (), d') ↔ d.set p v = .ok d'

/-- **Every write is done in full or not at all**, whatever the draft holds. -/
theorem atomic (d : Draft) (p : Path) (v : Json) : d.Atomic p v := by
  by_cases hadmits : d.Admits p
  · obtain ⟨d₀, hset⟩ := exists_set_eq_ok hadmits v
    have hwrite := write_of_set hset
    have hok : ∀ e, (d.write p v).1 ≠ .error e := fun e => by rw [hwrite]; simp
    exact {
      fails_iff := iff_of_false (fun ⟨e, he⟩ => hok e he)
        (not_admits_iff.not.mp (not_not.mpr hadmits))
      error := fun e he => absurd he (hok e)
      failed := fun e he => absurd he (hok e)
      stored_iff := fun d' => by
        rw [hwrite, hset]
        simp }
  · have hwrite := write_of_not_admits hadmits v
    exact {
      fails_iff := iff_of_true ⟨_, by rw [hwrite]⟩ (not_admits_iff.mp hadmits)
      error := fun e he => by
        rw [hwrite] at he
        exact (Except.error.inj he).symm
      failed := fun _ _ => by rw [hwrite]
      stored_iff := fun d' => iff_of_false (by rw [hwrite]; simp)
        fun hset => hadmits (admits_of_set_eq_ok hset) }

/-- A write that finds a number on its way leaves the null beside it alone. -/
theorem atomic_of_patchy :
    let p := Path.ofText "a.c.x.y"
    (patchy.write p (.bool true)).1 = .error (.notAnObject p) ∧
      (∃ q x, p.Below q ∧ patchy.get? q = some x ∧ x.isAtom = true) ∧
      (patchy.write p (.bool true)).2 = patchy := by
  intro p
  have hatomic := patchy.atomic p (.bool true)
  have hfails : (patchy.write p (.bool true)).1 = .error (.notAnObject p) := rfl
  have hroot : p.isRoot = false := rfl
  have habove := (hatomic.fails_iff.mp ⟨_, hfails⟩).resolve_left (by simp [hroot])
  exact ⟨hfails, habove, hatomic.failed _ hfails⟩

end Draft

end Interview
