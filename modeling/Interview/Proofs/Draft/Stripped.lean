import Interview.Proofs.Draft.Writes
/-
Values without their nulls.

A record is read as a draft by dropping the members that are null, at every level that objects
reach. Said for one value (`Json.Stripped`), this keeps every member that is not null in its place,
and what is no object as it is, lists with nulls in them included. Seen from a path nothing is lost:
reads hide a null at the end of a path, and nothing is read behind one, so a path holds something
after the nulls are dropped just if it did before (`Draft.get?_of_ofJson?`).

That needs the names of every object to ascend, as they do in every JSON value: behind a null member
of the same name there must be none that comes to light when the null is dropped. Reading, writing
and removing keep the names in order, so the names of every draft ascend that can come about
(`Draft.Built.ordered`).
-/

set_option autoImplicit false

namespace Interview

namespace Json

/-! ## Dropping nulls, as a relation -/

/-- The second value is the first without the members that are null, at every level that objects
reach. What is neither null nor an object is kept as a whole. -/
inductive Stripped : Json → Json → Prop
  | atom {v : Json} (whole : v.isAtom = true) : Stripped v v
  | empty : Stripped (.object []) (.object [])
  | dropped (k : String) {ms ns : Members} (rest : Stripped (.object ms) (.object ns)) :
      Stripped (.object ((k, .null) :: ms)) (.object ns)
  | kept (k : String) {v w : Json} {ms ns : Members} (value : Stripped v w)
      (rest : Stripped (.object ms) (.object ns)) :
      Stripped (.object ((k, v) :: ms)) (.object ((k, w) :: ns))

theorem withoutNulls?_of_isAtom {v : Json} (h : v.isAtom = true) : v.withoutNulls? = some v := by
  cases v with
  | null | object => exact absurd h (by simp [isAtom])
  | bool | int | float | text | list => rfl

/-- Null is all that is left out as a whole. -/
theorem withoutNulls?_eq_none_iff {v : Json} : v.withoutNulls? = none ↔ v = .null := by
  cases v <;> simp [withoutNulls?]

/-- Only an object is left as an object. -/
theorem exists_object_of_withoutNulls? {v : Json} {ns : Members}
    (h : v.withoutNulls? = some (.object ns)) :
    ∃ ms, v = .object ms ∧ ns = membersWithoutNulls ms := by
  cases v with
  | object ms => exact ⟨ms, rfl, (object.inj (Option.some.inj h)).symm⟩
  | null | bool | int | float | text | list => exact absurd h (by simp [withoutNulls?])

theorem withoutNulls?_of_stripped {v w : Json} (h : Stripped v w) : v.withoutNulls? = some w := by
  induction h with
  | atom whole => exact withoutNulls?_of_isAtom whole
  | empty => rfl
  | dropped k _ ih =>
      rw [withoutNulls?] at ih ⊢
      exact ih
  | kept k _ _ ihv ih =>
      rw [withoutNulls?, Option.some.injEq, object.injEq] at ih
      rw [withoutNulls?, membersWithoutNulls, ihv, ih]

mutual

theorem stripped_of_withoutNulls? : ∀ {v w : Json}, v.withoutNulls? = some w → Stripped v w
  | .null, _, h => by simp [withoutNulls?] at h
  | .object ms, w, h => by
      rw [withoutNulls?, Option.some.injEq] at h
      exact h ▸ stripped_membersWithoutNulls ms
  | .bool _, _, h | .int _, _, h | .float _, _, h | .text _, _, h | .list _, _, h => by
      simp only [withoutNulls?, Option.some.injEq] at h
      exact h ▸ .atom rfl

theorem stripped_membersWithoutNulls : ∀ ms : Members,
    Stripped (.object ms) (.object (membersWithoutNulls ms))
  | [] => .empty
  | (k, v) :: ms => by
      rw [membersWithoutNulls]
      cases hv : v.withoutNulls? with
      | none =>
          -- a member that is left out was null itself
          obtain rfl := withoutNulls?_eq_none_iff.mp hv
          exact .dropped k (stripped_membersWithoutNulls ms)
      | some w => exact .kept k (stripped_of_withoutNulls? hv) (stripped_membersWithoutNulls ms)

end

/-- **Dropping nulls** is what the relation says. -/
theorem withoutNulls?_eq_some_iff {v w : Json} : v.withoutNulls? = some w ↔ Stripped v w :=
  ⟨stripped_of_withoutNulls?, withoutNulls?_of_stripped⟩

/-- Dropping nulls leaves something just where there is something that is not null. -/
theorem isSome_bind_withoutNulls? {o : Option Json} (h : o ≠ some .null) :
    (o.bind withoutNulls?).isSome = o.isSome := by
  cases o with
  | none => rfl
  | some v =>
      have hv : v ≠ .null := fun hv => h (congrArg some hv)
      rw [Option.bind_some, Option.isSome_some, Option.isSome_iff_ne_none]
      exact withoutNulls?_eq_none_iff.not.mpr hv

/-- A null is left out whether it is hidden before the nulls are dropped or after that. -/
theorem filter_bind_withoutNulls? (o : Option Json) :
    (o.bind withoutNulls?).filter (fun v => !v.isNull) =
      (o.filter fun v => !v.isNull).bind withoutNulls? := by
  cases o with
  | none => rfl
  | some v => cases v <;> rfl

/-- What is read in a value is never null. -/
theorem get?_ne_null (v : Json) (p : Path) : v.get? p ≠ some .null := by
  intro hnull
  exact absurd (Option.filter_eq_some_iff.mp hnull).2 (by simp [isNull])

/-- What is read in an object behind the root is read in its members. -/
theorem get?_object {ms : Members} {p : Path} (hp : p.isRoot = false) :
    (object ms).get? p = (Draft.mk ms).get? p := by
  obtain ⟨s, rest, hsegments⟩ := List.exists_cons_of_ne_nil (Path.segments_ne_nil hp)
  rw [get?, Draft.get?, hsegments]
  rfl

/-! ## Values in order -/

theorem orderedMembers_iff {ms : Members} : OrderedMembers ms ↔ ∀ m ∈ ms, Ordered m.2 := by
  induction ms with
  | nil => exact iff_of_true trivial fun m hm => absurd hm List.not_mem_nil
  | cons m ms ih => rw [OrderedMembers, ih, List.forall_mem_cons]

theorem Ordered.put {ms : Members} {v : Json} (h : Ordered (.object ms)) (k : String)
    (hv : v.Ordered) : Ordered (.object (ms.put k v)) := by
  refine ⟨h.1.put k v, orderedMembers_iff.mpr fun m hm => ?_⟩
  rcases Members.eq_or_mem_of_mem_put hm with rfl | hm
  · exact hv
  · exact orderedMembers_iff.mp h.2 m hm

theorem Ordered.erase {ms : Members} (h : Ordered (.object ms)) (k : String) :
    Ordered (.object (ms.erase k)) :=
  ⟨h.1.erase k, orderedMembers_iff.mpr fun m hm =>
    orderedMembers_iff.mp h.2 m ((Members.erase_sublist k ms).mem hm)⟩

theorem Ordered.set? {p : List String} {v : Json} (hv : v.Ordered) : ∀ {ms ms' : Members},
    Ordered (.object ms) → ms.set? v p = some ms' → Ordered (.object ms') := by
  induction p with
  | nil => exact fun _ h => absurd h (by simp [Members.set?])
  | cons s rest ih =>
      intro ms ms' hms h
      rcases rest with _ | ⟨t, rest⟩
      · rw [Members.set?, Option.some.injEq] at h
        exact h ▸ hms.put s hv
      · obtain ⟨inner, inner', hset, rfl, hs⟩ := Members.set?_cons_eq_some h
        have hinner : Ordered (.object inner) := by
          rcases hs with hs | ⟨rfl, -⟩
          · exact hms.2.find? hs
          · exact ⟨Members.ascending_nil, trivial⟩
        exact hms.put s (ih hinner hset)

theorem Ordered.remove {p : List String} : ∀ {ms : Members},
    Ordered (.object ms) → Ordered (.object (ms.remove p).2) := by
  induction p with
  | nil => exact fun hms => hms
  | cons s rest ih =>
      intro ms hms
      rcases rest with _ | ⟨t, rest⟩
      · exact hms.erase s
      · rcases Members.remove_cons ms s t rest with ⟨hsame, -⟩ | ⟨inner, v, inner', hs, hr, heq⟩
        · rwa [hsame]
        · rw [heq]
          split
          · exact hms.erase s
          · have hinner := ih (hms.2.find? hs)
            rw [hr] at hinner
            exact hms.put s hinner

end Json

namespace Draft

variable {d : Draft} {v : Json} {p : Path}

/-! ## The drafts that can come about -/

/-- What reading records, writing values and removing them can leave, writes that fail included. -/
inductive Built : Draft → Prop
  | read {v : Json} {d : Draft} (value : v.Ordered) (h : ofJson? v = .ok d) : Built d
  | written {d : Draft} (h : Built d) (p : Path) {v : Json} (value : v.Ordered) :
      Built (d.write p v).2
  | removed {d : Draft} (h : Built d) (p : Path) : Built (d.remove p).2

/-- **The names of every draft ascend**, at every level. -/
theorem Built.ordered (h : d.Built) : d.toJson.Ordered := by
  induction h with
  | read value h => exact (plain_of_ofJson? value h).ordered
  | removed h p ih => exact Json.Ordered.remove ih
  | @written d h p v value ih =>
      -- a write that fails leaves the draft as it was
      by_cases hadmits : d.Admits p
      · obtain ⟨d', hset⟩ := exists_set_eq_ok hadmits v
        rw [write_of_set hset]
        exact Json.Ordered.set? value ih (set_eq_ok hset).2
      · rwa [write_of_not_admits hadmits]

/-! ## Reading records -/

theorem ofJson?_of_isAtom (h : v.isAtom = true) :
    ofJson? v = .error (.invalidRoot v.kindName) := by
  cases v with
  | null | object => exact absurd h (by simp [Json.isAtom])
  | bool | int | float | text | list => rfl

theorem nullFree_of_ofJson? (h : ofJson? v = .ok d) : Json.NullFreeMembers d.members := by
  rcases ofJson?_eq_ok h with ⟨-, rfl⟩ | hv
  · trivial
  · exact Json.nullFree_of_withoutNulls? hv

/-- A draft without nulls is read as it is. -/
theorem ofJson?_toJson (h : Json.NullFreeMembers d.members) : ofJson? d.toJson = .ok d := by
  have hkept := Json.membersWithoutNulls_of_nullFree h
  rw [toJson, ofJson?, Json.withoutNulls?, hkept]

/-- **What a draft holds that was read from a record**: what the record holds there, without its
nulls. -/
theorem get?_of_ofJson? (hv : v.Ordered) (h : ofJson? v = .ok d) (hp : p.isRoot = false) :
    d.get? p = (v.get? p).bind Json.withoutNulls? := by
  rcases ofJson?_eq_ok h with ⟨rfl, rfl⟩ | hstripped
  · -- in null and in the empty draft nothing is read behind the root
    obtain ⟨s, rest, hsegments⟩ := List.exists_cons_of_ne_nil (Path.segments_ne_nil hp)
    rw [get?, Json.get?, hsegments, show empty.members = [] from rfl, Members.at?_empty]
    rfl
  · obtain ⟨ms, rfl, hmembers⟩ := Json.exists_object_of_withoutNulls? hstripped
    have hread : Members.at? (Json.membersWithoutNulls ms) p.segments =
        (Members.at? ms p.segments).bind Json.withoutNulls? :=
      Members.at?_membersWithoutNulls (Members.ascendsAlong_of_ordered hv.1 hv.2)
    rw [Json.get?_object hp, get?, get?, hmembers, hread, Json.filter_bind_withoutNulls?]

/-- No draft contains the root. -/
theorem contains_of_isRoot (d : Draft) (hp : p.isRoot = true) : d.contains p = false := by
  rw [contains, get?, List.isEmpty_iff.mp hp]
  rfl

/-- A draft that was read from a record holds something just where the record does. -/
theorem contains_of_ofJson? (hv : v.Ordered) (h : ofJson? v = .ok d) (hp : p.isRoot = false) :
    d.contains p = (v.get? p).isSome := by
  rw [contains, get?_of_ofJson? hv h hp, Json.isSome_bind_withoutNulls? (v.get?_ne_null p)]

/-- **Reading a record as a draft.** -/
structure ReadsStripped (v : Json) : Prop where
  /-- What is neither null nor an object is refused, and the error names its kind. -/
  refused_iff : ∀ e, ofJson? v = .error e ↔ v.isAtom = true ∧ e = .invalidRoot v.kindName
  /-- No member is null, at any level that objects reach. -/
  nullFree : ∀ d, ofJson? v = .ok d → Json.NullFreeMembers d.members
  /-- The draft contains a path just if the record holds something there that is not null. -/
  contains_iff : ∀ d, ofJson? v = .ok d → ∀ p, p.isRoot = false →
    (d.contains p = true ↔ ∃ u, v.get? p = some u)
  /-- What it holds there is what the record holds, without its null members. -/
  holds : ∀ d, ofJson? v = .ok d → ∀ p, p.isRoot = false → ∀ u, v.get? p = some u →
    ∃ w, d.get? p = some w ∧ u.Stripped w
  /-- The draft is read as itself. -/
  again : ∀ d, ofJson? v = .ok d → ofJson? d.toJson = .ok d

/-- **Reading a record drops its nulls and nothing else.** -/
theorem readsStripped_of_ordered (hv : v.Ordered) : ReadsStripped v where
  refused_iff e := by
    constructor
    · intro h
      have hatom : v.isAtom = true := by
        cases v with
        | null | object => exact absurd h (by simp [ofJson?, Json.withoutNulls?])
        | bool | int | float | text | list => rfl
      rw [ofJson?_of_isAtom hatom] at h
      exact ⟨hatom, (Except.error.inj h).symm⟩
    · rintro ⟨hatom, rfl⟩
      exact ofJson?_of_isAtom hatom
  nullFree _ h := nullFree_of_ofJson? h
  contains_iff d h p hp := by
    rw [contains_of_ofJson? hv h hp, Option.isSome_iff_exists]
  holds d h p hp u hu := by
    have hget := get?_of_ofJson? hv h hp
    have hsome := Json.isSome_bind_withoutNulls? (v.get?_ne_null p)
    rw [hu, Option.isSome_some, Option.isSome_iff_exists] at hsome
    obtain ⟨w, hw⟩ := hsome
    exact ⟨w, by rw [hget, hu, hw], Json.withoutNulls?_eq_some_iff.mp hw⟩
  again _ h := ofJson?_toJson (nullFree_of_ofJson? h)

/-- A draft that is read again contains the same paths, also where it holds nulls. -/
theorem contains_of_ofJson?_toJson (hd : d.toJson.Ordered) :
    ∃ d', ofJson? d.toJson = .ok d' ∧ ∀ p, d'.contains p = d.contains p := by
  refine ⟨⟨Json.membersWithoutNulls d.members⟩, rfl, fun p => ?_⟩
  cases hp : p.isRoot with
  | true => rw [contains_of_isRoot _ hp, contains_of_isRoot _ hp]
  | false => rw [contains_of_ofJson? hd rfl hp, toJson, Json.get?_object hp, contains]

/-- **Every record is read without its nulls**, and every draft, read again, contains what it
contained. -/
theorem readsStripped : (∀ v : Json, v.Ordered → ReadsStripped v) ∧
    ∀ s : Draft, s.Built → ∃ d, ofJson? s.toJson = .ok d ∧ ∀ p, d.contains p = s.contains p :=
  ⟨fun _ hv => readsStripped_of_ordered hv, fun _ hs => contains_of_ofJson?_toJson hs.ordered⟩

/-- A record with nulls at two levels, and one in a list. -/
def holed : Json :=
  .object [("a", .object [("b", .null), ("c", .list [.null])]), ("d", .null),
    ("e", .object [("f", .null)])]

/-- The null in the list stays, and so does an object that is left empty. A null that is written
afterwards does not count as something that the draft contains. -/
theorem readsStripped_of_holed :
    let d : Draft := ⟨[("a", .object [("c", .list [.null])]), ("e", .object [])]⟩
    let s := (d.write (.ofText "a.b") .null).2
    holed.Ordered ∧ ofJson? holed = .ok d ∧ Json.NullFreeMembers d.members ∧
      (∃ w, d.get? (.ofText "a") = some w ∧
        (Json.object [("b", .null), ("c", .list [.null])]).Stripped w) ∧
      d.contains (.ofText "e") = true ∧ d.contains (.ofText "a.b") = false ∧
      ofJson? d.toJson = .ok d ∧ s.Built ∧
      ∃ d', ofJson? s.toJson = .ok d' ∧ ∀ p, d'.contains p = s.contains p := by
  intro d s
  have hordered : holed.Ordered := by
    have hnames : "a" < "d" ∧ "a" < "e" ∧ "d" < "e" ∧ "b" < "c" := by decide
    simpa [holed, Json.Ordered, Json.OrderedMembers, Json.OrderedList, Members.Ascending,
      and_assoc] using hnames
  have hread : ofJson? holed = .ok d := rfl
  have hnull : holed.get? (.ofText "a.b") = none := rfl
  have hstripped := readsStripped.1 holed hordered
  have hbuilt : s.Built := .written (.read hordered hread) _ trivial
  refine ⟨hordered, hread, hstripped.nullFree d hread, hstripped.holds d hread _ rfl _ rfl,
    (hstripped.contains_iff d hread _ rfl).mpr ⟨_, rfl⟩, ?_, hstripped.again d hread, hbuilt,
    readsStripped.2 s hbuilt⟩
  rw [← Bool.not_eq_true, hstripped.contains_iff d hread _ rfl, hnull]
  simp

end Draft

end Interview
