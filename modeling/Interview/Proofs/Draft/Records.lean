import Interview.Proofs.Draft.Undo
/-
Drafts read from records.

A form that is asked as one question starts from what the outer draft has at its path, and is
offered what an earlier run of it came to. Both are read from records, and reading a record drops
its nulls. What is read has no null left, and its names ascend if those of the record do
(`Draft.plain_of_ofJson?`); a value without nulls is read as it is.

Reading also commutes with looking something up, provided that the names along the path ascend:
then no second member hides behind a null one that is dropped. Since writes and removals keep the
names along a path in order, whatever the answers themselves look like inside, this is enough to
know of a draft in the middle of a run.
-/

set_option autoImplicit false

namespace Interview

/-! ## Values without nulls -/

namespace Json

mutual

/-- No null, at any level that objects reach. -/
def NullFree : Json → Prop
  | .null => False
  | .object ms => NullFreeMembers ms
  | _ => True

/-- Every member's value is free of nulls. -/
def NullFreeMembers : Members → Prop
  | [] => True
  | (_, v) :: ms => NullFree v ∧ NullFreeMembers ms

end

theorem NullFreeMembers.find? {s : String} {v : Json} : ∀ {ms : Members},
    NullFreeMembers ms → Members.find? s ms = some v → NullFree v
  | [], _, h => absurd h (by simp [Members.find?])
  | (l, w) :: ms, hms, h => by
      obtain ⟨hw, hrest⟩ := hms
      by_cases hl : l = s
      · rw [Members.find?, if_pos hl, Option.some.injEq] at h
        exact h ▸ hw
      · rw [Members.find?, if_neg hl] at h
        exact NullFreeMembers.find? hrest h

mutual

/-- A solid value is free of nulls. -/
theorem Solid.nullFree : ∀ {v : Json}, v.Solid → v.NullFree
  | .null, h => h
  | .object _, h => SolidMembers.nullFree h.2
  | .bool _, _ | .int _, _ | .float _, _ | .text _, _ | .list _, _ => trivial

theorem SolidMembers.nullFree : ∀ {ms : Members}, SolidMembers ms → NullFreeMembers ms
  | [], _ => trivial
  | (_, _) :: _, h => ⟨Solid.nullFree h.1, SolidMembers.nullFree h.2⟩

end

mutual

/-- A value without nulls is read as it is. -/
theorem withoutNulls?_of_nullFree : ∀ {v : Json}, v.NullFree → v.withoutNulls? = some v
  | .null, h => h.elim
  | .object ms, h => by
      have hms : NullFreeMembers ms := h
      rw [withoutNulls?, membersWithoutNulls_of_nullFree hms]
  | .bool _, _ | .int _, _ | .float _, _ | .text _, _ | .list _, _ => rfl

theorem membersWithoutNulls_of_nullFree : ∀ {ms : Members},
    NullFreeMembers ms → membersWithoutNulls ms = ms
  | [], _ => rfl
  | (k, v) :: ms, h => by
      rw [membersWithoutNulls, withoutNulls?_of_nullFree h.1, membersWithoutNulls_of_nullFree h.2]

end

mutual

/-- No null is left when the nulls are dropped. -/
theorem nullFree_of_withoutNulls? : ∀ {v v' : Json}, v.withoutNulls? = some v' → v'.NullFree
  | .null, _, h => by simp [withoutNulls?] at h
  | .object ms, _, h => by
      rw [withoutNulls?, Option.some.injEq] at h
      exact h ▸ nullFree_membersWithoutNulls ms
  | .bool _, _, h | .int _, _, h | .float _, _, h | .text _, _, h | .list _, _, h => by
      simp only [withoutNulls?, Option.some.injEq] at h
      exact h ▸ trivial

theorem nullFree_membersWithoutNulls : ∀ ms : Members, NullFreeMembers (membersWithoutNulls ms)
  | [] => trivial
  | (k, v) :: ms => by
      rw [membersWithoutNulls]
      cases hv : v.withoutNulls? with
      | none => exact nullFree_membersWithoutNulls ms
      | some v' => exact ⟨nullFree_of_withoutNulls? hv, nullFree_membersWithoutNulls ms⟩

end

/-- A member that is left has the name of a member that was there. -/
theorem name_of_mem_membersWithoutNulls {ms : Members} {m : String × Json}
    (h : m ∈ membersWithoutNulls ms) : ∃ n ∈ ms, n.1 = m.1 := by
  induction ms with
  | nil => exact absurd h List.not_mem_nil
  | cons n ms ih =>
      obtain ⟨k, v⟩ := n
      have hrest : m ∈ membersWithoutNulls ms → ∃ n ∈ (k, v) :: ms, n.1 = m.1 := fun hmem =>
        let ⟨n, hn, hname⟩ := ih hmem
        ⟨n, List.mem_cons_of_mem _ hn, hname⟩
      rw [membersWithoutNulls] at h
      cases hv : v.withoutNulls? with
      | none =>
          rw [hv] at h
          exact hrest h
      | some v' =>
          rw [hv] at h
          rcases List.mem_cons.mp h with rfl | h
          · exact ⟨(k, v), List.mem_cons_self, rfl⟩
          · exact hrest h

theorem ascending_membersWithoutNulls {ms : Members} (h : ms.Ascending) :
    (membersWithoutNulls ms).Ascending := by
  induction ms with
  | nil => exact h
  | cons m ms ih =>
      obtain ⟨k, v⟩ := m
      obtain ⟨hlt, hms⟩ := Members.ascending_cons.mp h
      rw [membersWithoutNulls]
      cases v.withoutNulls? with
      | none => exact ih hms
      | some v' =>
          refine Members.ascending_cons.mpr ⟨fun n hn => ?_, ih hms⟩
          obtain ⟨n', hn', hname⟩ := name_of_mem_membersWithoutNulls hn
          exact hname ▸ hlt n' hn'

mutual

/-- Dropping nulls leaves the names in order. -/
theorem Ordered.withoutNulls? : ∀ {v v' : Json},
    v.Ordered → v.withoutNulls? = some v' → v'.Ordered
  | .null, _, _, h => by simp [Json.withoutNulls?] at h
  | .object _, _, hord, h => by
      rw [Json.withoutNulls?, Option.some.injEq] at h
      exact h ▸ ⟨ascending_membersWithoutNulls hord.1, OrderedMembers.withoutNulls hord.2⟩
  | .bool _, _, hord, h | .int _, _, hord, h | .float _, _, hord, h | .text _, _, hord, h
  | .list _, _, hord, h => by
      simp only [Json.withoutNulls?, Option.some.injEq] at h
      exact h ▸ hord

theorem OrderedMembers.withoutNulls : ∀ {ms : Members},
    OrderedMembers ms → OrderedMembers (membersWithoutNulls ms)
  | [], _ => trivial
  | (k, v) :: ms, h => by
      rw [membersWithoutNulls]
      cases hv : v.withoutNulls? with
      | none => exact OrderedMembers.withoutNulls h.2
      | some v' => exact ⟨Ordered.withoutNulls? h.1 hv, OrderedMembers.withoutNulls h.2⟩

end

end Json

namespace Members

/-- What every value has that is a member of one that has it, the value at the end of a path
has. -/
theorem of_at?_eq_some {P : Json → Prop} {p : List String} {ms : Members} {v : Json}
    (hobject : ∀ ms, P (.object ms) → ∀ s v, find? s ms = some v → P v)
    (hms : ∀ s v, find? s ms = some v → P v) (h : ms.at? p = some v) : P v := by
  induction p generalizing ms with
  | nil => exact absurd h (by simp [at?])
  | cons s rest ih =>
      rcases rest with _ | ⟨t, rest⟩
      · exact hms s v h
      · obtain ⟨inner, hs, hat⟩ := at?_cons_eq_some.mp h
        exact ih (hobject inner (hms s _ hs)) hat

/-! ## Names along a path -/

/-- The names of every object along the path ascend. -/
def AscendsAlong (ms : Members) : List String → Prop
  | [] => True
  | s :: rest => ms.Ascending ∧ ∀ inner, find? s ms = some (.object inner) → AscendsAlong inner rest

theorem ascendsAlong_of_ordered {p : List String} : ∀ {ms : Members},
    ms.Ascending → Json.OrderedMembers ms → ms.AscendsAlong p := by
  induction p with
  | nil => exact fun _ _ => trivial
  | cons s rest ih =>
      intro ms hasc hord
      refine ⟨hasc, fun inner hs => ?_⟩
      obtain ⟨hasc', hord'⟩ := hord.find? hs
      exact ih hasc' hord'

theorem ascendsAlong_nil (p : List String) : AscendsAlong [] p :=
  ascendsAlong_of_ordered ascending_nil trivial

/-- A write keeps the names in order along its own path and along every path apart from it. -/
theorem AscendsAlong.set? {p : List String} : ∀ {q : List String} {ms ms' : Members} {v : Json},
    ms.AscendsAlong q → p = q ∨ Apart p q → ms.set? v p = some ms' → ms'.AscendsAlong q := by
  induction p with
  | nil =>
      intro q ms ms' v _ _ hset
      exact absurd hset (by simp [Members.set?])
  | cons s rest ih =>
      intro q ms ms' v h hpq hset
      rcases q with _ | ⟨u, us⟩
      · trivial
      · obtain ⟨hasc, hinner⟩ := h
        obtain ⟨w, rfl⟩ := exists_put_of_set? hset
        refine ⟨hasc.put s w, fun inner' hu => ?_⟩
        by_cases hus : u = s
        · subst hus
          rcases rest with _ | ⟨t, rest⟩
          · -- the write ends here, so the other path ends here too
            rcases hpq with heq | happart
            · obtain rfl : us = [] := by simpa using heq.symm
              trivial
            · exact absurd (apart_cons_self.mp happart) (not_apart_nil us)
          · obtain ⟨inner, inner₂, hset₂, hput, hs⟩ := set?_cons_eq_some hset
            have hfind : find? u (ms.put u w) = some (.object inner₂) := by
              rw [hput, find?_put_self]
            rw [hfind, Option.some.injEq, Json.object.injEq] at hu
            have hpq' : t :: rest = us ∨ Apart (t :: rest) us := by
              rcases hpq with heq | happart
              · exact Or.inl (List.cons.inj heq).2
              · exact Or.inr (apart_cons_self.mp happart)
            refine hu ▸ ih ?_ hpq' hset₂
            rcases hs with hs | ⟨rfl, -⟩
            · exact hinner inner hs
            · exact ascendsAlong_nil us
        · rw [find?_put_of_ne hus] at hu
          exact hinner inner' hu

/-- A removal keeps the names in order along every path. -/
theorem AscendsAlong.remove (p : List String) : ∀ {q : List String} {ms : Members},
    ms.AscendsAlong q → (ms.remove p).2.AscendsAlong q := by
  induction p with
  | nil => exact fun h => h
  | cons s rest ih =>
      intro q ms h
      match q, h with
      | [], _ => trivial
      | u :: us, ⟨hasc, hinner⟩ =>
          rcases rest with _ | ⟨t, rest⟩
          · refine ⟨hasc.erase s, fun inner hu => ?_⟩
            by_cases hus : u = s
            · rw [hus, show (ms.remove [s]).2 = ms.erase s from rfl, find?_erase_self] at hu
              exact absurd hu (by simp)
            · rw [show (ms.remove [s]).2 = ms.erase s from rfl, find?_erase_of_ne hus] at hu
              exact hinner inner hu
          · rcases remove_cons ms s t rest with ⟨hsame, -⟩ | ⟨inner, v, inner₂, hs, hr, heq⟩
            · rw [hsame]
              exact ⟨hasc, hinner⟩
            · have hkept : ∀ inner', find? s ms = some (.object inner') → inner' = inner := by
                intro inner' hs'
                rw [hs, Option.some.injEq, Json.object.injEq] at hs'
                exact hs'.symm
              rw [heq]
              split
              · -- the object was left empty, and it goes as well
                refine ⟨hasc.erase s, fun inner' hu => ?_⟩
                by_cases hus : u = s
                · rw [hus, find?_erase_self] at hu
                  exact absurd hu (by simp)
                · rw [find?_erase_of_ne hus] at hu
                  exact hinner inner' hu
              · -- the object stays, with what the removal left in it
                refine ⟨hasc.put s _, fun inner' hu => ?_⟩
                by_cases hus : u = s
                · rw [hus, find?_put_self, Option.some.injEq, Json.object.injEq] at hu
                  have hrest := ih (hinner inner (hus ▸ hs))
                  rw [hr] at hrest
                  exact hu ▸ hrest
                · rw [find?_put_of_ne hus] at hu
                  exact hinner inner' hu

/-- A path along which the names ascend is tidy if it ends in a value. -/
theorem AscendsAlong.tidy {p : List String} {v : Json} (hv : v ≠ .null) : ∀ {ms : Members},
    ms.AscendsAlong p → ms.at? p = some v → ms.Tidy p := by
  induction p with
  | nil => exact fun _ _ => trivial
  | cons s rest ih =>
      rintro ms ⟨hasc, hinner⟩ hat
      rcases rest with _ | ⟨t, rest⟩
      · rw [at?_singleton] at hat
        refine ⟨hasc, fun hnull => hv ?_⟩
        rw [hat, Option.some.injEq] at hnull
        exact hnull
      · obtain ⟨inner, hs, hat'⟩ := at?_cons_eq_some.mp hat
        refine tidy_cons hasc (by rw [hs]; simp) fun inner' hs' => ?_
        rw [hs, Option.some.injEq, Json.object.injEq] at hs'
        rw [← hs']
        refine ⟨fun hnil => ?_, ih (hinner inner hs) hat'⟩
        -- an empty object has nothing at the rest of the path
        rw [hnil, at?_empty] at hat'
        exact absurd hat' (by simp)

/-! ## Dropping nulls and looking up -/

theorem find?_membersWithoutNulls {ms : Members} (h : ms.Ascending) (s : String) :
    find? s (Json.membersWithoutNulls ms) = (find? s ms).bind Json.withoutNulls? := by
  induction ms with
  | nil => rfl
  | cons m ms ih =>
      obtain ⟨k, v⟩ := m
      obtain ⟨hlt, hms⟩ := ascending_cons.mp h
      rw [Json.membersWithoutNulls]
      by_cases hk : k = s
      · -- the names ascend, so a name that is dropped with its null does not come again
        subst hk
        rw [find?, if_pos rfl, Option.bind_some]
        cases hv : v.withoutNulls? with
        | none => rw [ih hms, find?_eq_none_of_forall_lt hlt, Option.bind_none]
        | some v' => rw [find?, if_pos rfl]
      · rw [find?, if_neg hk]
        cases v.withoutNulls? with
        | none => exact ih hms
        | some v' => rw [find?, if_neg hk, ih hms]

/-- What is read at a path after the nulls were dropped is what was read there, without its
nulls. -/
theorem at?_membersWithoutNulls {p : List String} : ∀ {ms : Members}, ms.AscendsAlong p →
    at? (Json.membersWithoutNulls ms) p = (ms.at? p).bind Json.withoutNulls? := by
  induction p with
  | nil => exact fun _ => rfl
  | cons s rest ih =>
      rintro ms ⟨hasc, hinner⟩
      have hfind := find?_membersWithoutNulls hasc s
      rcases rest with _ | ⟨t, rest⟩
      · exact hfind
      · rw [at?, at?, hfind]
        · cases hs : find? s ms with
          | none => rfl
          | some v =>
              cases v with
              | object inner => exact ih (hinner inner hs)
              | _ => rfl
        · simp
        · simp

/-- A free path stays free when nulls are dropped. -/
theorem Admits.withoutNulls {p : List String} : ∀ {ms : Members},
    ms.Admits p → ms.AscendsAlong p → (Json.membersWithoutNulls ms).Admits p := by
  induction p with
  | nil => exact fun h _ => absurd h (by simp [Admits])
  | cons s rest ih =>
      rintro ms h ⟨hasc, hinner⟩
      rcases rest with _ | ⟨t, rest⟩
      · trivial
      · have hfind := find?_membersWithoutNulls hasc s
        rcases admits_cons.mp h with hs | hs | ⟨inner, hs, hadmits⟩
        · exact admits_cons.mpr (Or.inl (by rw [hfind, hs]; rfl))
        · exact admits_cons.mpr (Or.inl (by rw [hfind, hs]; rfl))
        · refine admits_cons.mpr (Or.inr (Or.inr ⟨_, by rw [hfind, hs]; rfl, ?_⟩))
          exact ih hadmits (hinner inner hs)

end Members

/-! ## Plain drafts -/

namespace Draft

variable {d d' initial : Draft} {p q : Path}

/-- A draft with its names in order and without nulls. -/
structure Plain (d : Draft) : Prop where
  ordered : d.toJson.Ordered
  nullFree : Json.NullFreeMembers d.members

theorem plain_empty : empty.Plain :=
  ⟨⟨Members.ascending_nil, trivial⟩, trivial⟩

theorem Neat.plain (h : d.Neat) : d.Plain :=
  ⟨h.ordered, h.solid.nullFree⟩

/-- The draft that a record is read as has the members of the record that are not null. -/
theorem ofJson?_eq_ok {v : Json} (h : ofJson? v = .ok d) :
    (v = .null ∧ d = empty) ∨ v.withoutNulls? = some d.toJson := by
  unfold ofJson? at h
  split at h
  · rename_i hv
    refine Or.inl ⟨?_, (Except.ok.inj h).symm⟩
    cases v with
    | null => rfl
    | _ => simp [Json.withoutNulls?] at hv
  · rename_i ms hv
    exact Or.inr (by rw [hv, ← Except.ok.inj h, toJson])
  · exact absurd h (by simp)

/-- **Every draft that is read from a record is plain.** -/
theorem plain_of_ofJson? {v : Json} (hv : v.Ordered) (h : ofJson? v = .ok d) : d.Plain := by
  rcases ofJson?_eq_ok h with ⟨-, rfl⟩ | h
  · exact plain_empty
  · exact ⟨hv.withoutNulls? h, Json.nullFree_of_withoutNulls? h⟩

/-- A record without nulls and empty objects is read as a neat draft. -/
theorem neat_of_ofJson? {v : Json} (hord : v.Ordered) (hsolid : v.Solid) (h : ofJson? v = .ok d) :
    d.Neat := by
  rcases ofJson?_eq_ok h with ⟨-, rfl⟩ | h
  · exact neat_empty
  · rw [Json.withoutNulls?_of_nullFree hsolid.nullFree, Option.some.injEq] at h
    rw [h] at hord hsolid
    exact ⟨hord, hsolid.2⟩

/-- What a plain draft has at a path is in order and free of nulls. -/
theorem Plain.of_at?_eq_some (h : d.Plain) {v : Json} {p : List String}
    (hat : d.members.at? p = some v) : v.Ordered ∧ v.NullFree :=
  ⟨Members.of_at?_eq_some (fun _ hms _ _ => hms.2.find?) (fun _ _ => h.ordered.2.find?) hat,
    Members.of_at?_eq_some (P := Json.NullFree) (fun _ hms _ _ => hms.find?)
      (fun _ _ => h.nullFree.find?) hat⟩

/-- A plain draft reads null nowhere. -/
theorem Plain.at?_ne_null (h : d.Plain) (p : List String) : d.members.at? p ≠ some .null :=
  fun hat => (h.of_at?_eq_some hat).2

/-- What a neat draft has at a path is solid. -/
theorem Neat.of_at?_eq_some (h : d.Neat) {v : Json} {p : List String}
    (hat : d.members.at? p = some v) : v.Ordered ∧ v.Solid :=
  ⟨(h.plain.of_at?_eq_some hat).1,
    Members.of_at?_eq_some (P := Json.Solid) (fun _ hms _ _ => hms.2.find?)
      (fun _ _ => h.solid.find?) hat⟩

/-- The names along the path ascend. -/
def AscendsAlong (d : Draft) (p : Path) : Prop :=
  d.members.AscendsAlong p.segments

theorem ascendsAlong_of_ordered (h : d.toJson.Ordered) (p : Path) : d.AscendsAlong p :=
  Members.ascendsAlong_of_ordered h.1 h.2

theorem AscendsAlong.remove (h : d.AscendsAlong q) : (d.remove p).2.AscendsAlong q :=
  Members.AscendsAlong.remove p.segments h

theorem AscendsAlong.set (h : d.AscendsAlong q) (hpq : p = q ∨ Apart p.segments q.segments)
    {v : Json} (hset : d.set p v = .ok d') : d'.AscendsAlong q :=
  Members.AscendsAlong.set? h (hpq.imp_left (congrArg Path.segments)) (set_eq_ok hset).2

/-- A removal does not free another path, nor its own. -/
theorem Admits.of_remove (hpq : p = q ∨ Apart p.segments q.segments)
    (h : (d.remove p).2.Admits q) : d.Admits q := by
  rcases hpq with rfl | hpq
  · cases hat : d.members.at? p.segments with
    | none =>
        have hsame : (d.remove p).2 = d :=
          congrArg Draft.mk (Members.remove_of_at?_eq_none hat)
        rwa [hsame] at h
    | some v => exact Members.admits_of_at?_eq_some hat
  · exact Members.Admits.of_remove hpq h

/-- A reset does not free a path. -/
theorem Admits.of_reset (hpq : p = q ∨ Apart p.segments q.segments)
    (hreset : Run.reset initial p d = .ok d') (h : d'.Admits q) : d.Admits q := by
  unfold Run.reset at hreset
  split at hreset
  · exact (h.of_set hpq hreset).of_remove hpq
  · rw [Except.ok.injEq] at hreset
    exact (hreset ▸ h).of_remove hpq

/-- A reset keeps the names along a path in order, as a removal and a write do. -/
theorem AscendsAlong.reset (h : d.AscendsAlong q) (hpq : p = q ∨ Apart p.segments q.segments)
    (hreset : Run.reset initial p d = .ok d') : d'.AscendsAlong q := by
  unfold Run.reset at hreset
  split at hreset
  · exact h.remove.set hpq hreset
  · rw [Except.ok.injEq] at hreset
    exact hreset ▸ h.remove

/-- Where a draft does not have null, what it has is what is read. -/
theorem get?_eq_at? (h : d.members.at? p.segments ≠ some .null) :
    d.get? p = d.members.at? p.segments := by
  rw [get?]
  cases hat : d.members.at? p.segments with
  | none => rfl
  | some v =>
      cases v with
      | null => exact absurd hat h
      | _ => rfl

/-- **A reset of a field without an answer changes nothing**, also where objects are empty. -/
theorem reset_of_at?_eq (hnull : initial.members.at? p.segments ≠ some .null)
    (hasc : d.AscendsAlong p)
    (hat : d.members.at? p.segments = initial.members.at? p.segments) :
    Run.reset initial p d = .ok d := by
  cases hv : d.members.at? p.segments with
  | some v => exact reset_self (hasc.tidy (fun hv' => hnull (hv' ▸ hat ▸ hv)) hv) hat
  | none =>
      have hget : initial.get? p = none := by rw [get?_eq_at? hnull, ← hat, hv]
      rw [Run.reset, hget]
      exact congrArg Except.ok (congrArg Draft.mk (Members.remove_of_at?_eq_none hv))

/-- A reset field reads as at the start. -/
theorem at?_reset_self (hnull : initial.members.at? p.segments ≠ some .null)
    (h : Run.reset initial p d = .ok d') :
    d'.members.at? p.segments = initial.members.at? p.segments := by
  rw [← get?_eq_at? hnull]
  unfold Run.reset at h
  split at h
  · rename_i v hv
    rw [hv, at?_set_self h]
  · rename_i hnone
    rw [Except.ok.injEq] at h
    rw [hnone, ← h]
    exact Members.at?_remove_self _ _

end Draft

end Interview
