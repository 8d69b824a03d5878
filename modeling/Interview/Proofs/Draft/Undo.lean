import Interview.Proofs.Draft.Frame
import Interview.Proofs.Draft.Members
import Interview.Run
/-
Taking back a write: a removal undoes it to the letter.

Writing at a path makes the objects on the way, and removing prunes the objects it empties.
The two fit together only where the path is tidy: an empty object that was there before the
write would be pruned with the rest, and a null on the way would not come back. On a tidy
path a removal after a write comes to the same as a removal before it (`remove_set?`), and
what a removal took out can be written back (`set?_remove`). Resetting a field of a draft to
what it was at the start is one removal and perhaps one write, so it undoes an answer.

A write keeps every path tidy that is apart from its own. That is why the paths of the
unanswered fields of a form stay tidy however many answers are given and taken back.
-/

set_option autoImplicit false

namespace Interview

namespace Members

/-! ## Tidy paths -/

/-- The names along a path ascend, and there is neither null nor an empty object on it. -/
def Tidy (ms : Members) : List String → Prop
  | [] => True
  | [s] => ms.Ascending ∧ find? s ms ≠ some .null
  | s :: rest =>
    ms.Ascending ∧
      match find? s ms with
      | none => True
      | some .null => False
      | some (.object inner) => inner ≠ [] ∧ Tidy inner rest
      | some _ => True

theorem Tidy.ascending {ms : Members} {s : String} {rest : List String}
    (h : ms.Tidy (s :: rest)) : ms.Ascending := by
  cases rest with
  | nil => exact h.1
  | cons t rest => exact h.1

theorem Tidy.not_null {ms : Members} {s : String} {rest : List String}
    (h : ms.Tidy (s :: rest)) : find? s ms ≠ some .null := by
  cases rest with
  | nil => exact h.2
  | cons t rest =>
      intro hnull
      rw [Tidy, hnull] at h
      · exact h.2
      · simp

theorem Tidy.object {ms inner : Members} {s t : String} {rest : List String}
    (h : ms.Tidy (s :: t :: rest)) (hs : find? s ms = some (.object inner)) :
    inner ≠ [] ∧ Tidy inner (t :: rest) := by
  rw [Tidy, hs] at h
  · exact h.2
  · simp

/-- What makes a longer path tidy. -/
theorem tidy_cons {ms : Members} {s t : String} {rest : List String} (hasc : ms.Ascending)
    (hnull : find? s ms ≠ some .null)
    (hobj : ∀ inner, find? s ms = some (.object inner) → inner ≠ [] ∧ Tidy inner (t :: rest)) :
    ms.Tidy (s :: t :: rest) := by
  rw [Tidy]
  · refine ⟨hasc, ?_⟩
    split
    · trivial
    · rename_i h
      exact hnull h
    · rename_i inner h
      exact hobj inner h
    · trivial
  · simp

theorem tidy_empty (p : List String) : Tidy [] p := by
  match p with
  | [] => trivial
  | [_] => exact ⟨ascending_nil, by simp [find?]⟩
  | _ :: _ :: _ => exact ⟨ascending_nil, trivial⟩

/-- No null is read at a tidy path. -/
theorem Tidy.isNull_eq_false {p : List String} : ∀ {ms : Members} {v : Json},
    ms.Tidy p → ms.at? p = some v → v.isNull = false := by
  induction p with
  | nil =>
      intro ms v _ h
      exact absurd h (by simp [at?])
  | cons s rest ih =>
      intro ms v htidy h
      cases rest with
      | nil =>
          cases v with
          | null => exact absurd h htidy.not_null
          | _ => rfl
      | cons t rest =>
          obtain ⟨inner, hs, hread⟩ := at?_cons_eq_some.mp h
          exact ih (htidy.object hs).2 hread

/-- Tidiness looks at the order of the names and at what is under the first segment. -/
theorem Tidy.congr {ms ms' : Members} {s : String} {rest : List String} (h : ms.Tidy (s :: rest))
    (hasc : ms'.Ascending) (hs : find? s ms' = find? s ms) : ms'.Tidy (s :: rest) := by
  rcases rest with _ | ⟨t, rest⟩
  · exact ⟨hasc, hs ▸ h.not_null⟩
  · exact tidy_cons hasc (hs ▸ h.not_null) fun inner hinner => h.object (hs ▸ hinner)

/-- A write leaves something in the object that it was made in. -/
theorem ne_nil_of_set? {p : List String} {ms ms' : Members} {v : Json}
    (h : ms.set? v p = some ms') : ms' ≠ [] := by
  intro hnil
  have hread := at?_set?_self h
  rw [hnil, at?_empty] at hread
  exact absurd hread (by simp)

/-- A write keeps a path tidy that is apart from the written one. -/
theorem Tidy.set? {p q : List String} {ms ms' : Members} {v : Json} (hq : ms.Tidy q)
    (hpq : Apart p q) (h : ms.set? v p = some ms') : ms'.Tidy q := by
  have hforks := hpq.forks
  clear hpq
  induction hforks generalizing ms ms' with
  | @here s u p q hsu =>
      -- the write is under another name, and only the order has to be looked at
      obtain ⟨w, rfl⟩ := exists_put_of_set? h
      exact hq.congr (hq.ascending.put s w) (find?_put_of_ne (Ne.symm hsu) w ms)
  | @there s p q later ih =>
      obtain ⟨t, p, u, q, rfl, rfl⟩ := later.exists_cons
      obtain ⟨inner, inner', hset, rfl, hs⟩ := set?_cons_eq_some h
      have hinner : Tidy inner (u :: q) := by
        rcases hs with hs | ⟨rfl, -⟩
        · exact (hq.object hs).2
        · exact tidy_empty _
      refine tidy_cons (hq.ascending.put _ _) ?_ ?_
      · rw [find?_put_self]
        simp
      · intro inner₂ hs₂
        rw [find?_put_self, Option.some.injEq, Json.object.injEq] at hs₂
        exact hs₂ ▸ ⟨ne_nil_of_set? hset, ih hinner hset⟩

/-! ## Undoing -/

/-- Where nothing is read there is nothing to remove. -/
theorem remove_of_at?_eq_none {p : List String} {ms : Members} (h : ms.at? p = none) :
    (ms.remove p).2 = ms := by
  match p, h with
  | [], _ => rfl
  | [s], h => exact erase_of_find?_eq_none h
  | s :: t :: rest, h =>
      rcases remove_cons ms s t rest with ⟨hsame, -⟩ | ⟨inner, v, inner', hs, hr, -⟩
      · exact hsame
      · have hread : at? inner (t :: rest) = some v := by rw [← remove_fst, hr]
        rw [at?_cons_eq_some.mpr ⟨inner, hs, hread⟩] at h
        exact absurd h (by simp)

/-- **A removal makes a write before it undone.** What was at the path before the write goes as
well, so both sides are without a value there. -/
theorem remove_set? {p : List String} : ∀ {ms ms' : Members} {v : Json},
    ms.Tidy p → ms.set? v p = some ms' → (ms'.remove p).2 = (ms.remove p).2 := by
  induction p with
  | nil =>
      intro ms ms' v _ h
      exact absurd h (by simp [set?])
  | cons s rest ih =>
      intro ms ms' v htidy h
      cases rest with
      | nil =>
          simp only [set?, Option.some.injEq] at h
          rw [← h]
          exact erase_put s v ms
      | cons t rest =>
          have hread := at?_set?_self h
          obtain ⟨inner, inner', hset, rfl, hs⟩ := set?_cons_eq_some h
          rcases remove_cons (ms.put s (.object inner')) s t rest with
            ⟨-, hnone⟩ | ⟨inner₂, w, left, hs₂, hr, heq⟩
          · rw [hread] at hnone
            exact absurd hnone (by simp)
          · rw [find?_put_self, Option.some.injEq, Json.object.injEq] at hs₂
            subst hs₂
            rw [heq, erase_put, put_put]
            rcases hs with hs | ⟨rfl, hs⟩
            · obtain ⟨hne, hinner⟩ := htidy.object hs
              have hleft : left = (remove inner (t :: rest)).2 := by
                rw [← ih hinner hset, hr]
              rcases remove_cons ms s t rest with
                ⟨hsame, hnone⟩ | ⟨inner₃, x, left₃, hs₃, hr₃, heq₃⟩
              · -- nothing was at the path, so the object on the way is left as it was
                have hinone : at? inner (t :: rest) = none := by
                  rw [Option.eq_none_iff_forall_ne_some]
                  intro x hx
                  rw [at?_cons_eq_some.mpr ⟨inner, hs, hx⟩] at hnone
                  exact absurd hnone (by simp)
                rw [hleft, remove_of_at?_eq_none hinone, if_neg hne, hsame]
                exact put_of_find?_eq_some hs
              · rw [hs, Option.some.injEq, Json.object.injEq] at hs₃
                rw [heq₃, hleft, hs₃, hr₃]
            · -- the write made the object on the way, and the removal takes it with it
              have hleft : left = [] := by
                have hundo := ih (tidy_empty (t :: rest)) hset
                rw [hr, remove_of_at?_eq_none (at?_empty _)] at hundo
                exact hundo
              have hnone : find? s ms = none := by
                rcases hs with hs | hs
                · exact hs
                · exact absurd hs htidy.not_null
              have hread₀ : ms.at? (s :: t :: rest) = none := by
                rw [at?_congr (show find? s ms = find? s [] from hnone), at?_empty]
              rw [if_pos hleft, erase_of_find?_eq_none hnone, remove_of_at?_eq_none hread₀]

/-- **What was removed can be written back.** -/
theorem set?_remove {p : List String} : ∀ {ms : Members} {v : Json},
    ms.Tidy p → ms.at? p = some v → (ms.remove p).2.set? v p = some ms := by
  induction p with
  | nil =>
      intro ms v _ h
      exact absurd h (by simp [at?])
  | cons s rest ih =>
      intro ms v htidy h
      cases rest with
      | nil =>
          rw [remove, set?]
          exact congrArg some (put_erase htidy.ascending h)
      | cons t rest =>
          obtain ⟨inner, hs, hread⟩ := at?_cons_eq_some.mp h
          rcases remove_cons ms s t rest with ⟨-, hnone⟩ | ⟨inner₂, w, left, hs₂, hr, heq⟩
          · rw [hnone] at h
            exact absurd h (by simp)
          · rw [hs, Option.some.injEq, Json.object.injEq] at hs₂
            subst hs₂
            have hback := ih (htidy.object hs).2 hread
            rw [hr] at hback
            rw [heq, set?]
            · by_cases hnil : left = []
              · rw [hnil] at hback
                simp only [if_pos hnil, find?_erase_self, hback, Option.map_some,
                  Option.some.injEq]
                exact put_erase htidy.ascending hs
              · simp only [if_neg hnil, find?_put_self, hback, Option.map_some,
                  Option.some.injEq, put_put]
                exact put_of_find?_eq_some hs
            · simp

end Members

/-! ## Partial records

A draft that an interview starts from is tidy on every path if it has its names in order and
holds neither null nor an empty object. -/

namespace Json

mutual

/-- Neither null nor an empty object, at any level that objects reach. -/
def Solid : Json → Prop
  | .null => False
  | .object ms => ms ≠ [] ∧ SolidMembers ms
  | _ => True

/-- Every member's value is solid. -/
def SolidMembers : Members → Prop
  | [] => True
  | (_, v) :: ms => Solid v ∧ SolidMembers ms

end

theorem SolidMembers.find? {s : String} {v : Json} : ∀ {ms : Members},
    SolidMembers ms → Members.find? s ms = some v → Solid v
  | [], _, h => absurd h (by simp [Members.find?])
  | (l, w) :: ms, hms, h => by
      obtain ⟨hw, hrest⟩ := hms
      by_cases hl : l = s
      · rw [Members.find?, if_pos hl, Option.some.injEq] at h
        exact h ▸ hw
      · rw [Members.find?, if_neg hl] at h
        exact SolidMembers.find? hrest h

theorem OrderedMembers.find? {s : String} {v : Json} : ∀ {ms : Members},
    OrderedMembers ms → Members.find? s ms = some v → Ordered v
  | [], _, h => absurd h (by simp [Members.find?])
  | (l, w) :: ms, hms, h => by
      obtain ⟨hw, hrest⟩ := hms
      by_cases hl : l = s
      · rw [Members.find?, if_pos hl, Option.some.injEq] at h
        exact h ▸ hw
      · rw [Members.find?, if_neg hl] at h
        exact OrderedMembers.find? hrest h

end Json

theorem Members.tidy_of_solid {p : List String} : ∀ {ms : Members},
    ms.Ascending → Json.OrderedMembers ms → Json.SolidMembers ms → ms.Tidy p := by
  induction p with
  | nil => exact fun _ _ _ => trivial
  | cons s rest ih =>
      intro ms hasc hord hsolid
      have hnull : find? s ms ≠ some .null := fun hnull => hsolid.find? hnull
      cases rest with
      | nil => exact ⟨hasc, hnull⟩
      | cons t rest =>
          refine tidy_cons hasc hnull ?_
          intro inner hinner
          obtain ⟨hne, hsolid'⟩ := hsolid.find? hinner
          obtain ⟨hasc', hord'⟩ := hord.find? hinner
          exact ⟨hne, ih hasc' hord' hsolid'⟩

namespace Draft

/-- The path can be written and taken back without a trace. -/
def Tidy (d : Draft) (p : Path) : Prop :=
  d.members.Tidy p.segments

/-- A draft with its names in order that holds neither null nor an empty object. -/
structure Neat (d : Draft) : Prop where
  ordered : d.toJson.Ordered
  solid : Json.SolidMembers d.members

theorem neat_empty : empty.Neat :=
  ⟨⟨Members.ascending_nil, trivial⟩, trivial⟩

/-- Every path of a neat draft is tidy. -/
theorem Neat.tidy {d : Draft} (h : d.Neat) (p : Path) : d.Tidy p :=
  Members.tidy_of_solid h.ordered.1 h.ordered.2 h.solid

theorem Tidy.isNull_eq_false {d : Draft} {p : Path} {v : Json} (h : d.Tidy p)
    (hat : d.members.at? p.segments = some v) : v.isNull = false :=
  Members.Tidy.isNull_eq_false h hat

theorem Tidy.set {d d' : Draft} {p q : Path} {v : Json} (h : d.Tidy q)
    (hpq : Apart p.segments q.segments) (hset : d.set p v = .ok d') : d'.Tidy q :=
  Members.Tidy.set? h hpq (set_eq_ok hset).2

/-! ## Resetting a field

A reset field has what the draft at the start had there. The two cases of the lemmas below are
that it had nothing, so that only the removal counts, and that it had a value, which goes back
to where the removal took it from. -/

/-- What reset comes to on a draft that has at the path what the draft at the start has. -/
theorem reset_of_remove_eq {initial d d' : Draft} {p : Path} (htidy : d.Tidy p)
    (hinit : d.members.at? p.segments = initial.members.at? p.segments)
    (hremove : (d'.remove p).2 = (d.remove p).2) : Run.reset initial p d' = .ok d := by
  have hget : initial.get? p = d.get? p := by rw [get?, get?, hinit]
  unfold Run.reset
  rw [hget, hremove]
  cases hat : d.members.at? p.segments with
  | none =>
      rw [get?, hat]
      exact congrArg Except.ok (congrArg Draft.mk (Members.remove_of_at?_eq_none hat))
  | some v =>
      have hv : v.isNull = false := htidy.isNull_eq_false hat
      have hroot : p.isRoot = false := by
        rw [Path.isRoot, List.isEmpty_eq_false_iff]
        intro hnil
        rw [hnil] at hat
        exact absurd hat (by simp [Members.at?])
      have hback : (d.remove p).2.members.set? v p.segments = some d.members :=
        Members.set?_remove htidy hat
      simp only [get?, hat, Option.filter_some, hv, Bool.not_false, if_true, set, hroot,
        Bool.false_eq_true, if_false, hback]

/-- **A reset takes back an answer.** The draft is the one from before the answer was stored. -/
theorem reset_set {initial d d' : Draft} {p : Path} {v : Json} (htidy : d.Tidy p)
    (hinit : d.members.at? p.segments = initial.members.at? p.segments)
    (hset : d.set p v = .ok d') : Run.reset initial p d' = .ok d :=
  reset_of_remove_eq htidy hinit
    (congrArg Draft.mk (Members.remove_set? htidy (set_eq_ok hset).2))

/-- A reset of a field that has what it had at the start changes nothing. -/
theorem reset_self {initial d : Draft} {p : Path} (htidy : d.Tidy p)
    (hinit : d.members.at? p.segments = initial.members.at? p.segments) :
    Run.reset initial p d = .ok d :=
  reset_of_remove_eq htidy hinit rfl

end Draft

end Interview
