import Interview.Draft.Basic
/-
Reading a draft after it was written: the frame of a path.

Two paths that do not overlap part company at some segment, and up to there they share
their objects (`Forks`). A write or a removal at one of them therefore leaves alone what is read
at the other, even where it makes objects on the way or prunes the ones it empties. The
induction is on the shared part of the two paths, so every lemma here is stated for lists of
segments first and for drafts after that.

The file also says when a write succeeds: `Members.Admits` holds of a path on which no value
stands in the way. A removal never takes that away, and a write does so only at a proper
part of the path.
-/

set_option autoImplicit false

namespace Interview

/-! ## Segments that part company -/

/-- Neither list of segments leads through the other. -/
def Apart (p q : List String) : Prop :=
  ¬ p <+: q ∧ ¬ q <+: p

theorem Apart.symm {p q : List String} (h : Apart p q) : Apart q p :=
  ⟨h.2, h.1⟩

theorem not_apart_nil (q : List String) : ¬ Apart [] q :=
  fun h => h.1 List.nil_prefix

/-- Behind a segment that they share, two lists are apart just as before. -/
theorem apart_cons_self {s : String} {p q : List String} :
    Apart (s :: p) (s :: q) ↔ Apart p q := by
  simp only [Apart, List.cons_prefix_cons, true_and]

/-- Where two paths part: at their first segments, or behind segments that they share. -/
inductive Forks : List String → List String → Prop
  | here {s u : String} (p q : List String) (differ : s ≠ u) : Forks (s :: p) (u :: q)
  | there (s : String) {p q : List String} (later : Forks p q) : Forks (s :: p) (s :: q)

/-- Neither of two paths that part is empty. -/
theorem Forks.exists_cons {p q : List String} (h : Forks p q) :
    ∃ s p' u q', p = s :: p' ∧ q = u :: q' := by
  rcases h with ⟨p, q, -⟩ | ⟨s, -⟩
  · exact ⟨_, p, _, q, rfl, rfl⟩
  · exact ⟨s, _, s, _, rfl, rfl⟩

/-- **Paths that are apart part somewhere.** -/
theorem Apart.forks {p : List String} : ∀ {q : List String}, Apart p q → Forks p q := by
  induction p with
  | nil => exact fun h => absurd h (not_apart_nil _)
  | cons s p ih =>
      intro q h
      rcases q with _ | ⟨u, q⟩
      · exact absurd h.symm (not_apart_nil _)
      · by_cases hsu : s = u
        · subst hsu
          exact .there s (ih (apart_cons_self.mp h))
        · exact .here p q hsu

/-- Two paths that do not overlap have segments that are apart. -/
theorem Path.apart_of_overlaps {p q : Path} (h : p.overlaps q = false) :
    Apart p.segments q.segments := by
  simp only [Path.overlaps, Path.startsWith, Bool.or_eq_false_iff] at h
  constructor
  · intro hpq
    rw [List.isPrefixOf_iff_prefix.mpr hpq] at h
    exact absurd h.2 (by simp)
  · intro hqp
    rw [List.isPrefixOf_iff_prefix.mpr hqp] at h
    exact absurd h.1 (by simp)

namespace Members

/-! ## Reading one segment at a time -/

theorem at?_singleton (ms : Members) (s : String) : ms.at? [s] = find? s ms := rfl

/-- Reading on behind a segment takes an object under it. -/
theorem at?_cons_eq_some {ms : Members} {s t : String} {rest : List String} {v : Json} :
    ms.at? (s :: t :: rest) = some v ↔
      ∃ inner, find? s ms = some (.object inner) ∧ at? inner (t :: rest) = some v := by
  rw [at?]
  · split
    · rename_i inner h
      simp [h]
    · rename_i h
      simp only [reduceCtorEq, false_iff, not_exists, not_and]
      intro inner hinner
      exact absurd hinner (h inner)
  · simp

/-- What is read at a path that begins with a segment depends only on what is under it. -/
theorem at?_congr {ms ns : Members} {s : String} (h : find? s ms = find? s ns)
    (rest : List String) : ms.at? (s :: rest) = ns.at? (s :: rest) := by
  cases rest with
  | nil => simpa [at?] using h
  | cons t rest =>
      rw [at?, at?, h]
      · simp
      · simp

theorem at?_empty (p : List String) : at? [] p = none := by
  match p with
  | [] => rfl
  | [_] => rfl
  | _ :: _ :: _ => rfl

/-! ## What a write does

A write goes down the path and puts every object on the way together again, so one step of
it is one `put`. -/

/-- **One step of a write.** Below the first segment the write goes on in the object that is
there, or in an empty one when nothing or null is there. -/
theorem set?_cons_eq_some {ms ms' : Members} {v : Json} {s t : String} {rest : List String}
    (h : ms.set? v (s :: t :: rest) = some ms') :
    ∃ inner inner', set? inner v (t :: rest) = some inner' ∧ ms' = ms.put s (.object inner') ∧
      (find? s ms = some (.object inner) ∨
        (inner = [] ∧ (find? s ms = none ∨ find? s ms = some .null))) := by
  rw [set?] at h
  · split at h
    · rename_i hs
      obtain ⟨inner', hset, hput⟩ := Option.map_eq_some_iff.mp h
      exact ⟨[], inner', hset, hput.symm, Or.inr ⟨rfl, Or.inl hs⟩⟩
    · rename_i hs
      obtain ⟨inner', hset, hput⟩ := Option.map_eq_some_iff.mp h
      exact ⟨[], inner', hset, hput.symm, Or.inr ⟨rfl, Or.inr hs⟩⟩
    · rename_i inner hs
      obtain ⟨inner', hset, hput⟩ := Option.map_eq_some_iff.mp h
      exact ⟨inner, inner', hset, hput.symm, Or.inl hs⟩
    · exact absurd h (by simp)
  · simp

/-- What was written at a path is read there. -/
theorem at?_set?_self {p : List String} : ∀ {ms ms' : Members} {v : Json},
    ms.set? v p = some ms' → ms'.at? p = some v := by
  induction p with
  | nil =>
      intro ms ms' v h
      simp [set?] at h
  | cons s rest ih =>
      intro ms ms' v h
      cases rest with
      | nil =>
          simp only [set?, Option.some.injEq] at h
          rw [← h, at?_singleton, find?_put_self]
      | cons t rest =>
          obtain ⟨inner, inner', hset, rfl, -⟩ := set?_cons_eq_some h
          exact at?_cons_eq_some.mpr ⟨inner', find?_put_self _ _ _, ih hset⟩

/-- Seen from its first segment, a write puts one member. -/
theorem exists_put_of_set? {ms ms' : Members} {v : Json} {s : String} {rest : List String}
    (h : ms.set? v (s :: rest) = some ms') : ∃ w, ms' = ms.put s w := by
  rcases rest with _ | ⟨t, rest⟩
  · rw [set?, Option.some.injEq] at h
    exact ⟨v, h.symm⟩
  · obtain ⟨inner, inner', -, heq, -⟩ := set?_cons_eq_some h
    exact ⟨.object inner', heq⟩

theorem find?_set?_of_ne {ms ms' : Members} {v : Json} {s u : String} {rest : List String}
    (hus : u ≠ s) (h : ms.set? v (s :: rest) = some ms') : find? u ms' = find? u ms := by
  obtain ⟨w, rfl⟩ := exists_put_of_set? h
  exact find?_put_of_ne hus w ms

/-- **The frame of a write.** What is read at a path that is apart from the written one stays. -/
theorem at?_set?_of_apart {p q : List String} {ms ms' : Members} {v : Json} (hpq : Apart p q)
    (h : ms.set? v p = some ms') : ms'.at? q = ms.at? q := by
  have hforks := hpq.forks
  clear hpq
  induction hforks generalizing ms ms' with
  | here p q hsu => exact at?_congr (find?_set?_of_ne (Ne.symm hsu) h) q
  | @there s p q later ih =>
      -- both paths go on, so the write goes on in the object that is read
      obtain ⟨t, p, u, q, rfl, rfl⟩ := later.exists_cons
      obtain ⟨inner, inner', hset, rfl, hs⟩ := set?_cons_eq_some h
      have hinner := ih hset
      rw [at?, find?_put_self, at?]
      · rcases hs with hs | ⟨rfl, hs | hs⟩
        · rw [hs]
          exact hinner
        · rw [hs]
          exact hinner.trans (at?_empty _)
        · rw [hs]
          exact hinner.trans (at?_empty _)
      · simp
      · simp

/-! ## What a removal does -/

/-- A removal hands out what was read at the path. -/
theorem remove_fst (p : List String) (ms : Members) : (ms.remove p).1 = ms.at? p := by
  induction p generalizing ms with
  | nil => rfl
  | cons s rest ih =>
      cases rest with
      | nil => rfl
      | cons t rest =>
          rw [remove, at?]
          · split
            · rename_i inner hs
              rw [← ih inner]
              split
              · rename_i hr
                rw [hr]
              · rename_i hr
                rw [hr]
              · rename_i hr
                rw [hr]
            · rfl
          · simp
          · simp

/-- **One step of a removal.** Either there is nothing to remove and everything stays, or the
removal goes on in the object under the first segment, which goes as well if it is left empty. -/
theorem remove_cons (ms : Members) (s t : String) (rest : List String) :
    (ms.remove (s :: t :: rest)).2 = ms ∧ ms.at? (s :: t :: rest) = none ∨
      ∃ inner v inner', find? s ms = some (.object inner) ∧
        remove inner (t :: rest) = (some v, inner') ∧
        (ms.remove (s :: t :: rest)).2 =
          if inner' = [] then ms.erase s else ms.put s (.object inner') := by
  rw [← remove_fst, remove]
  · split
    · rename_i inner hs
      split
      · exact Or.inl ⟨rfl, rfl⟩
      · rename_i v hr
        exact Or.inr ⟨inner, v, [], hs, hr, by simp⟩
      · rename_i v inner' hne hr
        exact Or.inr ⟨inner, v, inner', hs, hr, (if_neg fun hnil => hne hnil).symm⟩
    · exact Or.inl ⟨rfl, rfl⟩
  · simp

/-- Nothing is read at a path whose value was removed. -/
theorem at?_remove_self (p : List String) (ms : Members) : (ms.remove p).2.at? p = none := by
  induction p generalizing ms with
  | nil => rfl
  | cons s rest ih =>
      cases rest with
      | nil => exact find?_erase_self s ms
      | cons t rest =>
          rcases remove_cons ms s t rest with ⟨hsame, hnone⟩ | ⟨inner, v, inner', hs, hr, heq⟩
          · rw [hsame, hnone]
          · have hinner : at? inner' (t :: rest) = none := by
              have h := ih inner
              rwa [hr] at h
            rw [heq, Option.eq_none_iff_forall_ne_some]
            intro w hw
            obtain ⟨inner₂, hs₂, hat⟩ := at?_cons_eq_some.mp hw
            by_cases hnil : inner' = []
            · rw [if_pos hnil, find?_erase_self] at hs₂
              exact absurd hs₂ (by simp)
            · rw [if_neg hnil, find?_put_self, Option.some.injEq, Json.object.injEq] at hs₂
              rw [← hs₂, hinner] at hat
              exact absurd hat (by simp)

theorem find?_remove_of_ne {s u : String} (hus : u ≠ s) (ms : Members) (rest : List String) :
    find? u (ms.remove (s :: rest)).2 = find? u ms := by
  rcases rest with _ | ⟨t, rest⟩
  · exact find?_erase_of_ne hus ms
  · rcases remove_cons ms s t rest with ⟨hsame, -⟩ | ⟨inner, v, inner', -, -, heq⟩
    · rw [hsame]
    · rw [heq]
      split
      · exact find?_erase_of_ne hus ms
      · exact find?_put_of_ne hus _ ms

/-- **The frame of a removal.** What is read at a path that is apart from the removed one stays,
also when an object that the two paths share is left empty and goes. -/
theorem at?_remove_of_apart {p q : List String} (ms : Members) (hpq : Apart p q) :
    (ms.remove p).2.at? q = ms.at? q := by
  have hforks := hpq.forks
  clear hpq
  induction hforks generalizing ms with
  | here p q hsu => exact at?_congr (find?_remove_of_ne (Ne.symm hsu) ms p) q
  | @there s p q later ih =>
      obtain ⟨t, p, u, q, rfl, rfl⟩ := later.exists_cons
      rcases remove_cons ms s t p with ⟨hsame, -⟩ | ⟨inner, v, inner', hs, hr, heq⟩
      · rw [hsame]
      · have hinner : at? inner' (u :: q) = at? inner (u :: q) := by
          have h := ih inner
          rwa [hr] at h
        rw [heq, at?, at?, hs]
        · by_cases hnil : inner' = []
          · -- the object is left empty and goes, so nothing was read in it before
            rw [if_pos hnil, find?_erase_self]
            rw [hnil, at?_empty] at hinner
            exact hinner
          · rw [if_neg hnil, find?_put_self]
            exact hinner
        · simp
        · simp

/-! ## When a write succeeds -/

/-- No value stands in the way of a write: on the way to the end of the path there is nothing,
null or an object. -/
def Admits (ms : Members) : List String → Prop
  | [] => False
  | [_] => True
  | s :: rest =>
    match find? s ms with
    | none | some .null => True
    | some (.object inner) => Admits inner rest
    | some _ => False

/-- Nothing stands in the way in an empty object. -/
theorem admits_empty {p : List String} (hp : p ≠ []) : Admits [] p := by
  match p with
  | [] => exact absurd rfl hp
  | [_] => trivial
  | _ :: _ :: _ => trivial

/-- What stands under the first segment decides whether a longer path is free. -/
theorem admits_cons {ms : Members} {s t : String} {rest : List String} :
    ms.Admits (s :: t :: rest) ↔
      find? s ms = none ∨ find? s ms = some .null ∨
        ∃ inner, find? s ms = some (.object inner) ∧ Admits inner (t :: rest) := by
  rw [Admits]
  · split
    · rename_i h
      simp [h]
    · rename_i h
      simp [h]
    · rename_i inner h
      simp [h]
    · rename_i w hnull hobj h
      simp only [h, reduceCtorEq, Option.some.injEq, false_or, false_iff, not_or, not_exists,
        not_and]
      exact ⟨fun hw => hnull hw, fun inner hw => absurd hw (hobj inner)⟩
  · simp

/-- **A write succeeds on a free path.** -/
theorem exists_set?_of_admits {p : List String} : ∀ {ms : Members} (v : Json),
    ms.Admits p → ∃ ms', ms.set? v p = some ms' := by
  induction p with
  | nil =>
      intro ms v h
      exact absurd h (by simp [Admits])
  | cons s rest ih =>
      intro ms v h
      cases rest with
      | nil => exact ⟨_, rfl⟩
      | cons t rest =>
          rw [set?]
          · rcases admits_cons.mp h with hs | hs | ⟨inner, hs, hinner⟩
            · obtain ⟨inner', hset⟩ := ih v (admits_empty (List.cons_ne_nil t rest))
              exact ⟨ms.put s (.object inner'), by simp only [hs, hset, Option.map_some]⟩
            · obtain ⟨inner', hset⟩ := ih v (admits_empty (List.cons_ne_nil t rest))
              exact ⟨ms.put s (.object inner'), by simp only [hs, hset, Option.map_some]⟩
            · obtain ⟨inner', hset⟩ := ih v hinner
              exact ⟨ms.put s (.object inner'), by simp only [hs, hset, Option.map_some]⟩
          · simp

/-- A path at which something is read is free. -/
theorem admits_of_at?_eq_some {p : List String} : ∀ {ms : Members} {v : Json},
    ms.at? p = some v → ms.Admits p := by
  induction p with
  | nil =>
      intro ms v h
      exact absurd h (by simp [at?])
  | cons s rest ih =>
      intro ms v h
      cases rest with
      | nil => trivial
      | cons t rest =>
          obtain ⟨inner, hs, hat⟩ := at?_cons_eq_some.mp h
          exact admits_cons.mpr (Or.inr (Or.inr ⟨inner, hs, ih hat⟩))

/-- A free path goes on in the object under its first segment. -/
theorem Admits.object {ms inner : Members} {s t : String} {rest : List String}
    (h : ms.Admits (s :: t :: rest)) (hs : find? s ms = some (.object inner)) :
    Admits inner (t :: rest) := by
  rw [Admits, hs] at h
  · exact h
  · simp

/-- Only what is under the first segment decides whether a path is free. -/
theorem Admits.congr {ms ms' : Members} {s t : String} {rest : List String}
    (h : ms.Admits (s :: t :: rest)) (hs : find? s ms' = find? s ms) :
    ms'.Admits (s :: t :: rest) := by
  rw [admits_cons, hs]
  exact admits_cons.mp h

/-- A removal, wherever it is, leaves free paths free. -/
theorem Admits.remove {p : List String} : ∀ {q : List String} {ms : Members},
    ms.Admits q → (ms.remove p).2.Admits q := by
  induction p with
  | nil => exact fun h => h
  | cons s rest ih =>
      intro q ms h
      match q, h with
      | [], h => exact absurd h (by simp [Admits])
      | [u], _ => trivial
      | u :: u' :: qs, h =>
          by_cases hus : u = s
          · subst hus
            rcases rest with _ | ⟨t, rest⟩
            · exact admits_cons.mpr (Or.inl (find?_erase_self u ms))
            · rcases remove_cons ms u t rest with ⟨hsame, -⟩ | ⟨inner, v, inner', hs, hr, heq⟩
              · exact h.congr (by rw [hsame])
              · -- the object under the segment went, or the removal went on in it
                rw [heq]
                split
                · exact admits_cons.mpr (Or.inl (find?_erase_self u ms))
                · have hrem := ih (h.object hs)
                  rw [hr] at hrem
                  exact admits_cons.mpr (Or.inr (Or.inr ⟨inner', find?_put_self _ _ _, hrem⟩))
          · exact h.congr (find?_remove_of_ne hus ms rest)

/-- A write leaves a free path free, unless it is at a proper part of that path. -/
theorem Admits.set? {p : List String} : ∀ {q : List String} {ms ms' : Members} {v : Json},
    ms.Admits q → (p <+: q → p = q) → ms.set? v p = some ms' → ms'.Admits q := by
  induction p with
  | nil =>
      intro q ms ms' v _ _ h
      exact absurd h (by simp [Members.set?])
  | cons s rest ih =>
      intro q ms ms' v hq hpart h
      match q, hq with
      | [], hq => exact absurd hq (by simp [Admits])
      | [u], _ => trivial
      | u :: u' :: qs, hq =>
          by_cases hus : u = s
          · subst hus
            rcases rest with _ | ⟨t, rest⟩
            · have hlen := congrArg List.length (hpart ⟨u' :: qs, rfl⟩)
              exact absurd hlen (by simp)
            · obtain ⟨inner, inner', hset, rfl, hs⟩ := set?_cons_eq_some h
              have hpart' : t :: rest <+: u' :: qs → t :: rest = u' :: qs := by
                intro hpre
                have heq := hpart (List.cons_prefix_cons.mpr ⟨rfl, hpre⟩)
                exact (List.cons.inj heq).2
              have hinner : Admits inner (u' :: qs) := by
                rcases hs with hs | ⟨rfl, -⟩
                · exact hq.object hs
                · exact admits_empty (List.cons_ne_nil u' qs)
              exact admits_cons.mpr
                (Or.inr (Or.inr ⟨inner', find?_put_self _ _ _, ih hinner hpart' hset⟩))
          · exact hq.congr (find?_set?_of_ne hus h)

/-! Neither a write nor a removal frees a path that is apart from its own. -/

/-- A write that succeeded was on a free path. -/
theorem admits_of_set?_eq_some {p : List String} : ∀ {ms ms' : Members} {v : Json},
    ms.set? v p = some ms' → ms.Admits p := by
  induction p with
  | nil =>
      intro ms ms' v h
      exact absurd h (by simp [Members.set?])
  | cons s rest ih =>
      intro ms ms' v h
      rcases rest with _ | ⟨t, rest⟩
      · trivial
      · obtain ⟨inner, inner', hset, -, hs | ⟨-, hs | hs⟩⟩ := set?_cons_eq_some h
        · exact admits_cons.mpr (Or.inr (Or.inr ⟨inner, hs, ih hset⟩))
        · exact admits_cons.mpr (Or.inl hs)
        · exact admits_cons.mpr (Or.inr (Or.inl hs))

theorem Admits.of_set? {p q : List String} {ms ms' : Members} {v : Json} (hpq : Apart p q)
    (hset : ms.set? v p = some ms') (h : ms'.Admits q) : ms.Admits q := by
  have hforks := hpq.forks
  clear hpq
  induction hforks generalizing ms ms' with
  | here p q hsu =>
      rcases q with _ | ⟨u', q⟩
      · trivial
      · exact h.congr (find?_set?_of_ne (Ne.symm hsu) hset).symm
  | @there s p q later ih =>
      obtain ⟨t, p, u, q, rfl, rfl⟩ := later.exists_cons
      obtain ⟨inner, inner', hset', rfl, hs | ⟨-, hs | hs⟩⟩ := set?_cons_eq_some hset
      · have hinner := ih hset' (h.object (find?_put_self _ _ _))
        exact admits_cons.mpr (Or.inr (Or.inr ⟨inner, hs, hinner⟩))
      · exact admits_cons.mpr (Or.inl hs)
      · exact admits_cons.mpr (Or.inr (Or.inl hs))

theorem Admits.of_remove {p q : List String} {ms : Members} (hpq : Apart p q)
    (h : (ms.remove p).2.Admits q) : ms.Admits q := by
  have hforks := hpq.forks
  clear hpq
  induction hforks generalizing ms with
  | here p q hsu =>
      rcases q with _ | ⟨u', q⟩
      · trivial
      · exact h.congr (find?_remove_of_ne (Ne.symm hsu) ms p).symm
  | @there s p q later ih =>
      obtain ⟨t, p, u, q, rfl, rfl⟩ := later.exists_cons
      rcases remove_cons ms s t p with ⟨hsame, -⟩ | ⟨inner, v, inner', hs, hr, heq⟩
      · rwa [hsame] at h
      · refine admits_cons.mpr (Or.inr (Or.inr ⟨inner, hs, ih ?_⟩))
        rw [hr]
        by_cases hnil : inner' = []
        · rw [hnil]
          exact admits_empty (List.cons_ne_nil u q)
        · rw [heq, if_neg hnil] at h
          exact h.object (find?_put_self _ _ _)

end Members

/-! ## Drafts

The same laws for drafts, where null reads as absent and the root cannot be written. -/

namespace Draft

/-- No value stands in the way of a write at a path. -/
def Admits (d : Draft) (p : Path) : Prop :=
  d.members.Admits p.segments

variable {d d' : Draft} {p q : Path} {v : Json}

theorem get?_eq_of_at?_eq (h : d'.members.at? p.segments = d.members.at? p.segments) :
    d'.get? p = d.get? p := by
  rw [get?, get?, h]

/-- A path at which something is read is free, and is not the root. -/
theorem admits_of_get?_eq_some (h : d.get? p = some v) : d.Admits p :=
  Members.admits_of_at?_eq_some (Option.filter_eq_some_iff.mp h).1

theorem set_eq_ok (h : d.set p v = .ok d') :
    p.isRoot = false ∧ d.members.set? v p.segments = some d'.members := by
  unfold set at h
  split at h
  · exact absurd h (by simp)
  · rename_i hroot
    split at h
    · rename_i ms hms
      rw [Except.ok.injEq] at h
      exact ⟨by simpa using hroot, by rw [hms, ← h]⟩
    · exact absurd h (by simp)

/-- **A write succeeds on a free path.** -/
theorem exists_set_eq_ok (h : d.Admits p) (v : Json) : ∃ d', d.set p v = .ok d' := by
  obtain ⟨ms, hms⟩ := Members.exists_set?_of_admits v h
  have hroot : p.isRoot = false := by
    rw [Path.isRoot, List.isEmpty_eq_false_iff]
    intro hnil
    rw [Admits, hnil] at h
    exact h
  exact ⟨⟨ms⟩, by rw [set, hroot, hms]; rfl⟩

theorem at?_set_self (h : d.set p v = .ok d') : d'.members.at? p.segments = some v :=
  Members.at?_set?_self (set_eq_ok h).2

theorem at?_set_of_apart (hpq : Apart p.segments q.segments) (h : d.set p v = .ok d') :
    d'.members.at? q.segments = d.members.at? q.segments :=
  Members.at?_set?_of_apart hpq (set_eq_ok h).2

theorem at?_remove_of_apart (hpq : Apart p.segments q.segments) :
    (d.remove p).2.members.at? q.segments = d.members.at? q.segments :=
  Members.at?_remove_of_apart d.members hpq

theorem Admits.remove (h : d.Admits q) : (d.remove p).2.Admits q :=
  Members.Admits.remove h

/-- A write leaves a path free that is its own path or apart from it. -/
theorem Admits.set (h : d.Admits q) (hpq : p = q ∨ Apart p.segments q.segments)
    (hset : d.set p v = .ok d') : d'.Admits q := by
  refine Members.Admits.set? h ?_ (set_eq_ok hset).2
  intro hpre
  rcases hpq with rfl | hpq
  · rfl
  · exact absurd hpre hpq.1

theorem admits_of_set_eq_ok (h : d.set p v = .ok d') : d.Admits p :=
  Members.admits_of_set?_eq_some (set_eq_ok h).2

/-- A write does not free another path. -/
theorem Admits.of_set (hpq : p = q ∨ Apart p.segments q.segments) (hset : d.set p v = .ok d')
    (h : d'.Admits q) : d.Admits q := by
  rcases hpq with rfl | hpq
  · exact admits_of_set_eq_ok hset
  · exact Members.Admits.of_set? hpq (set_eq_ok hset).2 h

end Draft

end Interview
