import Interview.Json.Basic
import Mathlib.Data.String.Basic
/-
The algebra of members: how putting and erasing under one name cancel.

`Interview.Json.Basic` says what is found under a name after a write. That is enough for
whoever reads, but not for whoever takes a write back: there the list of members itself has
to be the one from before, entry by entry. The laws of this file are equations between
lists. Most of them hold for members in any order, because `replace` works in place; only
`put_erase`, which puts a name back that was taken out, needs the names to ascend, since it
finds the place again by comparing names.
-/

set_option autoImplicit false

namespace Interview.Members

/-! ## Absent names -/

/-- Erasing a name that is not there changes nothing. -/
theorem erase_of_find?_eq_none {k : String} {ms : Members} (h : find? k ms = none) :
    erase k ms = ms := by
  induction ms with
  | nil => rfl
  | cons m ms ih =>
      obtain ⟨l, w⟩ := m
      by_cases hl : l = k
      · simp [find?, hl] at h
      · simp only [find?, if_neg hl] at h
        rw [erase, if_neg hl, ih h]

/-- A name that is smaller than all others is not among them. -/
theorem find?_eq_none_of_forall_lt {k : String} {ms : Members} (h : ∀ m ∈ ms, k < m.1) :
    find? k ms = none := by
  induction ms with
  | nil => rfl
  | cons m ms ih =>
      obtain ⟨l, w⟩ := m
      have hlt : k < l := h (l, w) List.mem_cons_self
      rw [find?, if_neg (ne_of_gt hlt)]
      exact ih fun m hm => h m (List.mem_cons_of_mem _ hm)

/-- A name that is found is the name of a member. -/
theorem mem_of_find?_eq_some {k : String} {v : Json} {ms : Members} (h : find? k ms = some v) :
    (k, v) ∈ ms := by
  induction ms with
  | nil => simp [find?] at h
  | cons m ms ih =>
      obtain ⟨l, w⟩ := m
      by_cases hl : l = k
      · rw [find?, if_pos hl, Option.some.injEq] at h
        rw [hl, h]
        exact List.mem_cons_self
      · rw [find?, if_neg hl] at h
        exact List.mem_cons_of_mem _ (ih h)

/-! ## Two writes under one name -/

/-- Replacing a value by itself changes nothing. -/
theorem replace_of_find?_eq_some {k : String} {v : Json} {ms : Members}
    (h : find? k ms = some v) : replace k v ms = ms := by
  induction ms with
  | nil => rfl
  | cons m ms ih =>
      obtain ⟨l, w⟩ := m
      by_cases hl : l = k
      · rw [find?, if_pos hl, Option.some.injEq] at h
        rw [replace, if_pos hl, ← hl, h]
      · rw [find?, if_neg hl] at h
        rw [replace, if_neg hl, ih h]

theorem replace_replace (k : String) (v w : Json) (ms : Members) :
    replace k v (replace k w ms) = replace k v ms := by
  induction ms with
  | nil => rfl
  | cons m ms ih =>
      obtain ⟨l, x⟩ := m
      by_cases hl : l = k
      · simp [replace, hl]
      · simp [replace, hl, ih]

theorem replace_insert {k : String} {ms : Members} (h : find? k ms = none) (v w : Json) :
    replace k v (insert k w ms) = insert k v ms := by
  induction ms with
  | nil => simp [insert, replace]
  | cons m ms ih =>
      obtain ⟨l, x⟩ := m
      have hl : ¬ l = k := by
        intro hl
        simp [find?, hl] at h
      rw [find?, if_neg hl] at h
      by_cases hk : k < l
      · simp [insert, hk, replace]
      · simp only [insert, if_neg hk, replace, if_neg hl]
        rw [ih h]

theorem erase_replace (k : String) (v : Json) (ms : Members) :
    erase k (replace k v ms) = erase k ms := by
  induction ms with
  | nil => rfl
  | cons m ms ih =>
      obtain ⟨l, x⟩ := m
      by_cases hl : l = k
      · simp [replace, erase, hl]
      · simp [replace, erase, hl, ih]

theorem erase_insert {k : String} {ms : Members} (h : find? k ms = none) (v : Json) :
    erase k (insert k v ms) = ms := by
  induction ms with
  | nil => simp [insert, erase]
  | cons m ms ih =>
      obtain ⟨l, x⟩ := m
      have hne := erase_of_find?_eq_none h
      have hl : ¬ l = k := by
        intro hl
        simp [find?, hl] at h
      rw [find?, if_neg hl] at h
      by_cases hk : k < l
      · rw [insert, if_pos hk, erase, if_pos rfl, hne]
      · rw [insert, if_neg hk, erase, if_neg hl, ih h]

/-- Putting back what is there changes nothing. -/
theorem put_of_find?_eq_some {k : String} {v : Json} {ms : Members} (h : find? k ms = some v) :
    put k v ms = ms := by
  rw [put, if_pos (by rw [h]; rfl)]
  exact replace_of_find?_eq_some h

/-- The later of two writes under one name is the one that counts. -/
theorem put_put (k : String) (v w : Json) (ms : Members) : put k v (put k w ms) = put k v ms := by
  have hfound : (find? k (put k w ms)).isSome := by rw [find?_put_self]; rfl
  rw [put, if_pos hfound]
  unfold put
  split
  · rename_i h
    exact replace_replace k v w ms
  · rename_i h
    exact replace_insert (by simpa using h) v w

/-- What is put under a name is gone with the name. -/
theorem erase_put (k : String) (v : Json) (ms : Members) : erase k (put k v ms) = erase k ms := by
  unfold put
  split
  · exact erase_replace k v ms
  · rename_i h
    have hnone : find? k ms = none := by simpa using h
    rw [erase_insert hnone, erase_of_find?_eq_none hnone]

/-! ## Order -/

theorem ascending_nil : Ascending [] := List.Pairwise.nil

theorem ascending_cons {m : String × Json} {ms : Members} :
    Ascending (m :: ms) ↔ (∀ n ∈ ms, m.1 < n.1) ∧ Ascending ms := List.pairwise_cons

theorem name_of_mem_replace {k : String} {v : Json} {ms : Members} {m : String × Json}
    (h : m ∈ replace k v ms) : ∃ n ∈ ms, n.1 = m.1 := by
  induction ms with
  | nil => exact absurd h List.not_mem_nil
  | cons n ms ih =>
      obtain ⟨l, x⟩ := n
      by_cases hl : l = k
      · rw [replace, if_pos hl] at h
        rcases List.mem_cons.mp h with h | h
        · exact ⟨(l, x), List.mem_cons_self, by rw [h, hl]⟩
        · exact ⟨m, List.mem_cons_of_mem _ h, rfl⟩
      · rw [replace, if_neg hl] at h
        rcases List.mem_cons.mp h with h | h
        · exact ⟨(l, x), List.mem_cons_self, by rw [h]⟩
        · obtain ⟨n, hn, hname⟩ := ih h
          exact ⟨n, List.mem_cons_of_mem _ hn, hname⟩

theorem eq_or_mem_of_mem_replace {k : String} {v : Json} {ms : Members} {m : String × Json}
    (h : m ∈ replace k v ms) : m = (k, v) ∨ m ∈ ms := by
  induction ms with
  | nil => exact absurd h List.not_mem_nil
  | cons n ms ih =>
      obtain ⟨l, x⟩ := n
      rw [replace] at h
      split at h
      · exact (List.mem_cons.mp h).imp_right (List.mem_cons_of_mem _)
      · rcases List.mem_cons.mp h with h | h
        · exact Or.inr (h ▸ List.mem_cons_self)
        · exact (ih h).imp_right (List.mem_cons_of_mem _)

theorem eq_or_mem_of_mem_insert {k : String} {v : Json} {ms : Members} {m : String × Json}
    (h : m ∈ insert k v ms) : m = (k, v) ∨ m ∈ ms := by
  induction ms with
  | nil => exact Or.inl (List.mem_singleton.mp h)
  | cons n ms ih =>
      obtain ⟨l, x⟩ := n
      by_cases hk : k < l
      · rw [insert, if_pos hk] at h
        exact List.mem_cons.mp h
      · rw [insert, if_neg hk] at h
        rcases List.mem_cons.mp h with h | h
        · exact Or.inr (h ▸ List.mem_cons_self)
        · rcases ih h with h | h
          · exact Or.inl h
          · exact Or.inr (List.mem_cons_of_mem _ h)

/-- Every member is the one that was put, or it was there before. -/
theorem eq_or_mem_of_mem_put {k : String} {v : Json} {ms : Members} {m : String × Json}
    (h : m ∈ put k v ms) : m = (k, v) ∨ m ∈ ms := by
  unfold put at h
  split at h
  · exact eq_or_mem_of_mem_replace h
  · exact eq_or_mem_of_mem_insert h

theorem erase_sublist (k : String) (ms : Members) : (erase k ms).Sublist ms := by
  induction ms with
  | nil => exact List.Sublist.refl _
  | cons m ms ih =>
      rw [erase]
      split
      · exact ih.cons _
      · exact ih.cons_cons _

theorem Ascending.replace {ms : Members} (h : Ascending ms) (k : String) (v : Json) :
    Ascending (replace k v ms) := by
  induction ms with
  | nil => exact h
  | cons m ms ih =>
      obtain ⟨l, x⟩ := m
      obtain ⟨hlt, hms⟩ := ascending_cons.mp h
      by_cases hl : l = k
      · rw [Members.replace, if_pos hl]
        exact ascending_cons.mpr ⟨hl ▸ hlt, hms⟩
      · rw [Members.replace, if_neg hl]
        refine ascending_cons.mpr ⟨?_, ih hms⟩
        intro n hn
        obtain ⟨n', hn', hname⟩ := name_of_mem_replace hn
        exact hname ▸ hlt n' hn'

theorem Ascending.insert {k : String} {ms : Members} (h : Ascending ms) (hk : find? k ms = none)
    (v : Json) : Ascending (insert k v ms) := by
  induction ms with
  | nil => exact ascending_cons.mpr ⟨fun n hn => absurd hn List.not_mem_nil, ascending_nil⟩
  | cons m ms ih =>
      obtain ⟨l, x⟩ := m
      obtain ⟨hlt, hms⟩ := ascending_cons.mp h
      have hl : ¬ l = k := by
        intro hl
        simp [find?, hl] at hk
      rw [find?, if_neg hl] at hk
      by_cases hkl : k < l
      · rw [Members.insert, if_pos hkl]
        refine ascending_cons.mpr ⟨?_, h⟩
        intro n hn
        rcases List.mem_cons.mp hn with rfl | hn
        · exact hkl
        · exact lt_trans hkl (hlt n hn)
      · rw [Members.insert, if_neg hkl]
        have hlk : l < k := lt_of_le_of_ne (not_lt.mp hkl) hl
        refine ascending_cons.mpr ⟨?_, ih hms hk⟩
        intro n hn
        rcases eq_or_mem_of_mem_insert hn with rfl | hn
        · exact hlk
        · exact hlt n hn

/-- Putting something under a name keeps the order. -/
theorem Ascending.put {ms : Members} (h : Ascending ms) (k : String) (v : Json) :
    Ascending (put k v ms) := by
  unfold Members.put
  split
  · exact h.replace k v
  · rename_i hk
    exact h.insert (by simpa using hk) v

/-- Erasing a name keeps the order. -/
theorem Ascending.erase {ms : Members} (h : Ascending ms) (k : String) :
    Ascending (erase k ms) :=
  h.sublist (erase_sublist k ms)

/-- **A name that was taken out goes back to its place.** This is the one law that needs the
order: `insert` finds the place by comparing names. -/
theorem put_erase {k : String} {v : Json} {ms : Members} (h : Ascending ms)
    (hk : find? k ms = some v) : put k v (erase k ms) = ms := by
  rw [put, if_neg (by rw [find?_erase_self]; simp)]
  induction ms with
  | nil => simp [find?] at hk
  | cons m ms ih =>
      obtain ⟨l, x⟩ := m
      obtain ⟨hlt, hms⟩ := ascending_cons.mp h
      by_cases hl : l = k
      · subst hl
        rw [find?, if_pos rfl, Option.some.injEq] at hk
        subst hk
        rw [erase, if_pos rfl, erase_of_find?_eq_none (find?_eq_none_of_forall_lt hlt)]
        cases ms with
        | nil => rfl
        | cons n ms =>
            obtain ⟨m, y⟩ := n
            rw [insert, if_pos (hlt (m, y) List.mem_cons_self)]
      · rw [find?, if_neg hl] at hk
        have hlk : l < k := hlt (k, v) (mem_of_find?_eq_some hk)
        rw [erase, if_neg hl, insert, if_neg (not_lt.mpr (le_of_lt hlk)), ih hms hk]

end Interview.Members
