import Interview.Json.Reader
import Interview.Proofs.Draft.Members
/-
What a reader returns.

Whole numbers fit 64 bits, names ascend in every object, and brackets are nested no deeper than the
reader was allowed to go. The readers of values, elements and members count down one number, and the
induction is on it.
-/

set_option autoImplicit false

namespace Interview

/-! ## Members from a list -/

namespace Members

/-- A fold of writes keeps what every single write keeps. -/
theorem foldl_put {P : Members → Prop} {ms : List (String × Json)}
    (hput : ∀ m ∈ ms, ∀ acc, P acc → P (put m.1 m.2 acc)) {acc : Members} (h : P acc) :
    P (ms.foldl (fun acc m => put m.1 m.2 acc) acc) := by
  induction ms generalizing acc with
  | nil => exact h
  | cons m ms ih =>
      exact ih (fun m' hm' => hput m' (List.mem_cons_of_mem _ hm'))
        (hput m List.mem_cons_self acc h)

theorem ascending_ofList (ms : List (String × Json)) : Ascending (ofList ms) :=
  foldl_put (fun m _ _ h => h.put m.1 m.2) ascending_nil

end Members

namespace Json

mutual

/-- A value that can be read: its whole numbers fit 64 bits, its names ascend, and it is nested at
most so many levels deep. -/
def Readable : Json → Nat → Prop
  | .int n, _ => -(twoPow 63 : Int) ≤ n ∧ n < twoPow 64
  | .list _, 0 => False
  | .list vs, depth + 1 => ReadableList vs depth
  | .object _, 0 => False
  | .object ms, depth + 1 => Members.Ascending ms ∧ ReadableMembers ms depth
  | _, _ => True

/-- Every value of the list can be read. -/
def ReadableList : List Json → Nat → Prop
  | [], _ => True
  | v :: vs, depth => Readable v depth ∧ ReadableList vs depth

/-- Every member's value can be read. -/
def ReadableMembers : Members → Nat → Prop
  | [], _ => True
  | (_, v) :: ms, depth => Readable v depth ∧ ReadableMembers ms depth

end

variable {depth n : Nat} {cs rest : List Char} {v : Json}

/-! ## Numbers -/

theorem extend_lt {s : Nat} (h : s < twoPow 64) (ds : List Char) : (extend s ds).1 < twoPow 64 := by
  induction ds generalizing s with
  | nil => exact h
  | cons d ds ih =>
      rw [extend]
      split
      · rename_i hm
        exact ih hm
      · exact h

theorem readable_of_ofNumber? {negative : Bool} {whole fraction : List Char}
    {exponent : Option Int} (h : ofNumber? negative whole fraction exponent = some v) :
    Readable v depth := by
  have hfloat : ∀ x : Option Binary64, x.map Json.float = some v → Readable v depth := by
    intro x hx
    obtain ⟨y, -, rfl⟩ := Option.map_eq_some_iff.mp hx
    simp [Readable]
  have hlt : (extend 0 whole).1 < twoPow 64 := extend_lt (by decide) whole
  unfold ofNumber? at h
  simp only at h
  split at h
  · split at h
    · -- a whole number without a sign
      obtain rfl := Option.some.inj h
      simp only [Readable]
      omega
    · split at h
      · rename_i hs
        simp only [Bool.and_eq_true, decide_eq_true_eq] at hs
        obtain rfl := Option.some.inj h
        simp only [Readable]
        omega
      · exact hfloat _ h
  · exact hfloat _ h

theorem readable_of_readNumber {negative : Bool} (h : readNumber negative cs = some (v, rest)) :
    Readable v depth := by
  unfold readNumber at h
  simp only at h
  split at h
  · exact absurd h (by simp)
  · simp only [Option.bind_eq_bind, Option.bind_eq_some_iff, Option.pure_def, Option.some.injEq,
      Prod.mk.injEq] at h
    obtain ⟨_, _, _, _, w, hw, rfl, _⟩ := h
    exact readable_of_ofNumber? hw

/-! ## Members -/

theorem readableMembers_iff {ms : Members} :
    ReadableMembers ms depth ↔ ∀ m ∈ ms, Readable m.2 depth := by
  induction ms with
  | nil => exact iff_of_true trivial fun m hm => absurd hm List.not_mem_nil
  | cons m ms ih => rw [ReadableMembers, ih, List.forall_mem_cons]

theorem ReadableMembers.put {k : String} {ms : Members} (hms : ReadableMembers ms depth)
    (hv : Readable v depth) : ReadableMembers (ms.put k v) depth := by
  refine readableMembers_iff.mpr fun m hm => ?_
  rcases Members.eq_or_mem_of_mem_put hm with rfl | hm
  · exact hv
  · exact readableMembers_iff.mp hms m hm

theorem readable_ofMembers {ms : List (String × Json)} (h : ReadableMembers ms depth) :
    Readable (ofMembers ms) (depth + 1) :=
  ⟨Members.ascending_ofList ms,
    Members.foldl_put (P := fun acc => ReadableMembers acc depth)
      (fun m hm _ hacc => hacc.put (readableMembers_iff.mp h m hm)) trivial⟩

/-! ## Values -/

/-- What the three readers return when they may count down from a number. -/
structure Sound (n : Nat) : Prop where
  value : ∀ {depth cs v rest}, readValue n depth cs = some (v, rest) → Readable v depth
  elements : ∀ {depth cs vs rest}, readElements n depth cs = some (vs, rest) →
    ReadableList vs depth
  members : ∀ {depth cs ms rest}, readMembers n depth cs = some (ms, rest) →
    ReadableMembers ms depth

theorem Sound.value_succ (h : Sound n) (hread : readValue (n + 1) depth cs = some (v, rest)) :
    Readable v depth := by
  have hflat : ∀ {α} {x : Option α} {f : α → Json × List Char}, x.map f = some (v, rest) →
      (∀ a, Readable (f a).1 depth) → Readable v depth := by
    intro α x f hx hf
    obtain ⟨a, -, ha⟩ := Option.map_eq_some_iff.mp hx
    have hv := hf a
    rwa [ha] at hv
  rw [readValue] at hread
  -- by the first character of the value
  split at hread
  · exact hflat hread fun _ => by simp [Readable]
  · exact hflat hread fun _ => by simp [Readable]
  · exact hflat hread fun _ => by simp [Readable]
  · exact hflat hread fun _ => by simp [Readable]
  · exact readable_of_readNumber hread
  · rcases depth with _ | depth
    · exact absurd hread (by simp)
    · simp only at hread
      split at hread
      · obtain ⟨rfl, -⟩ := Prod.mk.inj (Option.some.inj hread)
        exact trivial
      · obtain ⟨r, hr, hv⟩ := Option.map_eq_some_iff.mp hread
        obtain ⟨rfl, -⟩ := Prod.mk.inj hv
        exact h.elements hr
  · rcases depth with _ | depth
    · exact absurd hread (by simp)
    · simp only at hread
      split at hread
      · obtain ⟨rfl, -⟩ := Prod.mk.inj (Option.some.inj hread)
        exact ⟨Members.ascending_nil, trivial⟩
      · obtain ⟨r, hr, hv⟩ := Option.map_eq_some_iff.mp hread
        obtain ⟨rfl, -⟩ := Prod.mk.inj hv
        exact readable_ofMembers (h.members hr)
  · exact readable_of_readNumber hread

theorem Sound.elements_succ {vs : List Json} (h : Sound n)
    (hread : readElements (n + 1) depth cs = some (vs, rest)) : ReadableList vs depth := by
  rw [readElements] at hread
  obtain ⟨⟨v, rest'⟩, hv, hread⟩ := Option.bind_eq_some_iff.mp hread
  simp only at hread
  split at hread
  · obtain ⟨rfl, -⟩ := Prod.mk.inj (Option.some.inj hread)
    exact ⟨h.value hv, trivial⟩
  · obtain ⟨⟨vs', rest''⟩, hvs, hread⟩ := Option.bind_eq_some_iff.mp hread
    obtain ⟨rfl, -⟩ := Prod.mk.inj (Option.some.inj hread)
    exact ⟨h.value hv, h.elements hvs⟩
  · exact absurd hread (by simp)

theorem Sound.members_succ {ms : Members} (h : Sound n)
    (hread : readMembers (n + 1) depth cs = some (ms, rest)) : ReadableMembers ms depth := by
  rw [readMembers] at hread
  split at hread
  · obtain ⟨⟨k, rest'⟩, -, hread⟩ := Option.bind_eq_some_iff.mp hread
    simp only at hread
    split at hread
    · obtain ⟨⟨v, rest'⟩, hv, hread⟩ := Option.bind_eq_some_iff.mp hread
      simp only at hread
      split at hread
      · obtain ⟨rfl, -⟩ := Prod.mk.inj (Option.some.inj hread)
        exact ⟨h.value hv, trivial⟩
      · obtain ⟨⟨ms', rest''⟩, hms, hread⟩ := Option.bind_eq_some_iff.mp hread
        obtain ⟨rfl, -⟩ := Prod.mk.inj (Option.some.inj hread)
        exact ⟨h.value hv, h.members hms⟩
      · exact absurd hread (by simp)
    · exact absurd hread (by simp)
  · exact absurd hread (by simp)

theorem sound (n : Nat) : Sound n := by
  induction n with
  | zero =>
      refine ⟨fun h => ?_, fun h => ?_, fun h => ?_⟩
      · exact absurd h (by simp [readValue])
      · exact absurd h (by simp [readElements])
      · exact absurd h (by simp [readMembers])
  | succ n ih => exact ⟨ih.value_succ, ih.elements_succ, ih.members_succ⟩

/-- **What was read can be read**: it fits and it is in order. -/
theorem readable_of_read? {s : String} (h : read? depth s = some v) : Readable v depth := by
  unfold read? at h
  simp only at h
  split at h
  · rename_i v' rest hread
    split at h
    · obtain rfl := Option.some.inj h
      exact (sound _).value hread
    · exact absurd h (by simp)
  · exact absurd h (by simp)

end Json

end Interview
