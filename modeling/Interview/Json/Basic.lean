import Interview.Number.Binary64
/-
JSON values.

Whole numbers and binary64 numbers are different values here, so `1` and `1.0` are not
equal. The members of an object stand in ascending order of their names; `Members.put`
keeps that order, and `Ordered` says that a value has it at every level. Names are
compared by code point, which is also the order of their UTF-8 bytes.

The order is what makes equality of objects plain equality: two lists of members with the
same content are the same list. Reading and writing by name does not rest on it. `find?`
is the view through which the two ways of writing are described: `put` changes what is
under one name and `erase` removes it, and what is under every other name stays.
-/

set_option autoImplicit false

namespace Interview

/-- A JSON value. -/
inductive Json
  | null
  | bool (b : Bool)
  | int (n : Int)
  | float (x : Binary64)
  | text (s : String)
  | list (vs : List Json)
  | object (ms : List (String × Json))
deriving Repr, Inhabited

/-- The members of an object, by name. -/
abbrev Members := List (String × Json)

namespace Json

/-! ## Equality

Values are compared part by part; the two zeros of binary64 are equal. -/

mutual

/-- Equality of values. -/
def same : Json → Json → Bool
  | .null, .null => true
  | .bool a, .bool b => a == b
  | .int a, .int b => a == b
  | .float a, .float b => a.same b
  | .text a, .text b => a == b
  | .list a, .list b => sameList a b
  | .object a, .object b => sameMembers a b
  | _, _ => false

/-- Equality of lists, element by element. -/
def sameList : List Json → List Json → Bool
  | [], [] => true
  | x :: xs, y :: ys => same x y && sameList xs ys
  | _, _ => false

/-- Equality of members, name by name. -/
def sameMembers : Members → Members → Bool
  | [], [] => true
  | (k, x) :: xs, (l, y) :: ys => k == l && same x y && sameMembers xs ys
  | _, _ => false

end

instance : BEq Json := ⟨same⟩

mutual

theorem same_refl : (v : Json) → same v v = true
  | .null => rfl
  | .bool b => by simp [same]
  | .int n => by simp [same]
  | .float x => by simp [same, Binary64.same_refl]
  | .text s => by simp [same]
  | .list vs => by simp [same, sameList_refl vs]
  | .object ms => by simp [same, sameMembers_refl ms]

theorem sameList_refl : (vs : List Json) → sameList vs vs = true
  | [] => rfl
  | v :: vs => by simp [sameList, same_refl v, sameList_refl vs]

theorem sameMembers_refl : (ms : Members) → sameMembers ms ms = true
  | [] => rfl
  | (k, v) :: ms => by simp [sameMembers, same_refl v, sameMembers_refl ms]

end

instance : ReflBEq Json := ⟨same_refl _⟩

/-! ## Views -/

/-- The name of the kind of a value. -/
def kindName : Json → String
  | .null => "null"
  | .bool _ => "bool"
  | .int _ => "number"
  | .float _ => "number"
  | .text _ => "string"
  | .list _ => "array"
  | .object _ => "object"

/-- Whether a value is null. -/
def isNull : Json → Bool
  | .null => true
  | _ => false

/-- The text of a text value. -/
def text? : Json → Option String
  | .text s => some s
  | _ => none

end Json

/-! ## Members -/

namespace Members

/-- The value under a name. -/
def find? (k : String) : Members → Option Json
  | [] => none
  | (l, v) :: ms => if l = k then some v else find? k ms

/-- The members with `v` in place of what is under the name `k`. -/
def replace (k : String) (v : Json) : Members → Members
  | [] => []
  | (l, w) :: ms => if l = k then (k, v) :: ms else (l, w) :: replace k v ms

/-- The members with a new name, in front of the first greater one. -/
def insert (k : String) (v : Json) : Members → Members
  | [] => [(k, v)]
  | (l, w) :: ms => if k < l then (k, v) :: (l, w) :: ms else (l, w) :: insert k v ms

/-- The members with `v` under the name `k`: in place when the name is there, else in front of
the first greater name. -/
def put (k : String) (v : Json) (ms : Members) : Members :=
  if (find? k ms).isSome then replace k v ms else insert k v ms

/-- The members without the name `k`. -/
def erase (k : String) : Members → Members
  | [] => []
  | (l, w) :: ms => if l = k then erase k ms else (l, w) :: erase k ms

/-- Members from a list in any order; the last value of a repeated name counts. -/
def ofList (ms : List (String × Json)) : Members :=
  ms.foldl (fun acc m => put m.1 m.2 acc) []

/-- The names stand in strictly ascending order. -/
def Ascending (ms : Members) : Prop :=
  ms.Pairwise fun a b => a.1 < b.1

/-! ### What is under a name -/

theorem find?_replace_self {k : String} {v : Json} {ms : Members} (h : (find? k ms).isSome) :
    find? k (replace k v ms) = some v := by
  induction ms with
  | nil => simp [find?] at h
  | cons m ms ih =>
    obtain ⟨l, w⟩ := m
    by_cases hl : l = k
    · simp [replace, find?, hl]
    · simp only [find?, if_neg hl] at h
      simp only [replace, if_neg hl, find?]
      exact ih h

theorem find?_replace_of_ne {k l : String} (h : l ≠ k) (v : Json) (ms : Members) :
    find? l (replace k v ms) = find? l ms := by
  induction ms with
  | nil => rfl
  | cons m ms ih =>
    obtain ⟨n, w⟩ := m
    by_cases hn : n = k
    · subst hn
      simp [replace, find?, Ne.symm h]
    · by_cases hl : n = l
      · subst hl
        simp [replace, find?, hn]
      · simp [replace, find?, hn, hl, ih]

theorem find?_insert_self {k : String} {v : Json} {ms : Members} (h : find? k ms = none) :
    find? k (insert k v ms) = some v := by
  induction ms with
  | nil => simp [insert, find?]
  | cons m ms ih =>
    obtain ⟨l, w⟩ := m
    have hl : ¬ l = k := by
      intro hl
      simp [find?, hl] at h
    simp only [find?, if_neg hl] at h
    by_cases hk : k < l
    · simp [insert, find?, hk]
    · simp only [insert, if_neg hk, find?, if_neg hl]
      exact ih h

theorem find?_insert_of_ne {k l : String} (h : l ≠ k) (v : Json) (ms : Members) :
    find? l (insert k v ms) = find? l ms := by
  induction ms with
  | nil => simp [insert, find?, Ne.symm h]
  | cons m ms ih =>
    obtain ⟨n, w⟩ := m
    by_cases hk : k < n
    · simp [insert, find?, hk, Ne.symm h]
    · by_cases hl : n = l
      · subst hl
        simp [insert, find?, hk]
      · simp [insert, find?, hk, hl, ih]

/-- What was put under a name is found there. -/
theorem find?_put_self (k : String) (v : Json) (ms : Members) : find? k (put k v ms) = some v := by
  unfold put
  split
  · rename_i h
    exact find?_replace_self h
  · rename_i h
    exact find?_insert_self (by simpa using h)

/-- Putting something under a name leaves the other names alone. -/
theorem find?_put_of_ne {k l : String} (h : l ≠ k) (v : Json) (ms : Members) :
    find? l (put k v ms) = find? l ms := by
  unfold put
  split
  · exact find?_replace_of_ne h v ms
  · exact find?_insert_of_ne h v ms

/-- Nothing is found under a name that was erased. -/
theorem find?_erase_self (k : String) (ms : Members) : find? k (erase k ms) = none := by
  induction ms with
  | nil => rfl
  | cons m ms ih =>
    obtain ⟨l, w⟩ := m
    by_cases hl : l = k <;> simp [erase, find?, hl, ih]

/-- Erasing a name leaves the other names alone. -/
theorem find?_erase_of_ne {k l : String} (h : l ≠ k) (ms : Members) :
    find? l (erase k ms) = find? l ms := by
  induction ms with
  | nil => rfl
  | cons m ms ih =>
    obtain ⟨n, w⟩ := m
    by_cases hn : n = k
    · subst hn
      simp [erase, find?, ih, Ne.symm h]
    · by_cases hl : n = l
      · subst hl
        simp [erase, find?, hn]
      · simp [erase, find?, hn, hl, ih]

end Members

namespace Json

/-- An object with the given members, put in order. -/
def ofMembers (ms : List (String × Json)) : Json :=
  .object (Members.ofList ms)

mutual

/-- Every object in the value has its names in ascending order. -/
def Ordered : Json → Prop
  | .list vs => OrderedList vs
  | .object ms => Members.Ascending ms ∧ OrderedMembers ms
  | _ => True

/-- Every value of the list is ordered. -/
def OrderedList : List Json → Prop
  | [] => True
  | v :: vs => Ordered v ∧ OrderedList vs

/-- Every member's value is ordered. -/
def OrderedMembers : Members → Prop
  | [] => True
  | (_, v) :: ms => Ordered v ∧ OrderedMembers ms

end

/-- The value under a name, if the value is an object that has it. -/
def member? (k : String) : Json → Option Json
  | .object ms => Members.find? k ms
  | _ => none

end Json

end Interview
