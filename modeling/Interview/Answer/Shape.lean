import Interview.Json.Basic
/-
Shapes: which JSON values are values of a type, and in what form they are kept.

Decoding a value against a shape keeps what the shape knows and drops the rest, so the
result is the value's own form of the type. A record may be given by the names of its
parts or as a list in their order; parts it does not know are dropped, and an optional
part that is missing is null. A variant is given by its name, alone or over a null.
-/

set_option autoImplicit false

namespace Interview

/-- The shape of a type of answers. -/
inductive Shape
  /-- Every value. -/
  | anything
  /-- Texts. -/
  | text
  /-- Truth values. -/
  | bool
  /-- Whole numbers between two bounds. -/
  | whole (least greatest : Int)
  /-- One of several names. -/
  | variant (names : List String)
  /-- Null, or a value of the shape. -/
  | optional (s : Shape)
  /-- Null, or a value of the shape; as the last part of a list it may be left out. -/
  | defaulted (s : Shape)
  /-- Lists of values of the shape. -/
  | listOf (s : Shape)
  /-- Records with the given parts. -/
  | record (parts : List (String × Shape))

namespace Shape

/-! ## Common shapes -/

/-- Natural numbers of 32 bits. -/
def nat32 : Shape := .whole 0 (twoPow 32 - 1)

/-- Natural numbers of 64 bits. -/
def nat64 : Shape := .whole 0 (twoPow 64 - 1)

/-- Whole numbers of 64 bits, with sign. -/
def int64 : Shape := .whole (-(twoPow 63)) (twoPow 63 - 1)

/-- The answer of a two-tier question: the key and the item picked under it. -/
def choice (key item : Shape) : Shape :=
  .record [("key", key), ("item", item)]

/-! ## Decoding -/

/-- The name of a variant, given alone or as the only member of an object, over a null. -/
def variantName? : Json → Option String
  | .text s => some s
  | .object [(k, .null)] => some k
  | _ => none

/-- What a missing part of a record counts as: an optional one is null, no other may be missing. -/
def absent? : Shape → Option Json
  | .optional _ | .defaulted _ => some .null
  | _ => none

mutual

/-- The value as a value of the shape, if it is one. -/
def decode? : Shape → Json → Option Json
  | .anything, v => some v
  | .text, .text s => some (.text s)
  | .bool, .bool b => some (.bool b)
  | .whole lo hi, .int n => if lo ≤ n ∧ n ≤ hi then some (.int n) else none
  | .variant names, v => do
    let name ← variantName? v
    if name ∈ names then some (.text name) else none
  | .optional _, .null | .defaulted _, .null => some .null
  | .optional s, v | .defaulted s, v => decode? s v
  | .listOf s, .list vs => (vs.mapM (decode? s)).map .list
  | .record parts, .object ms => (decodeParts parts ms).map Json.ofMembers
  | .record parts, .list vs => (decodeInOrder parts vs).map Json.ofMembers
  | _, _ => none

/-- The parts of a record, by name. -/
def decodeParts : List (String × Shape) → Members → Option Members
  | [], _ => some []
  | (name, s) :: parts, ms => do
    let v ← match ms.find? name with
      | some v => decode? s v
      | none => s.absent?
    let rest ← decodeParts parts ms
    return (name, v) :: rest

/-- The parts of a record, one after the other. -/
def decodeInOrder : List (String × Shape) → List Json → Option Members
  | [], [] => some []
  | [], _ :: _ => none
  | (name, .defaulted _) :: parts, [] => do
    let rest ← decodeInOrder parts []
    return (name, .null) :: rest
  | _ :: _, [] => none
  | (name, s) :: parts, v :: vs => do
    let v ← decode? s v
    let rest ← decodeInOrder parts vs
    return (name, v) :: rest

end

end Shape

end Interview
