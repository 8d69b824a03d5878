import Interview.Json.Basic
import Interview.Draft.Error
/-
Drafts: records that are still being filled in.

A draft is a JSON object whose fields are addressed by paths. A field that holds null
reads as absent, so an optional field of a partial record counts as unanswered.

Writing makes the objects on the way, and a null on the way counts as a missing object.
Removing takes back what writing made: an object that the removal leaves empty goes as
well, and so on upwards.

There are two forms of writing. `set` puts the objects on the way together again from the end
of the path upwards, so a write that fails gives nothing. `write` works in place: it goes
down and changes the draft as it goes, and it can fail at every step of the way, so it also
says what a write that fails leaves behind.
-/

set_option autoImplicit false

namespace Interview

/-! ## Reading, writing and removing in an object -/

namespace Members

/-- The value at the end of a list of segments. -/
def at? (ms : Members) : List String → Option Json
  | [] => none
  | [s] => ms.find? s
  | s :: rest =>
    match ms.find? s with
    | some (.object inner) => at? inner rest
    | _ => none

/-- The object with `v` at the end of the segments; nothing when a value on the way is neither
null nor an object, or when there is no segment at all. -/
def set? (ms : Members) (v : Json) : List String → Option Members
  | [] => none
  | [s] => some (ms.put s v)
  | s :: rest =>
    match ms.find? s with
    | none | some .null => (set? [] v rest).map fun inner => ms.put s (.object inner)
    | some (.object inner) => (set? inner v rest).map fun inner => ms.put s (.object inner)
    | some _ => none

/-- The object with an empty object under a name, unless something is there already that is not
null. -/
def opened (ms : Members) (s : String) : Members :=
  match ms.find? s with
  | none | some .null => ms.put s (.object [])
  | some _ => ms

/-- Writing in place: whether `v` could be put at the end of the segments, and what the object is
after that. What is missing on the way is made on the way down, before it is known whether the
segments behind it can be followed. -/
def write (ms : Members) (v : Json) : List String → Bool × Members
  | [] => (false, ms)
  | [s] => (true, ms.put s v)
  | s :: rest =>
    let ms := ms.opened s
    match ms.find? s with
    | some (.object inner) =>
      let (stored, inner) := write inner v rest
      (stored, ms.put s (.object inner))
    | _ => (false, ms)

/-- The object without the value at the end of the segments, and that value. An object on the way
that is left empty is removed too. -/
def remove (ms : Members) : List String → Option Json × Members
  | [] => (none, ms)
  | [s] => (ms.find? s, ms.erase s)
  | s :: rest =>
    match ms.find? s with
    | some (.object inner) =>
      match remove inner rest with
      | (none, _) => (none, ms)
      | (some v, []) => (some v, ms.erase s)
      | (some v, inner) => (some v, ms.put s (.object inner))
    | _ => (none, ms)

end Members

/-! ## Dropping nulls -/

namespace Json

mutual

/-- The value without its null members, at every level that objects reach; nothing for null
itself. Lists are kept whole. -/
def withoutNulls? : Json → Option Json
  | .null => none
  | .object ms => some (.object (membersWithoutNulls ms))
  | v => some v

/-- The members that are not null, each without its own null members. -/
def membersWithoutNulls : Members → Members
  | [] => []
  | (k, v) :: ms =>
    match withoutNulls? v with
    | some v => (k, v) :: membersWithoutNulls ms
    | none => membersWithoutNulls ms

end

end Json

/-! ## Drafts -/

/-- A record that is being filled in, as the members it has so far. -/
structure Draft where
  members : Members
deriving Inhabited

namespace Draft

/-- The draft in which nothing is answered. -/
def empty : Draft :=
  ⟨[]⟩

/-- The draft as a JSON object. -/
def toJson (d : Draft) : Json :=
  .object d.members

/-- The draft that a partial record is. Nulls are dropped, and null itself is the empty draft. -/
def ofJson? (v : Json) : Except DraftError Draft :=
  match v.withoutNulls? with
  | none => .ok empty
  | some (.object ms) => .ok ⟨ms⟩
  | some other => .error (.invalidRoot other.kindName)

/-- The value at a path, unless it is null. -/
def get? (d : Draft) (p : Path) : Option Json :=
  (d.members.at? p.segments).filter fun v => !v.isNull

/-- The text at a path, if a text is there. -/
def text? (d : Draft) (p : Path) : Option String :=
  (d.get? p).bind Json.text?

/-- Whether there is a value at a path. -/
def contains (d : Draft) (p : Path) : Bool :=
  (d.get? p).isSome

/-- The draft with `v` at a path, with the objects on the way made as needed. -/
def set (d : Draft) (p : Path) (v : Json) : Except DraftError Draft :=
  if p.isRoot then .error .rootPath
  else
    match d.members.set? v p.segments with
    | some ms => .ok ⟨ms⟩
    | none => .error (.notAnObject p)

/-- Stores `v` at a path in place: the error if that fails, and the draft as it is left. -/
def write (d : Draft) (p : Path) (v : Json) : Except DraftError Unit × Draft :=
  if p.isRoot then (.error .rootPath, d)
  else
    match d.members.write v p.segments with
    | (true, ms) => (.ok (), ⟨ms⟩)
    | (false, ms) => (.error (.notAnObject p), ⟨ms⟩)

/-- The draft without the value at a path, and the value, unless it is null. -/
def remove (d : Draft) (p : Path) : Option Json × Draft :=
  let (v, ms) := d.members.remove p.segments
  (v.filter fun v => !v.isNull, ⟨ms⟩)

/-- The names of the top-level fields. -/
def names (d : Draft) : List String :=
  d.members.map Prod.fst

/-- The number of top-level fields. -/
def size (d : Draft) : Nat :=
  d.members.length

/-- Whether nothing is answered yet. -/
def isEmpty (d : Draft) : Bool :=
  d.members.isEmpty

end Draft

end Interview
