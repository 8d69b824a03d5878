import Interview.Path
/-
What can go wrong in reading and writing a draft, and how it is told.

The detail that follows "Could not decode" depends on the reader of the value and is left
open as a placeholder.
-/

set_option autoImplicit false

namespace Interview

/-- The reasons for which a draft cannot be read or written. -/
inductive DraftError
  /-- The root was addressed as if it were a field. -/
  | rootPath
  /-- A field on the way to the path holds something that is not an object. -/
  | notAnObject (path : Path)
  /-- The draft would not be an object but a value of the named kind. -/
  | invalidRoot (kind : String)
  /-- An answer has no JSON form. -/
  | encode (path : Path) (detail : String)
  /-- A value is not of the type that was asked for. -/
  | decode (path : Path)
deriving DecidableEq

namespace DraftError

/-- The path that the error is about. -/
def path? : DraftError → Option Path
  | rootPath => none
  | notAnObject p => some p
  | invalidRoot _ => none
  | encode p _ => some p
  | decode p => some p

/-- The wording of the error. -/
def message : DraftError → String
  | rootPath => "The state root cannot be addressed as a field"
  | notAnObject p =>
    "Cannot write '" ++ p.toText ++ "': a parent field holds a value that is not an object"
  | invalidRoot kind => "Wizard state must be an object, got " ++ kind
  | encode p detail => "Could not encode the value for '" ++ p.toText ++ "': " ++ detail
  | decode p => "Could not decode '" ++ p.toText ++ "': <detail>"

end DraftError

end Interview
