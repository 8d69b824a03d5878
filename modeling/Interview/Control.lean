/-
Controls: the one thing through which an interview and its user meet.

A control shows either a line of text to edit or a list of rows to choose from. The
interview makes calls on it, and it hands out events, one at a time. Nothing else passes
between the two, so the calls and the events of a control are its whole story.
-/

set_option autoImplicit false

namespace Interview

/-! ## What is shown -/

/-- How a button looks. What it does stays with the question. -/
structure ButtonFace where
  icon : String
  tooltip : Option String
deriving DecidableEq, Repr

/-- How an entry of a list looks. What it stands for stays with the question. -/
structure Row where
  label : String
  description : Option String
  detail : Option String
  picked : Bool
deriving DecidableEq, Repr

/-- A row that shows only a label. -/
def Row.plain (label : String) : Row :=
  ⟨label, none, none, false⟩

/-- What every control has around its content. -/
structure Chrome where
  title : Option String
  placeholder : Option String
  buttons : List ButtonFace
  ignoreFocusOut : Bool
deriving DecidableEq, Repr

namespace Control

/-- The two kinds of controls, with what they start from. -/
inductive Kind
  /-- A line of text, perhaps masked. -/
  | text (value : String) (password : Bool)
  /-- A list, of which one or many rows can be chosen. -/
  | list (many : Bool)
deriving DecidableEq, Repr

/-! ## Events and calls -/

/-- What a control reports. -/
inductive Event
  /-- The text is now this. -/
  | changed (text : String)
  /-- The rows at these places are now selected. -/
  | selected (places : List Nat)
  /-- The text or the selection was accepted. -/
  | accept
  /-- The control was dismissed. -/
  | hide
  /-- The button at this place was clicked. -/
  | button (place : Nat)
deriving DecidableEq, Repr

/-- What can be asked of a control. -/
inductive Call
  | makeVisible
  | setRows (rows : List Row)
  | setValue (text : String)
  | setMessage (message : Option String)
  | setBusy (busy : Bool)
  | setPlaceholder (text : String)
  | setTitle (text : String)
  | dispose
deriving DecidableEq, Repr

end Control

end Interview
