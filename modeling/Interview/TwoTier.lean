import Interview.Question
/-
Two-tier questions over lists: first a key is picked from a fixed list, then an item from a
list that is loaded for that key.

Both tiers have a back button. The items are loaded anew each time a key is opened, and the
title of the second tier names the key that was picked.
-/

set_option autoImplicit false

namespace Interview

/-- The list of keys, with the key picked last, if any, as the recent one. -/
def keyScreen (w : Wording) (title : String) (keys : List Item) (recent : Option Json) : Screen :=
  let list := PickList.new (.fixed keys) false
  let screen := Screen.new w (.list { list with recent := recent.toList })
  { screen with title := some title }.withBack

/-- The label of the first key with the given data. -/
def keyLabel (keys : List Item) (key : Json) : String :=
  ((keys.find? fun k => k.data == key).map Item.label).getD ""

/-- The list of the items under a key. -/
def itemScreen (w : Wording) (title : String) (keys : List Item) (load : Json → Load)
    (key : Json) : Screen :=
  let screen := Screen.new w (.list (PickList.new (.lazy (load key)) false))
  { screen with title := some (title ++ ": " ++ keyLabel keys key) }.withBack

/-- The question for a key of the list and an item loaded under it. -/
def Question.lookup (w : Wording) (title : String) (keys : List Item) (load : Json → Load) :
    Question :=
  .twoTier (fun recent s => (.screen (keyScreen w title keys recent), s))
    (fun key s => (.screen (itemScreen w title keys load key), s)) none none

end Interview
