/-
The words that questions use on their own account, in two languages.
-/

set_option autoImplicit false

namespace Interview

/-- The words of a language. -/
structure Wording where
  /-- The tooltip of the standard back button. -/
  back : String
  /-- The placeholder of a list that is still loading. -/
  loading : String
  /-- The only row of a list that has no items. -/
  noItems : String
  /-- The title of a question that is asked as step `current` of `total`. -/
  stepTitle : (title : String) → (current total : Nat) → String

namespace Wording

/-- English. A single step is not counted. -/
def english : Wording where
  back := "Back"
  loading := "Loading..."
  noItems := "[No items found]"
  stepTitle title current total :=
    if 1 < total then title ++ " (" ++ toString current ++ "/" ++ toString total ++ ")"
    else title

/-- German. Every step is counted. -/
def german : Wording where
  back := "Zurück"
  loading := "Lädt …"
  noItems := "(leer)"
  stepTitle title current total :=
    toString current ++ " von " ++ toString total ++ ": " ++ title

end Wording

end Interview
