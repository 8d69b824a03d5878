/-
White space, and the text that is left when it is cut off at both ends.

The class is the Unicode property White_Space, written out as its eleven ranges.
It is wider than `Char.isWhitespace`, which knows only six characters, and the
difference shows: a line that holds only an ideographic space counts as blank.

Everything is said of `List Char`, where the two cuts are `List.dropWhile` from
either end, and lifted to `String` once.
-/

set_option autoImplicit false

namespace Interview.Text

/-! ## The class -/

/-- A character is blank when it has the property White_Space. -/
def isBlank (c : Char) : Bool :=
  let n := c.val
  (0x09 ≤ n && n ≤ 0x0D) || n == 0x20 || n == 0x85 || n == 0xA0 || n == 0x1680 ||
    (0x2000 ≤ n && n ≤ 0x200A) || n == 0x2028 || n == 0x2029 || n == 0x202F ||
    n == 0x205F || n == 0x3000

/-! ## Cutting -/

/-- The text without the blanks in front of it. -/
def dropBlanks (cs : List Char) : List Char :=
  cs.dropWhile isBlank

/-- The text without the blanks at its two ends. -/
def trimChars (cs : List Char) : List Char :=
  (dropBlanks (dropBlanks cs).reverse).reverse

/-- The text without the blanks at its two ends. -/
def trim (s : String) : String :=
  String.ofList (trimChars s.toList)

/-- A text is blank when nothing is left of it after trimming. -/
def isBlankText (s : String) : Bool :=
  s.toList.all isBlank

end Interview.Text
