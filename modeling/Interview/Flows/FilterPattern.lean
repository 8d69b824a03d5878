import Interview.Text.Blank
/-
Filter patterns for log events: plain terms, quoted phrases, selectors such as
`{ $.level = "ERROR" }` and field lists such as `[ip, user, ...]`.

Only the structure of a pattern is checked. One scan sees to the quotes and the brackets:
it keeps the brackets that are open, innermost first, and inside a quote it looks only for
the closing quote, where a backslash takes the next character with it. After the scan, a
pattern that begins with a brace has to be a selector rooted at `$.`.
-/

set_option autoImplicit false

namespace Interview.FilterPattern

/-- The reasons to refuse a pattern. -/
inductive Fault
  | tooLong
  | unexpected (bracket : Char)
  | unterminatedQuote
  | unclosed (bracket : Char)
  | unwrapped
  | unrooted
deriving DecidableEq, Repr

/-- The greatest number of UTF-8 bytes of a pattern. -/
def maxBytes : Nat := 1024

/-- The wording of a fault. -/
def Fault.message : Fault → String
  | tooLong => "Pattern is longer than " ++ toString maxBytes ++ " characters"
  | unexpected c => "Unexpected '" ++ c.toString ++ "'"
  | unterminatedQuote => "Unterminated quote"
  | unclosed c => "Unclosed '" ++ c.toString ++ "'"
  | unwrapped => "JSON patterns must be wrapped in \x7b \x7d"
  | unrooted => "JSON selectors start with $."

/-! ## The scan -/

/-- The bracket that a closing bracket closes. -/
def opening? : Char → Option Char
  | '\x7d' => some '\x7b'
  | ']' => some '['
  | ')' => some '('
  | _ => none

/-- Whether a character opens a bracket. -/
def isOpening (c : Char) : Bool :=
  c == '\x7b' || c == '[' || c == '('

mutual

/-- The scan outside quotes, with the brackets that are open, innermost first. -/
def scan (opened : List Char) : List Char → Option Fault
  | [] =>
    match opened with
    | [] => none
    | c :: _ => some (.unclosed c)
  | c :: cs =>
    if c = '"' then scanQuote opened cs
    else if isOpening c then scan (c :: opened) cs
    else
      match opening? c with
      | none => scan opened cs
      | some o =>
        match opened with
        | [] => some (.unexpected c)
        | p :: opened => if p = o then scan opened cs else some (.unexpected c)

/-- The scan inside a quote. -/
def scanQuote (opened : List Char) : List Char → Option Fault
  | [] => some .unterminatedQuote
  | c :: cs =>
    if c = '"' then scan opened cs
    else if c = '\\' then scanEscape opened cs
    else scanQuote opened cs

/-- The scan inside a quote, after a backslash. -/
def scanEscape (opened : List Char) : List Char → Option Fault
  | [] => some .unterminatedQuote
  | _ :: cs => scanQuote opened cs

end

/-! ## Selectors -/

/-- The fault of a trimmed pattern as a selector, if it begins with a brace. -/
def selectorFault : List Char → Option Fault
  | '\x7b' :: rest =>
    if ('\x7b' :: rest).getLast? ≠ some '\x7d' then some .unwrapped
    else if ['$', '.'].isPrefixOf (rest.dropWhile fun c => c == '(' || Text.isBlank c) then none
    else some .unrooted
  | _ => none

/-- The first fault of a pattern; nothing when the pattern is accepted. -/
def fault? (pattern : String) : Option Fault :=
  if maxBytes < pattern.utf8ByteSize then some .tooLong
  else
    match scan [] pattern.toList with
    | some f => some f
    | none => selectorFault (Text.trimChars pattern.toList)

end Interview.FilterPattern
