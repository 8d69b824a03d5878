import Interview.Json.Basic
/-
Writing JSON values.

There are two written forms: the compact one, without any blanks, and the laid out one,
which puts every element and member on a line of its own, two spaces deeper than the
bracket around it. Both write the members of an object in the order in which they stand.

All of it produces `List Char`, so that a statement about a written form is a statement
about lists.
-/

set_option autoImplicit false

namespace Interview.Json

/-! ## Text -/

/-- One lowercase hexadecimal digit. -/
def hexDigit (n : Nat) : Char :=
  if n < 10 then Char.ofNat (48 + n) else Char.ofNat (87 + n)

/-- A character inside quotes: quote, backslash and control characters are escaped. -/
def escapeChar (c : Char) : List Char :=
  if c = '"' then ['\\', '"']
  else if c = '\\' then ['\\', '\\']
  else if c = '\n' then ['\\', 'n']
  else if c = '\r' then ['\\', 'r']
  else if c = '\t' then ['\\', 't']
  else if c.toNat = 8 then ['\\', 'b']
  else if c.toNat = 12 then ['\\', 'f']
  else if c.toNat < 32 then
    ['\\', 'u', '0', '0', hexDigit (c.toNat / 16), hexDigit (c.toNat % 16)]
  else [c]

/-- A text between quotes. -/
def quoted (s : String) : List Char :=
  '"' :: s.toList.flatMap escapeChar ++ ['"']

/-! ## Numbers -/

/-- A whole number in decimal. -/
def intChars (n : Int) : List Char :=
  if n < 0 then '-' :: Nat.toDigits 10 n.natAbs else Nat.toDigits 10 n.natAbs

/-- An exponent, always with its sign. -/
def exponentChars (n : Int) : List Char :=
  if n < 0 then 'e' :: intChars n else 'e' :: '+' :: intChars n

/-- A binary64 number by its fewest digits. The point is written in place when it falls
within the first sixteen digits or at most five places in front of them; otherwise the
first digit stands before the point and an exponent follows. -/
def floatChars (x : Binary64) : List Char :=
  let (d, k) := x.shortest
  let ds := Nat.toDigits 10 d
  let places : Int := ds.length + k
  let body :=
    if d = 0 then ['0', '.', '0']
    else if 0 ≤ k && places ≤ 16 then ds ++ List.replicate k.toNat '0' ++ ['.', '0']
    else if 0 < places && places ≤ 16 then
      ds.take places.toNat ++ ['.'] ++ ds.drop places.toNat
    else if -5 < places && places ≤ 0 then
      ['0', '.'] ++ List.replicate (-places).toNat '0' ++ ds
    else if ds.length = 1 then ds ++ exponentChars (places - 1)
    else ds.take 1 ++ ['.'] ++ ds.drop 1 ++ exponentChars (places - 1)
  if x.negative then '-' :: body else body

/-! ## The compact form -/

mutual

/-- The compact form of a value. -/
def compactChars : Json → List Char
  | .null => ['n', 'u', 'l', 'l']
  | .bool true => ['t', 'r', 'u', 'e']
  | .bool false => ['f', 'a', 'l', 's', 'e']
  | .int n => intChars n
  | .float x => floatChars x
  | .text s => quoted s
  | .list [] => ['[', ']']
  | .list (v :: vs) => '[' :: (compactChars v ++ compactRest vs)
  | .object [] => ['\x7b', '\x7d']
  | .object ((k, v) :: ms) => '\x7b' :: (quoted k ++ ':' :: (compactChars v ++ compactMembers ms))

/-- The elements after the first, with the closing bracket. -/
def compactRest : List Json → List Char
  | [] => [']']
  | v :: vs => ',' :: (compactChars v ++ compactRest vs)

/-- The members after the first, with the closing brace. -/
def compactMembers : Members → List Char
  | [] => ['\x7d']
  | (k, v) :: ms => ',' :: (quoted k ++ ':' :: (compactChars v ++ compactMembers ms))

end

/-- The compact form as a text. -/
def compact (v : Json) : String :=
  String.ofList (compactChars v)

/-! ## The laid out form -/

/-- A new line, indented. -/
def newLine (depth : Nat) : List Char :=
  '\n' :: List.replicate (2 * depth) ' '

mutual

/-- The laid out form of a value that stands at the given depth. -/
def prettyChars (depth : Nat) : Json → List Char
  | .list (v :: vs) =>
    '[' :: (newLine (depth + 1) ++ prettyChars (depth + 1) v ++ prettyRest depth vs)
  | .object ((k, v) :: ms) =>
    '\x7b' :: (newLine (depth + 1) ++ quoted k ++ ':' :: ' ' ::
      (prettyChars (depth + 1) v ++ prettyMembers depth ms))
  | v => compactChars v

/-- The elements after the first, with the closing bracket. -/
def prettyRest (depth : Nat) : List Json → List Char
  | [] => newLine depth ++ [']']
  | v :: vs => ',' :: (newLine (depth + 1) ++ prettyChars (depth + 1) v ++ prettyRest depth vs)

/-- The members after the first, with the closing brace. -/
def prettyMembers (depth : Nat) : Members → List Char
  | [] => newLine depth ++ ['\x7d']
  | (k, v) :: ms =>
    ',' :: (newLine (depth + 1) ++ quoted k ++ ':' :: ' ' ::
      (prettyChars (depth + 1) v ++ prettyMembers depth ms))

end

/-- The laid out form as a text. -/
def pretty (v : Json) : String :=
  String.ofList (prettyChars 0 v)

end Interview.Json
