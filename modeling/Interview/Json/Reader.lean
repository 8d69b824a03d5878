import Interview.Json.Basic
/-
Reading JSON values from text.

The grammar is that of RFC 8259, taken strictly: four characters count as blank, a whole
number has no leading zero, a quoted text holds no control character and no half of a
surrogate pair, and nothing but blanks follows the value. A number without fraction and
exponent that fits 64 bits is whole; every other one becomes the binary64 number of
`Binary64.ofDecimal?`. Nesting is limited, and a repeated name keeps its last value.

A reader takes the rest of the text and returns what it read together with what is left.
Values nest, so the readers of values, elements and members call one another; they count
down one number for each call, and a text is never longer than the count it starts with.
-/

set_option autoImplicit false

namespace Interview.Json

/-! ## Blanks and digits -/

/-- The four blanks that may stand around a token. -/
def isSpace (c : Char) : Bool :=
  c == ' ' || c == '\n' || c == '\r' || c == '\t'

/-- The text from the next token on. -/
def skipSpace (cs : List Char) : List Char :=
  cs.dropWhile isSpace

/-- The value of a decimal digit. -/
def digitValue (c : Char) : Nat :=
  c.toNat - 48

/-- The leading decimal digits and what follows them. -/
def takeDigits (cs : List Char) : List Char × List Char :=
  (cs.takeWhile Char.isDigit, cs.dropWhile Char.isDigit)

/-- The value of a run of decimal digits. -/
def digitsValue (ds : List Char) : Nat :=
  ds.foldl (fun n c => 10 * n + digitValue c) 0

/-- The value of a hexadecimal digit. -/
def hexValue? (c : Char) : Option Nat :=
  if c.isDigit then some (c.toNat - 48)
  else if 'a' ≤ c && c ≤ 'f' then some (c.toNat - 87)
  else if 'A' ≤ c && c ≤ 'F' then some (c.toNat - 55)
  else none

/-! ## Numbers -/

/-- Digits appended to a significand for as long as it fits 64 bits: the significand, and how
many digits it took. -/
def extend (n : Nat) : List Char → Nat × Nat
  | [] => (n, 0)
  | c :: cs =>
    let m := 10 * n + digitValue c
    if m < twoPow 64 then
      let (s, used) := extend m cs
      (s, used + 1)
    else (n, 0)

/-- The number with the given whole digits, fraction digits and exponent. A whole number that
fits 64 bits stays whole, except for a negated zero, which only binary64 has. -/
def ofNumber? (negative : Bool) (whole fraction : List Char) (exponent : Option Int) :
    Option Json :=
  let (s, used) := extend 0 whole
  -- whole digits that do not fit count as powers of ten, fraction digits not at all
  let dropped := whole.length - used
  if fraction.isEmpty && exponent.isNone && dropped = 0 then
    if !negative then some (.int s)
    else if 0 < s && s ≤ twoPow 63 then some (.int (-(s : Int)))
    else (Binary64.ofDecimal? true s 0).map .float
  else
    let (s, places) := extend s fraction
    let e : Int := (dropped : Int) - (places : Int) + exponent.getD 0
    (Binary64.ofDecimal? negative s e).map .float

/-- An exponent part, if one begins here. -/
def readExponent : List Char → Option (Option Int × List Char)
  | c :: cs =>
    if c == 'e' || c == 'E' then
      let (negative, cs) :=
        match cs with
        | '-' :: r => (true, r)
        | '+' :: r => (false, r)
        | r => (false, r)
      let (ds, rest) := takeDigits cs
      if ds.isEmpty then none
      else
        let n : Int := digitsValue ds
        some (some (if negative then -n else n), rest)
    else some (none, c :: cs)
  | [] => some (none, [])

/-- A fraction part, if one begins here. -/
def readFraction : List Char → Option (List Char × List Char)
  | '.' :: cs =>
    let (ds, rest) := takeDigits cs
    if ds.isEmpty then none else some (ds, rest)
  | cs => some ([], cs)

/-- A number that starts here, after its sign. -/
def readNumber (negative : Bool) (cs : List Char) : Option (Json × List Char) := do
  let (whole, rest) := takeDigits cs
  if whole.isEmpty || (whole.length ≠ 1 && whole.head? = some '0') then none
  else
    let (fraction, rest) ← readFraction rest
    let (exponent, rest) ← readExponent rest
    let v ← ofNumber? negative whole fraction exponent
    return (v, rest)

/-! ## Quoted text -/

/-- Four hexadecimal digits. -/
def readHex4 : List Char → Option (Nat × List Char)
  | a :: b :: c :: d :: rest => do
    let a ← hexValue? a
    let b ← hexValue? b
    let c ← hexValue? c
    let d ← hexValue? d
    return (4096 * a + 256 * b + 16 * c + d, rest)
  | _ => none

/-- The character of an escape, after its backslash. A code point beyond 16 bits is written as
two escapes, a high half and a low half. -/
def readEscape : List Char → Option (Char × List Char)
  | '"' :: rest => some ('"', rest)
  | '\\' :: rest => some ('\\', rest)
  | '/' :: rest => some ('/', rest)
  | 'b' :: rest => some ('\x08', rest)
  | 'f' :: rest => some ('\x0c', rest)
  | 'n' :: rest => some ('\n', rest)
  | 'r' :: rest => some ('\r', rest)
  | 't' :: rest => some ('\t', rest)
  | 'u' :: rest => do
    let (n, rest) ← readHex4 rest
    if n < 0xD800 || 0xE000 ≤ n then some (Char.ofNat n, rest)
    else if 0xDC00 ≤ n then none
    else
      match rest with
      | '\\' :: 'u' :: rest =>
        let (m, rest) ← readHex4 rest
        if 0xDC00 ≤ m && m < 0xE000 then
          some (Char.ofNat (0x10000 + 1024 * (n - 0xD800) + (m - 0xDC00)), rest)
        else none
      | _ => none
  | _ => none

/-- The characters up to the closing quote. -/
def readQuoted : Nat → List Char → Option (List Char × List Char)
  | 0, _ => none
  | _ + 1, '"' :: rest => some ([], rest)
  | n + 1, '\\' :: rest => do
    let (c, rest) ← readEscape rest
    let (cs, rest) ← readQuoted n rest
    return (c :: cs, rest)
  | n + 1, c :: rest =>
    if c.toNat < 32 then none
    else do
      let (cs, rest) ← readQuoted n rest
      return (c :: cs, rest)
  | _ + 1, [] => none

/-! ## Values -/

/-- The rest of the text when it begins with the given word. -/
def dropWord : List Char → List Char → Option (List Char)
  | [], cs => some cs
  | w :: ws, c :: cs => if w = c then dropWord ws cs else none
  | _ :: _, [] => none

mutual

/-- A value, with at most `depth` levels of brackets. -/
def readValue : Nat → Nat → List Char → Option (Json × List Char)
  | 0, _, _ => none
  | n + 1, depth, cs =>
    match skipSpace cs with
    | 'n' :: rest => (dropWord ['u', 'l', 'l'] rest).map fun r => (.null, r)
    | 't' :: rest => (dropWord ['r', 'u', 'e'] rest).map fun r => (.bool true, r)
    | 'f' :: rest => (dropWord ['a', 'l', 's', 'e'] rest).map fun r => (.bool false, r)
    | '"' :: rest => (readQuoted n rest).map fun r => (.text (String.ofList r.1), r.2)
    | '-' :: rest => readNumber true rest
    | '[' :: rest =>
      match depth with
      | 0 => none
      | depth + 1 =>
        match skipSpace rest with
        | ']' :: rest => some (.list [], rest)
        | rest => (readElements n depth rest).map fun r => (.list r.1, r.2)
    | '\x7b' :: rest =>
      match depth with
      | 0 => none
      | depth + 1 =>
        match skipSpace rest with
        | '\x7d' :: rest => some (.object [], rest)
        | rest => (readMembers n depth rest).map fun r => (ofMembers r.1, r.2)
    | rest => readNumber false rest

/-- The elements of a list that has at least one, with the closing bracket. -/
def readElements : Nat → Nat → List Char → Option (List Json × List Char)
  | 0, _, _ => none
  | n + 1, depth, cs => do
    let (v, rest) ← readValue n depth cs
    match skipSpace rest with
    | ']' :: rest => return ([v], rest)
    | ',' :: rest =>
      let (vs, rest) ← readElements n depth rest
      return (v :: vs, rest)
    | _ => none

/-- The members of an object that has at least one, with the closing brace. -/
def readMembers : Nat → Nat → List Char → Option (Members × List Char)
  | 0, _, _ => none
  | n + 1, depth, cs =>
    match skipSpace cs with
    | '"' :: rest => do
      let (k, rest) ← readQuoted n rest
      match skipSpace rest with
      | ':' :: rest =>
        let (v, rest) ← readValue n depth rest
        match skipSpace rest with
        | '\x7d' :: rest => return ([(String.ofList k, v)], rest)
        | ',' :: rest =>
          let (ms, rest) ← readMembers n depth rest
          return ((String.ofList k, v) :: ms, rest)
        | _ => none
      | _ => none
    | _ => none

end

/-- The value that a text is, when it is nested at most `depth` levels deep. -/
def read? (depth : Nat) (s : String) : Option Json :=
  let cs := s.toList
  match readValue (cs.length + 1) depth cs with
  | some (v, rest) => if (skipSpace rest).isEmpty then some v else none
  | none => none

end Interview.Json
