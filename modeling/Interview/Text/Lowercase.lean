import Interview.Text.CaseTable
/-
Lowercasing by the full Unicode rules.

Each character is replaced on its own, with two exceptions. A capital I with a dot
above becomes two characters, and a capital sigma becomes a final sigma when it ends
a word: a cased character stands before it and none after it, where case-ignorable
characters are looked through on both sides. So the mapping needs the text on both
sides of a character, and `lowerFrom` walks the text with what it has passed kept in
reverse.
-/

set_option autoImplicit false

namespace Interview.Text

/-! ## Classes and single characters -/

/-- Membership in a table of runs. -/
def inRuns (runs : List (Nat × Nat)) (c : Char) : Bool :=
  runs.any fun r => r.1 ≤ c.toNat && c.toNat ≤ r.2

/-- The lowercase letter of a character, or the character itself. -/
def lowerChar (c : Char) : Char :=
  match caseRuns.find? fun r =>
      r.first ≤ c.toNat && c.toNat ≤ r.last && (c.toNat - r.first) % r.step == 0 with
  | some r => Char.ofNat (Int.toNat (Int.ofNat c.toNat + r.shift))
  | none => c

/-! ## The sigma at the end of a word -/

/-- Whether a cased character comes first once the case-ignorable ones are passed. -/
def casedAhead (cs : List Char) : Bool :=
  match cs.dropWhile (inRuns ignorableRuns) with
  | c :: _ => inRuns casedRuns c
  | [] => false

/-- Lowercase of `rest`, where `passed` is the text before it, last character first. -/
def lowerFrom (passed : List Char) : List Char → List Char
  | [] => []
  | c :: rest =>
    let low :=
      if c = 'Σ' then
        if casedAhead passed && !casedAhead rest then ['ς'] else ['σ']
      else if c = 'İ' then ['i', '\u0307']
      else if c.toNat < 128 then [c.toLower]
      else [lowerChar c]
    low ++ lowerFrom (c :: passed) rest

/-- The text in lowercase. -/
def lower (s : String) : String :=
  String.ofList (lowerFrom [] s.toList)

end Interview.Text
