import Interview.Flows.FilterPattern
import Mathlib.Data.List.TakeWhile
/-
Which filter patterns are accepted.

The structure of a pattern has a grammar (`WellFormed`): brackets enclose patterns, quotes enclose
anything, and every other character stands for itself. The grammar knows nothing of the scan, which
goes over the characters once and remembers the brackets that are open. The two agree because the
scan passes over a well-formed text as if it were not there (`scan_append`), and because whatever the
scan lets pass with some brackets open closes them, one after the other, with well-formed texts in
between (`Closes`).

On top of the grammar a pattern must not be too long, and one that begins with a brace has to be a
selector (`accepted_iff`).
-/

set_option autoImplicit false

namespace Interview.FilterPattern

variable {c o : Char} {cs opened : List Char}

/-! ## The grammar -/

/-- The characters that stand for themselves: all but the quote and the six brackets. -/
def Plain (c : Char) : Prop :=
  c ∉ ['"', '\x7b', '\x7d', '[', ']', '(', ')']

/-- The pairs of brackets. -/
inductive Pair : Char → Char → Prop
  | curly : Pair '\x7b' '\x7d'
  | square : Pair '[' ']'
  | round : Pair '(' ')'

/-- What can stand between two quotes. A backslash takes the next character with it, whichever it
is. -/
inductive Quotable : List Char → Prop
  | nil : Quotable []
  | char {c : Char} {cs : List Char} (quote : c ≠ '"') (backslash : c ≠ '\\') (rest : Quotable cs) :
      Quotable (c :: cs)
  | escaped (c : Char) {cs : List Char} (rest : Quotable cs) : Quotable ('\\' :: c :: cs)

/-- The well-formed texts. -/
inductive WellFormed : List Char → Prop
  | empty : WellFormed []
  | plain {c : Char} {cs : List Char} (char : Plain c) (rest : WellFormed cs) : WellFormed (c :: cs)
  | quoted {q cs : List Char} (quote : Quotable q) (rest : WellFormed cs) :
      WellFormed ('"' :: q ++ '"' :: cs)
  | bracketed {o c : Char} {p cs : List Char} (pair : Pair o c) (inner : WellFormed p)
      (rest : WellFormed cs) : WellFormed (o :: p ++ c :: cs)

/-- What follows the first brace of a selector: parentheses and blanks, and then the root. Neither
of the root's two characters is a blank or a parenthesis, so nothing can be skipped beyond it. -/
def Rooted (cs : List Char) : Prop :=
  ∃ skipped path, cs = skipped ++ '$' :: '.' :: path ∧
    ∀ c ∈ skipped, c = '(' ∨ Text.isBlank c = true

/-- The patterns that are accepted. -/
structure Accepted (pattern : String) : Prop where
  short : pattern.utf8ByteSize ≤ 1024
  wellFormed : WellFormed pattern.toList
  selector : ∀ rest, (Text.trim pattern).toList = '\x7b' :: rest →
    ['\x7d'] <:+ (Text.trim pattern).toList ∧ Rooted rest

/-! ## The scan, character by character -/

theorem Pair.opening? (h : Pair o c) : opening? c = some o := by
  cases h with
  | curly | square | round => rfl

theorem Pair.isOpening (h : Pair o c) : isOpening o = true := by
  cases h with
  | curly | square | round => rfl

/-- A bracket is no quote, and none that closes opens. -/
theorem Pair.closing (h : Pair o c) : c ≠ '"' ∧ FilterPattern.isOpening c = false := by
  cases h with
  | curly | square | round => decide

/-- Every character is plain, or a quote, or opens a bracket, or closes one. -/
theorem char_cases (c : Char) : Plain c ∨ c = '"' ∨ (∃ d, Pair c d) ∨ ∃ o, Pair o c := by
  by_cases hplain : Plain c
  · exact Or.inl hplain
  · have hmem : c ∈ ['"', '\x7b', '\x7d', '[', ']', '(', ')'] := Classical.not_not.mp hplain
    simp only [List.mem_cons, List.not_mem_nil, or_false] at hmem
    rcases hmem with rfl | rfl | rfl | rfl | rfl | rfl | rfl
    · exact Or.inr (Or.inl rfl)
    · exact Or.inr (Or.inr (Or.inl ⟨_, .curly⟩))
    · exact Or.inr (Or.inr (Or.inr ⟨_, .curly⟩))
    · exact Or.inr (Or.inr (Or.inl ⟨_, .square⟩))
    · exact Or.inr (Or.inr (Or.inr ⟨_, .square⟩))
    · exact Or.inr (Or.inr (Or.inl ⟨_, .round⟩))
    · exact Or.inr (Or.inr (Or.inr ⟨_, .round⟩))

theorem scan_plain (h : Plain c) (opened cs : List Char) : scan opened (c :: cs) = scan opened cs := by
  simp only [Plain, List.mem_cons, List.not_mem_nil, or_false, not_or] at h
  obtain ⟨hquote, hcurly, hcurly', hsquare, hsquare', hround, hround'⟩ := h
  have hopening : opening? c = none := by
    unfold opening?
    split
    · exact absurd rfl hcurly'
    · exact absurd rfl hsquare'
    · exact absurd rfl hround'
    · rfl
  rw [scan, if_neg hquote, if_neg (by simp [isOpening, hcurly, hsquare, hround]), hopening]

theorem scan_quote (opened cs : List Char) : scan opened ('"' :: cs) = scanQuote opened cs := by
  rw [scan, if_pos rfl]

theorem scan_open (h : Pair o c) (opened cs : List Char) :
    scan opened (o :: cs) = scan (o :: opened) cs := by
  have hquote : o ≠ '"' := by
    cases h with
    | curly | square | round => decide
  rw [scan, if_neg hquote, if_pos h.isOpening]

theorem scan_close (h : Pair o c) (opened cs : List Char) :
    scan (o :: opened) (c :: cs) = scan opened cs := by
  obtain ⟨hquote, hopening⟩ := h.closing
  rw [scan, if_neg hquote, if_neg (by simp [hopening]), h.opening?]
  exact if_pos rfl

/-- Only the bracket that was opened last can be closed. -/
theorem exists_of_scan_close (h : Pair o c) (hscan : scan opened (c :: cs) = none) :
    ∃ outer, opened = o :: outer ∧ scan outer cs = none := by
  obtain ⟨hquote, hopening⟩ := h.closing
  rw [scan, if_neg hquote, if_neg (by simp [hopening]), h.opening?] at hscan
  rcases opened with _ | ⟨p, outer⟩
  · exact absurd hscan (by simp)
  · simp only at hscan
    split at hscan
    · rename_i hp
      exact ⟨outer, by rw [hp], hscan⟩
    · exact absurd hscan (by simp)

/-! ## Well-formed texts pass -/

/-- The scan passes over a quote. -/
theorem scanQuote_append {q : List Char} (h : Quotable q) (opened cs : List Char) :
    scanQuote opened (q ++ '"' :: cs) = scan opened cs := by
  induction h with
  | nil => rw [List.nil_append, scanQuote, if_pos rfl]
  | char hquote hbackslash _ ih =>
    rw [List.cons_append, scanQuote, if_neg hquote, if_neg hbackslash, ih]
  | escaped d _ ih =>
    rw [List.cons_append, scanQuote, if_neg (by decide), if_pos rfl, List.cons_append, scanEscape, ih]

/-- **The scan passes over a well-formed text** and has the same brackets open after it. The
induction is on the grammar, with any brackets open, for those of the text are open within it. -/
theorem scan_append {p : List Char} (h : WellFormed p) (opened cs : List Char) :
    scan opened (p ++ cs) = scan opened cs := by
  induction h generalizing opened cs with
  | empty => rfl
  | plain hchar _ ih => rw [List.cons_append, scan_plain hchar, ih]
  | quoted hquote _ ih =>
    rw [List.append_assoc, List.cons_append, scan_quote, List.cons_append, scanQuote_append hquote, ih]
  | bracketed hpair _ _ ihInner ih =>
    rw [List.append_assoc, List.cons_append, scan_open hpair, ihInner, List.cons_append,
      scan_close hpair, ih]

/-! ## What passes is well-formed -/

/-- The text closes these brackets, innermost first, with well-formed texts before, between and
after them. -/
inductive Closes : List Char → List Char → Prop
  | all {cs : List Char} (rest : WellFormed cs) : Closes [] cs
  | one {o c : Char} {opened p cs : List Char} (pair : Pair o c) (inner : WellFormed p)
      (rest : Closes opened cs) : Closes (o :: opened) (p ++ c :: cs)

/-- What can be put before a well-formed text can be put before one that closes brackets. -/
theorem Closes.append {x : List Char} (hx : ∀ p, WellFormed p → WellFormed (x ++ p))
    (h : Closes opened cs) : Closes opened (x ++ cs) := by
  cases h with
  | all rest => exact .all (hx _ rest)
  | one hpair inner rest =>
    rw [← List.append_assoc]
    exact .one hpair (hx _ inner) rest

/-- A quote that passes ends somewhere, and the scan goes on behind it. After a backslash the
character that it takes belongs to the quote as well. -/
theorem exists_of_scanQuote (hscan : scanQuote opened cs = none) :
    ∃ q rest, cs = q ++ '"' :: rest ∧ Quotable q ∧ scan opened rest = none := by
  induction hlength : cs.length using Nat.strongRecOn generalizing cs with
  | ind n ih =>
    rcases cs with _ | ⟨c, cs⟩
    · exact absurd hscan (by simp [scanQuote])
    · rw [scanQuote] at hscan
      split at hscan
      · rename_i hquote
        exact ⟨[], cs, by rw [hquote]; rfl, .nil, hscan⟩
      · rename_i hquote
        split at hscan
        · rename_i hbackslash
          rcases cs with _ | ⟨d, cs⟩
          · exact absurd hscan (by simp [scanEscape])
          · rw [scanEscape] at hscan
            obtain ⟨q, rest, rfl, hq, hrest⟩ :=
              ih cs.length (by simp only [List.length_cons] at hlength; omega) hscan rfl
            exact ⟨'\\' :: d :: q, rest, by rw [hbackslash]; rfl, .escaped d hq, hrest⟩
        · rename_i hbackslash
          obtain ⟨q, rest, rfl, hq, hrest⟩ :=
            ih cs.length (by simp only [List.length_cons] at hlength; omega) hscan rfl
          exact ⟨c :: q, rest, rfl, .char hquote hbackslash hq, hrest⟩

/-- **What the scan lets pass closes the brackets that are open.** The induction is on the length,
since a quote is passed over as a whole. -/
theorem closes_of_scan (hscan : scan opened cs = none) : Closes opened cs := by
  induction hlength : cs.length using Nat.strongRecOn generalizing opened cs with
  | ind n ih =>
    rcases cs with _ | ⟨c, cs⟩
    · rcases opened with _ | ⟨p, outer⟩
      · exact .all .empty
      · exact absurd hscan (by simp [scan])
    · have hshorter : cs.length < n := by
        simp only [List.length_cons] at hlength
        omega
      rcases char_cases c with hplain | rfl | ⟨d, hpair⟩ | ⟨o, hpair⟩
      · rw [scan_plain hplain] at hscan
        exact (ih _ hshorter hscan rfl).append (x := [c]) fun _ => .plain hplain
      · rw [scan_quote] at hscan
        obtain ⟨q, rest, rfl, hq, hrest⟩ := exists_of_scanQuote hscan
        have hcloses := ih rest.length (by simp at hshorter; omega) hrest rfl
        have hquoted := hcloses.append (x := '"' :: q ++ ['"']) fun p hp => by
          rw [List.append_assoc]
          exact .quoted hq hp
        rwa [List.append_assoc] at hquoted
      · -- what closes this bracket as well closes the others after it
        rw [scan_open hpair] at hscan
        obtain ⟨⟩ | ⟨hpair', inner, rest⟩ := ih _ hshorter hscan rfl
        rename_i d' p rest'
        have hbracketed := rest.append (x := c :: p ++ [d']) fun p' hp' => by
          rw [List.append_assoc]
          exact .bracketed hpair' inner hp'
        rwa [List.append_assoc] at hbracketed
      · obtain ⟨outer, rfl, hrest⟩ := exists_of_scan_close hpair hscan
        exact .one (p := []) hpair .empty (ih _ hshorter hrest rfl)

/-- **The scan finds no fault in the well-formed texts, and in no others.** -/
theorem scan_eq_none_iff : scan [] cs = none ↔ WellFormed cs := by
  constructor
  · intro hscan
    obtain ⟨hrest⟩ := closes_of_scan hscan
    exact hrest
  · intro h
    have happend := scan_append h [] []
    rwa [List.append_nil] at happend

instance : DecidablePred WellFormed :=
  fun _ => decidable_of_iff _ scan_eq_none_iff

/-- A bracket within a quote counts for nothing, and neither does a quote after a backslash there.
Outside of quotes a backslash takes nothing with it. -/
example : WellFormed ['(', '"', ']', '\\', '"', '"', ')'] ∧ ¬ WellFormed ['\\', '"'] := by decide

/-! ## Selectors -/

/-- The root is what comes after the blanks and the parentheses. -/
theorem rooted_iff : ['$', '.'].isPrefixOf (cs.dropWhile fun c => c == '(' || Text.isBlank c) = true ↔
    Rooted cs := by
  constructor
  · intro h
    obtain ⟨path, hpath⟩ := List.isPrefixOf_iff_prefix.mp h
    refine ⟨cs.takeWhile fun c => c == '(' || Text.isBlank c, path, ?_, fun c hc => ?_⟩
    · have hsplit := List.takeWhile_append_dropWhile (p := fun c => c == '(' || Text.isBlank c) (l := cs)
      rw [← hpath] at hsplit
      exact hsplit.symm
    · simpa using List.mem_takeWhile_imp hc
  · rintro ⟨skipped, path, rfl, hskipped⟩
    have hall : ∀ c ∈ skipped, (c == '(' || Text.isBlank c) = true := by
      intro c hc
      simpa using hskipped c hc
    rw [List.dropWhile_append_of_pos hall, List.dropWhile_cons, if_neg (by decide)]
    exact List.isPrefixOf_iff_prefix.mpr ⟨path, rfl⟩

/-- **A text that is no selector has no fault as one**, and a selector has none if it is closed and
rooted. -/
theorem selectorFault_eq_none_iff : selectorFault cs = none ↔
    ∀ rest, cs = '\x7b' :: rest → ['\x7d'] <:+ cs ∧ Rooted rest := by
  unfold selectorFault
  split
  · rename_i rest
    have hlast : ('\x7b' :: rest).getLast? = some '\x7d' ↔ ['\x7d'] <:+ '\x7b' :: rest := by
      rw [List.getLast?_eq_some_iff]
      exact ⟨fun ⟨front, h⟩ => ⟨front, h.symm⟩, fun ⟨front, h⟩ => ⟨front, h.symm⟩⟩
    constructor
    · intro h rest' hrest
      obtain rfl := (List.cons.inj hrest).2
      split at h
      · exact absurd h (by simp)
      · rename_i hclosed
        split at h
        · rename_i hroot
          exact ⟨hlast.mp (Classical.not_not.mp hclosed), rooted_iff.mp hroot⟩
        · exact absurd h (by simp)
    · intro h
      obtain ⟨hclosed, hrooted⟩ := h rest rfl
      rw [if_neg (Classical.not_not.mpr (hlast.mpr hclosed)), if_pos (rooted_iff.mpr hrooted)]
  · rename_i hbrace
    exact ⟨fun _ rest hrest => absurd hrest (hbrace rest), fun _ => rfl⟩

/-! ## Patterns -/

/-- **The patterns without a fault are those that are accepted**: they are short enough, well-formed,
and rooted if they begin with a brace. -/
theorem accepted_iff (pattern : String) : fault? pattern = none ↔ Accepted pattern := by
  have htrim : (Text.trim pattern).toList = Text.trimChars pattern.toList := by
    rw [Text.trim, String.toList_ofList]
  have hselector := @selectorFault_eq_none_iff (Text.trim pattern).toList
  unfold fault?
  rw [← htrim]
  constructor
  · intro h
    split at h
    · exact absurd h (by simp)
    · rename_i hshort
      split at h
      · exact absurd h (by simp)
      · rename_i hscan
        exact ⟨by unfold maxBytes at hshort; omega, scan_eq_none_iff.mp hscan, hselector.mp h⟩
  · intro h
    have hshort : ¬ maxBytes < pattern.utf8ByteSize := by
      have := h.short
      unfold maxBytes
      omega
    rw [if_neg hshort, scan_eq_none_iff.mpr h.wellFormed]
    exact hselector.mpr h.selector

end Interview.FilterPattern
