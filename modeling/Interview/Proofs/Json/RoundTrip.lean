import Interview.Json.Printer
import Interview.Proofs.Json.Reading
import Interview.Text.Blank
/-
What is written in the compact form is read back.

The way goes from the leaves up: the digits of a whole number, the characters of a quoted text with
their escapes, and then values, elements and members together. A reader that may count down from
more than the length of what is written never runs out, since each step down uses up a character.
What stands behind a value decides where a number ends, so a value is read in front of a comma, of a
closing bracket, or of the end.

A binary64 number is left out: it is read from its shortest digits, and what these are is not looked
into here.
-/

set_option autoImplicit false

namespace Interview

/-! ## Members in order -/

namespace Members

/-- What is put under a name after all others goes to the end. -/
theorem put_of_forall_lt {k : String} {ms : Members} (h : ∀ m ∈ ms, m.1 < k) (v : Json) :
    put k v ms = ms ++ [(k, v)] := by
  have hnone : find? k ms = none := by
    rcases hfind : find? k ms with _ | w
    · rfl
    · exact absurd (h _ (mem_of_find?_eq_some hfind)) (lt_irrefl k)
  have hinsert : insert k v ms = ms ++ [(k, v)] := by
    clear hnone
    induction ms with
    | nil => rfl
    | cons m ms ih =>
        have hlt := h m List.mem_cons_self
        rw [insert, if_neg (not_lt.mpr (le_of_lt hlt)),
          ih fun m hm => h m (List.mem_cons_of_mem _ hm), List.cons_append]
  rw [put, if_neg (by simp [hnone]), hinsert]

theorem foldl_put_of_ascending {ms : Members} (acc : Members) (h : Ascending (acc ++ ms)) :
    ms.foldl (fun acc m => put m.1 m.2 acc) acc = acc ++ ms := by
  induction ms generalizing acc with
  | nil => exact (List.append_nil acc).symm
  | cons m ms ih =>
      have hlt : ∀ m' ∈ acc, m'.1 < m.1 := fun m' hm' =>
        (List.pairwise_append.mp h).2.2 m' hm' m List.mem_cons_self
      have hput : put m.1 m.2 acc = acc ++ [m] := put_of_forall_lt hlt m.2
      rw [List.foldl_cons, hput, ih (acc ++ [m]) (by rwa [List.append_assoc]), List.append_assoc]
      rfl

/-- Members in order are the members that are made from them. -/
theorem ofList_of_ascending {ms : Members} (h : Ascending ms) : ofList ms = ms :=
  foldl_put_of_ascending [] h

end Members

namespace Json

mutual

/-- There is no binary64 number in the value. -/
def Whole : Json → Prop
  | .float _ => False
  | .list vs => WholeList vs
  | .object ms => WholeMembers ms
  | _ => True

/-- There is no binary64 number in the list. -/
def WholeList : List Json → Prop
  | [] => True
  | v :: vs => Whole v ∧ WholeList vs

/-- There is no binary64 number in the members. -/
def WholeMembers : Members → Prop
  | [] => True
  | (_, v) :: ms => Whole v ∧ WholeMembers ms

end

mutual

/-- Whether there is a binary64 number in the value is decided by looking at all its parts. -/
def decideWhole : (v : Json) → Decidable v.Whole
  | .null | .bool _ | .int _ | .text _ => .isTrue trivial
  | .float _ => .isFalse id
  | .list vs => decideWholeList vs
  | .object ms => decideWholeMembers ms

/-- The same for a list. -/
def decideWholeList : (vs : List Json) → Decidable (WholeList vs)
  | [] => .isTrue trivial
  | v :: vs => @instDecidableAnd _ _ (decideWhole v) (decideWholeList vs)

/-- The same for members. -/
def decideWholeMembers : (ms : Members) → Decidable (WholeMembers ms)
  | [] => .isTrue trivial
  | (_, v) :: ms => @instDecidableAnd _ _ (decideWhole v) (decideWholeMembers ms)

end

instance : DecidablePred Whole := decideWhole

variable {depth n : Nat} {cs rest : List Char} {v : Json}

/-- What may stand behind a value. -/
def Closes (rest : List Char) : Prop :=
  ∀ c, rest.head? = some c → c = ',' ∨ c = ']' ∨ c = '\x7d'

theorem closes_nil : Closes [] :=
  fun _ h => absurd h (by simp)

theorem closes_compactRest (vs : List Json) (rest : List Char) :
    Closes (compactRest vs ++ rest) := by
  intro c h
  cases vs with
  | nil => exact Or.inr (Or.inl (Option.some.inj h).symm)
  | cons v vs => exact Or.inl (Option.some.inj h).symm

theorem closes_compactMembers (ms : Members) (rest : List Char) :
    Closes (compactMembers ms ++ rest) := by
  intro c h
  cases ms with
  | nil => exact Or.inr (Or.inr (Option.some.inj h).symm)
  | cons m ms => exact Or.inl (Option.some.inj h).symm

theorem skipSpace_cons {c : Char} (h : isSpace c = false) : skipSpace (c :: cs) = c :: cs :=
  List.dropWhile_cons_of_neg (by simp [h])

/-! ## Whole numbers -/

theorem takeDigits_append {ds : List Char} (hds : ∀ c ∈ ds, c.isDigit = true) (h : Closes rest) :
    takeDigits (ds ++ rest) = (ds, rest) := by
  have hstop : rest.takeWhile Char.isDigit = [] ∧ rest.dropWhile Char.isDigit = rest := by
    rcases rest with _ | ⟨c, rest⟩
    · exact ⟨rfl, rfl⟩
    · have hc : c.isDigit = false := by
        rcases h c rfl with rfl | rfl | rfl
        · decide
        · decide
        · decide
      exact ⟨List.takeWhile_cons_of_neg (by simp [hc]), List.dropWhile_cons_of_neg (by simp [hc])⟩
  rw [takeDigits, List.takeWhile_append_of_pos hds, List.dropWhile_append_of_pos hds, hstop.1,
    hstop.2, List.append_nil]

/-- No digit is lost as long as the number fits 64 bits. -/
theorem extend_eq {ds : List Char} {s : Nat}
    (h : ds.foldl (fun n c => 10 * n + digitValue c) s < twoPow 64) :
    extend s ds = (ds.foldl (fun n c => 10 * n + digitValue c) s, ds.length) := by
  have hgrows : ∀ (ds : List Char) (s : Nat),
      s ≤ ds.foldl (fun n c => 10 * n + digitValue c) s := by
    intro ds
    induction ds with
    | nil => exact fun s => Nat.le_refl s
    | cons d ds ih =>
        intro s
        have hrest := ih (10 * s + digitValue d)
        simp only [List.foldl_cons]
        omega
  induction ds generalizing s with
  | nil => rfl
  | cons d ds ih =>
      rw [List.foldl_cons] at h
      have hfits : 10 * s + digitValue d < twoPow 64 := Nat.lt_of_le_of_lt (hgrows ds _) h
      simp only [extend, if_pos hfits, ih h, List.foldl_cons, List.length_cons]

theorem foldl_toDigits (n : Nat) :
    (Nat.toDigits 10 n).foldl (fun n c => 10 * n + digitValue c) 0 = n :=
  Nat.ofDigitChars_eq_foldl.symm.trans Nat.ofDigitChars_ten_toDigits

theorem head?_toDigits (h : n ≠ 0) : (Nat.toDigits 10 n).head? ≠ some '0' := by
  induction n using Nat.strongRecOn with
  | ind n ih =>
      rcases Nat.lt_or_ge n 10 with hlt | hge
      · rw [Nat.toDigits_of_lt_base hlt]
        intro hzero
        exact h (Nat.digitChar_eq_zero.mp (Option.some.inj hzero))
      · -- a longer number begins as its tenth part does
        rw [Nat.toDigits_of_base_le (by decide) hge,
          List.head?_append_of_ne_nil _ Nat.toDigits_ne_nil]
        exact ih (n / 10) (by omega) (by omega)

theorem readFraction_of_closes (h : Closes rest) : readFraction rest = some ([], rest) := by
  rcases rest with _ | ⟨c, rest⟩
  · rfl
  · rcases h c rfl with rfl | rfl | rfl
    · rfl
    · rfl
    · rfl

theorem readExponent_of_closes (h : Closes rest) : readExponent rest = some (none, rest) := by
  rcases rest with _ | ⟨c, rest⟩
  · rfl
  · rcases h c rfl with rfl | rfl | rfl
    · rfl
    · rfl
    · rfl

/-- A number is read from its digits, which have no leading zero. -/
theorem readNumber_toDigits (negative : Bool) (rest : List Char) (hn : n < twoPow 64)
    (hnegative : negative = true → 0 < n ∧ n ≤ twoPow 63) (h : Closes rest) :
    readNumber negative (Nat.toDigits 10 n ++ rest) =
      some (.int (if negative then -n else n), rest) := by
  have hdigits : takeDigits (Nat.toDigits 10 n ++ rest) = (Nat.toDigits 10 n, rest) :=
    takeDigits_append (fun c hc => Nat.isDigit_of_mem_toDigits (by decide) (by decide) hc) h
  have hextend : extend 0 (Nat.toDigits 10 n) = (n, (Nat.toDigits 10 n).length) := by
    rw [extend_eq ((foldl_toDigits n).symm ▸ hn), foldl_toDigits]
  have hempty : (Nat.toDigits 10 n).isEmpty = false := by simp
  -- zero has one digit, and no other number begins with a zero
  have hleading : ¬((Nat.toDigits 10 n).length ≠ 1 ∧ (Nat.toDigits 10 n).head? = some '0') := by
    rintro ⟨hlength, hhead⟩
    rcases Nat.eq_zero_or_pos n with rfl | hpos
    · exact hlength rfl
    · exact head?_toDigits (Nat.ne_of_gt hpos) hhead
  have hnumber : ofNumber? negative (Nat.toDigits 10 n) [] none =
      some (.int (if negative then -n else n)) := by
    rcases negative with _ | _
    · simp [ofNumber?, hextend]
    · obtain ⟨hpos, hle⟩ := hnegative rfl
      simp [ofNumber?, hextend, hpos, hle]
  have hplain : ((Nat.toDigits 10 n).isEmpty || (decide ((Nat.toDigits 10 n).length ≠ 1) &&
      decide ((Nat.toDigits 10 n).head? = some '0'))) = false := by
    rw [hempty, Bool.false_or, ← Bool.decide_and]
    exact decide_eq_false hleading
  simp only [readNumber, hdigits, hplain, readFraction_of_closes h]
  simp [readExponent_of_closes h, hnumber]

theorem ne_of_isDigit {c d : Char} (hc : c.isDigit = true) (hd : d.isDigit = false) : c ≠ d := by
  rintro rfl
  exact absurd hc (by simp [hd])

/-- A reader skips blanks only. -/
theorem isSpace_of_isBlank {c : Char} (hc : Text.isBlank c = false) : isSpace c = false := by
  have hne : ∀ {d : Char}, Text.isBlank d = true → (c == d) = false := by
    intro d hd
    refine beq_eq_false_iff_ne.mpr ?_
    rintro rfl
    exact absurd hc (by simp [hd])
  rw [isSpace, hne (by decide), hne (by decide), hne (by decide), hne (by decide)]
  rfl

theorem isBlank_of_isDigit {c : Char} (hc : c.isDigit = true) : Text.isBlank c = false := by
  have hrange : 48 ≤ c.val.toNat ∧ c.val.toNat ≤ 57 := by
    simpa [Char.isDigit, UInt32.le_iff_toNat_le] using hc
  simp only [Text.isBlank, Bool.or_eq_false_iff, Bool.and_eq_false_iff, decide_eq_false_iff_not,
    beq_eq_false_iff_ne, ne_eq, UInt32.le_iff_toNat_le, ← UInt32.toNat_inj, UInt32.toNat_ofNat]
  omega

/-- A value that begins with a digit is a number. -/
theorem readValue_of_isDigit {c : Char} (hc : c.isDigit = true) :
    readValue (n + 1) depth (c :: cs) = readNumber false (c :: cs) := by
  have hother : ∀ {d : Char} {rest : List Char}, d.isDigit = false → c :: cs = d :: rest → False :=
    fun hd h => ne_of_isDigit hc hd (List.cons.inj h).1
  rw [readValue, skipSpace_cons (isSpace_of_isBlank (isBlank_of_isDigit hc))]
  -- in all cases but the last one the first character is given, and it is no digit
  split
  · rename_i h
    exact (hother (by decide) h).elim
  · rename_i h
    exact (hother (by decide) h).elim
  · rename_i h
    exact (hother (by decide) h).elim
  · rename_i h
    exact (hother (by decide) h).elim
  · rename_i h
    exact (hother (by decide) h).elim
  · rename_i h
    exact (hother (by decide) h).elim
  · rename_i h
    exact (hother (by decide) h).elim
  · rfl

theorem readValue_intChars {i : Int} (hi : -(twoPow 63 : Int) ≤ i ∧ i < twoPow 64)
    (h : Closes rest) : readValue (n + 1) depth (intChars i ++ rest) = some (.int i, rest) := by
  have hbound : twoPow 63 < twoPow 64 := by decide
  obtain ⟨hlow, hhigh⟩ := hi
  unfold intChars
  split
  · rename_i hneg
    have hnumber := readNumber_toDigits (n := i.natAbs) true rest (by omega)
      (fun _ => by omega) h
    have hvalue : -(i.natAbs : Int) = i := by omega
    rw [if_pos rfl, hvalue] at hnumber
    rw [readValue]
    exact hnumber
  · rename_i hpos
    have hnumber := readNumber_toDigits (n := i.natAbs) false rest (by omega)
      (fun h => absurd h (by simp)) h
    have hvalue : (i.natAbs : Int) = i := by omega
    rw [if_neg (by simp), hvalue] at hnumber
    obtain ⟨c, ds, hds⟩ :=
      List.exists_cons_of_ne_nil (Nat.toDigits_ne_nil (b := 10) (n := i.natAbs))
    have hc : c.isDigit = true :=
      Nat.isDigit_of_mem_toDigits (by decide) (by decide) (hds ▸ List.mem_cons_self)
    rw [hds, List.cons_append] at hnumber ⊢
    rw [readValue_of_isDigit hc, hnumber]

/-! ## Quoted text -/

theorem hexValue?_hexDigit : ∀ d < 16, hexValue? (hexDigit d) = some d := by
  decide

/-- A character is written as an escape from which it is read, or it stands for itself. -/
theorem escapeChar_cases (c : Char) :
    (∃ body, escapeChar c = '\\' :: body ∧ ∀ cs, readEscape (body ++ cs) = some (c, cs)) ∨
      (escapeChar c = [c] ∧ c ≠ '"' ∧ c ≠ '\\' ∧ 32 ≤ c.toNat) := by
  have hnamed : ∀ {k : Nat}, c.toNat = k → c = Char.ofNat k := fun h =>
    h ▸ (Char.ofNat_toNat c).symm
  unfold escapeChar
  split_ifs with hquote hback hline hreturn htab hbell hfeed hcontrol
  · exact Or.inl ⟨['"'], rfl, fun _ => by rw [hquote]; rfl⟩
  · exact Or.inl ⟨['\\'], rfl, fun _ => by rw [hback]; rfl⟩
  · exact Or.inl ⟨['n'], rfl, fun _ => hline ▸ rfl⟩
  · exact Or.inl ⟨['r'], rfl, fun _ => hreturn ▸ rfl⟩
  · exact Or.inl ⟨['t'], rfl, fun _ => htab ▸ rfl⟩
  · exact Or.inl ⟨['b'], rfl, fun _ => hnamed hbell ▸ rfl⟩
  · exact Or.inl ⟨['f'], rfl, fun _ => hnamed hfeed ▸ rfl⟩
  · -- the other control characters are written by their two hexadecimal digits
    refine Or.inl ⟨_, rfl, fun cs => ?_⟩
    have hhigh := hexValue?_hexDigit (c.toNat / 16) (by omega)
    have hlow := hexValue?_hexDigit (c.toNat % 16) (by omega)
    have hzero : hexValue? '0' = some 0 := rfl
    have hvalue : 16 * (c.toNat / 16) + c.toNat % 16 = c.toNat := by omega
    have hsmall : c.toNat < 0xD800 := by omega
    simp [readEscape, readHex4, hzero, hhigh, hlow, hvalue, hsmall]
  · exact Or.inr ⟨rfl, hquote, hback, by omega⟩

theorem readQuoted_escapeChar (c : Char) :
    readQuoted (n + 1) (escapeChar c ++ cs) = (readQuoted n cs).map fun r => (c :: r.1, r.2) := by
  rcases escapeChar_cases c with ⟨body, hescape, hread⟩ | ⟨hplain, hquote, hback, hcontrol⟩
  · rw [hescape, List.cons_append]
    cases hrest : readQuoted n cs with
    | none => simp [readQuoted, hread, hrest]
    | some r => simp [readQuoted, hread, hrest]
  · have hprintable : ¬c.toNat < 32 := Nat.not_lt.mpr hcontrol
    rw [hplain, List.cons_append, List.nil_append]
    cases hrest : readQuoted n cs with
    | none => simp [readQuoted, hprintable, hrest]
    | some r => simp [readQuoted, hprintable, hrest]

theorem readQuoted_flatMap (text : List Char) (hn : text.length < n) :
    readQuoted n (text.flatMap escapeChar ++ '"' :: rest) = some (text, rest) := by
  induction text generalizing n with
  | nil =>
      obtain ⟨m, rfl⟩ : ∃ m, n = m + 1 := ⟨n - 1, by simp at hn; omega⟩
      rfl
  | cons c text ih =>
      obtain ⟨m, rfl⟩ : ∃ m, n = m + 1 := ⟨n - 1, by simp at hn; omega⟩
      rw [List.flatMap_cons, List.append_assoc, readQuoted_escapeChar,
        ih (by simpa using hn)]
      rfl

/-! ## Values -/

/-- The written form of a value begins with a character that is no blank and no closing bracket. -/
theorem exists_compactChars_eq_cons (hwhole : v.Whole) :
    ∃ c cs, compactChars v = c :: cs ∧ Text.isBlank c = false ∧ c ≠ ']' := by
  cases v with
  | null => exact ⟨_, _, by rw [compactChars], by decide, by decide⟩
  | bool b =>
      cases b with
      | true => exact ⟨_, _, by rw [compactChars], by decide, by decide⟩
      | false => exact ⟨_, _, by rw [compactChars], by decide, by decide⟩
  | int i =>
      rw [compactChars, intChars]
      split
      · exact ⟨_, _, rfl, by decide, by decide⟩
      · obtain ⟨c, ds, hds⟩ :=
          List.exists_cons_of_ne_nil (Nat.toDigits_ne_nil (b := 10) (n := i.natAbs))
        have hc : c.isDigit = true :=
          Nat.isDigit_of_mem_toDigits (by decide) (by decide) (hds ▸ List.mem_cons_self)
        exact ⟨c, ds, hds, isBlank_of_isDigit hc, ne_of_isDigit hc (by decide)⟩
  | float x => exact absurd hwhole (by simp [Whole])
  | text s => exact ⟨_, _, by rw [compactChars, quoted, List.cons_append], by decide, by decide⟩
  | list vs =>
      cases vs with
      | nil => exact ⟨_, _, by rw [compactChars], by decide, by decide⟩
      | cons v vs => exact ⟨_, _, by rw [compactChars], by decide, by decide⟩
  | object ms =>
      cases ms with
      | nil => exact ⟨_, _, by rw [compactChars], by decide, by decide⟩
      | cons m ms => exact ⟨_, _, by rw [compactChars], by decide, by decide⟩

theorem readQuoted_quoted (s : String) (rest : List Char) {body : List Char}
    (hbody : quoted s = '"' :: body) (hn : (quoted s).length ≤ n + 1) :
    readQuoted n (body ++ rest) = some (s.toList, rest) := by
  have hescaped : ∀ text : List Char, text.length ≤ (text.flatMap escapeChar).length := by
    intro text
    induction text with
    | nil => exact Nat.le_refl 0
    | cons c text ih =>
        have hc : 0 < (escapeChar c).length := by
          rcases escapeChar_cases c with ⟨body, hescape, -⟩ | ⟨hplain, -⟩
          · rw [hescape]
            exact Nat.succ_pos _
          · rw [hplain]
            exact Nat.one_pos
        rw [List.flatMap_cons, List.length_append, List.length_cons]
        omega
  have hlength := hescaped s.toList
  rw [quoted, List.cons_append] at hbody hn
  obtain rfl : _ = body := (List.cons.inj hbody).2
  rw [List.append_assoc]
  refine readQuoted_flatMap s.toList ?_
  simp only [List.length_cons, List.length_append, List.length_nil] at hn
  omega

theorem readValue_list {c : Char} (hc : isSpace c = false) (hne : c ≠ ']') :
    readValue (n + 1) (depth + 1) ('[' :: c :: cs) =
      (readElements n depth (c :: cs)).map fun r => (.list r.1, r.2) := by
  rw [readValue, skipSpace_cons (by decide)]
  simp only [skipSpace_cons hc]
  split
  · rename_i heq
    exact absurd (List.cons.inj heq).1 hne
  · rfl

theorem readValue_object : readValue (n + 1) (depth + 1) ('\x7b' :: '"' :: cs) =
    (readMembers n depth ('"' :: cs)).map fun r => (ofMembers r.1, r.2) := by
  rw [readValue]
  rfl

theorem readMembers_last {k : String} {body : List Char}
    (hk : readQuoted n body = some (k.toList, ':' :: cs))
    (hv : readValue n depth cs = some (v, '\x7d' :: rest)) :
    readMembers (n + 1) depth ('"' :: body) = some ([(k, v)], rest) := by
  rw [readMembers, skipSpace_cons (by decide)]
  simp [hk, hv, skipSpace_cons (c := ':') (by decide), skipSpace_cons (c := '\x7d') (by decide),
    String.ofList_toList]

theorem readMembers_more {k : String} {body rest' : List Char} {ms : Members}
    (hk : readQuoted n body = some (k.toList, ':' :: cs))
    (hv : readValue n depth cs = some (v, ',' :: rest))
    (hms : readMembers n depth rest = some (ms, rest')) :
    readMembers (n + 1) depth ('"' :: body) = some ((k, v) :: ms, rest') := by
  rw [readMembers, skipSpace_cons (by decide)]
  simp [hk, hv, hms, skipSpace_cons (c := ':') (by decide), skipSpace_cons (c := ',') (by decide),
    String.ofList_toList]

mutual

/-- **A value is read from its compact form**, in front of what may stand behind a value. -/
theorem readValue_compactChars : ∀ (v : Json) {n depth : Nat} {rest : List Char}, v.Whole →
    v.Readable depth → (compactChars v).length < n → Closes rest →
    readValue n depth (compactChars v ++ rest) = some (v, rest)
  | .null, n + 1, depth, rest, _, _, _, _ => by
      rw [compactChars, readValue]
      rfl
  | .bool true, n + 1, depth, rest, _, _, _, _ => by
      rw [compactChars, readValue]
      rfl
  | .bool false, n + 1, depth, rest, _, _, _, _ => by
      rw [compactChars, readValue]
      rfl
  | .int i, n + 1, depth, rest, _, hreadable, _, hrest => by
      rw [compactChars]
      exact readValue_intChars (by simpa [Readable] using hreadable) hrest
  | .float x, n + 1, depth, rest, hwhole, _, _, _ => absurd hwhole (by simp [Whole])
  | .text s, n + 1, depth, rest, _, _, hn, _ => by
      obtain ⟨body, hbody⟩ : ∃ body, quoted s = '"' :: body := ⟨_, rfl⟩
      rw [compactChars] at hn ⊢
      have hquoted := readQuoted_quoted s rest (n := n) hbody (by omega)
      rw [hbody, List.cons_append, readValue, skipSpace_cons (by decide)]
      simp [hquoted, String.ofList_toList]
  | .list [], n + 1, depth + 1, rest, _, _, _, _ => by
      rw [compactChars, readValue]
      rfl
  | .list (v :: vs), n + 1, depth + 1, rest, hwhole, hreadable, hn, _ => by
      rw [compactChars, List.length_cons] at hn
      rw [compactChars, List.cons_append, List.append_assoc]
      have hvs := readElements_compact v vs (n := n) rest hwhole.1 hwhole.2 hreadable.1
        hreadable.2 (by omega)
      -- the reader looks for the closing bracket of an empty list first, and finds none
      obtain ⟨c, cs, hfirst, hblank, hbracket⟩ := exists_compactChars_eq_cons hwhole.1
      rw [hfirst, List.cons_append] at hvs ⊢
      rw [readValue_list (isSpace_of_isBlank hblank) hbracket, hvs]
      rfl
  | .object [], n + 1, depth + 1, rest, _, _, _, _ => by
      rw [compactChars, readValue]
      rfl
  | .object ((k, v) :: ms), n + 1, depth + 1, rest, hwhole, hreadable, hn, _ => by
      obtain ⟨body, hbody⟩ : ∃ body, quoted k = '"' :: body := ⟨_, rfl⟩
      rw [compactChars, List.length_cons] at hn
      have hms := readMembers_compact k v ms (n := n) rest hwhole.1 hwhole.2
        hreadable.2.1 hreadable.2.2 (by omega)
      have hordered : ofMembers ((k, v) :: ms) = .object ((k, v) :: ms) :=
        congrArg Json.object (Members.ofList_of_ascending hreadable.1)
      rw [compactChars, List.cons_append, List.append_assoc, List.cons_append, List.append_assoc]
      rw [hbody, List.cons_append] at hms ⊢
      rw [readValue_object, hms, Option.map_some, hordered]
  | .list _, _, 0, _, _, hreadable, _, _ => absurd hreadable (by simp [Readable])
  | .object _, _, 0, _, _, hreadable, _, _ => absurd hreadable (by simp [Readable])
  | _, 0, _, _, _, _, hn, _ => absurd hn (Nat.not_lt_zero _)
termination_by v => sizeOf v

theorem readElements_compact : ∀ (v : Json) (vs : List Json) {n depth : Nat} (rest : List Char),
    v.Whole → WholeList vs → v.Readable depth → ReadableList vs depth →
    (compactChars v ++ compactRest vs).length < n →
    readElements n depth (compactChars v ++ (compactRest vs ++ rest)) = some (v :: vs, rest)
  | v, [], n + 1, depth, rest, hwhole, _, hreadable, _, hn => by
      rw [compactRest, List.length_append, List.length_singleton] at hn
      have hv := readValue_compactChars v (n := n) hwhole hreadable (by omega)
        (closes_compactRest [] rest)
      rw [readElements, hv]
      rfl
  | v, w :: ws, n + 1, depth, rest, hwhole, hwholes, hreadable, hreadables, hn => by
      rw [compactRest, List.length_append, List.length_cons] at hn
      have hv := readValue_compactChars v (n := n) hwhole hreadable (by omega)
        (closes_compactRest (w :: ws) rest)
      obtain ⟨_, _, hfirst, -, -⟩ := exists_compactChars_eq_cons hwhole
      rw [hfirst, List.length_cons] at hn
      have hws := readElements_compact w ws (n := n) rest hwholes.1 hwholes.2 hreadables.1
        hreadables.2 (by omega)
      rw [compactRest, List.cons_append, List.append_assoc] at hv ⊢
      rw [readElements, hv]
      simp [skipSpace_cons (c := ',') (by decide), hws]
  | _, _, 0, _, _, _, _, _, _, hn => absurd hn (Nat.not_lt_zero _)
termination_by v vs => sizeOf v + sizeOf vs

theorem readMembers_compact : ∀ (k : String) (v : Json) (ms : Members) {n depth : Nat}
    (rest : List Char), v.Whole → WholeMembers ms → v.Readable depth → ReadableMembers ms depth →
    (quoted k ++ ':' :: (compactChars v ++ compactMembers ms)).length < n →
    readMembers n depth (quoted k ++ ':' :: (compactChars v ++ (compactMembers ms ++ rest))) =
      some ((k, v) :: ms, rest)
  | k, v, [], n + 1, depth, rest, hwhole, _, hreadable, _, hn => by
      obtain ⟨body, hbody⟩ : ∃ body, quoted k = '"' :: body := ⟨_, rfl⟩
      rw [compactMembers, List.length_append, List.length_cons, List.length_append,
        List.length_singleton] at hn
      have hk := readQuoted_quoted k (n := n)
        (':' :: (compactChars v ++ (compactMembers [] ++ rest))) hbody (by omega)
      have hv := readValue_compactChars v (n := n) hwhole hreadable (by omega)
        (closes_compactMembers [] rest)
      rw [hbody, List.cons_append]
      exact readMembers_last hk hv
  | k, v, (l, w) :: ms, n + 1, depth, rest, hwhole, hwholes, hreadable, hreadables, hn => by
      obtain ⟨body, hbody⟩ : ∃ body, quoted k = '"' :: body := ⟨_, rfl⟩
      rw [compactMembers, List.length_append, List.length_cons, List.length_append,
        List.length_cons] at hn
      have hk := readQuoted_quoted k (n := n)
        (':' :: (compactChars v ++ (compactMembers ((l, w) :: ms) ++ rest))) hbody (by omega)
      have hv := readValue_compactChars v (n := n) hwhole hreadable (by omega)
        (closes_compactMembers ((l, w) :: ms) rest)
      have hms := readMembers_compact l w ms (n := n) rest hwholes.1 hwholes.2
        hreadables.1 hreadables.2 (by omega)
      rw [compactMembers, List.cons_append, List.append_assoc, List.cons_append,
        List.append_assoc] at hk hv ⊢
      rw [hbody, List.cons_append]
      exact readMembers_more hk hv hms
  | _, _, _, 0, _, _, _, _, _, _, hn => absurd hn (Nat.not_lt_zero _)
termination_by _ v ms => sizeOf v + sizeOf ms

end

/-- **A value that was read is read back** from its compact form, if it holds no binary64 number. -/
theorem read?_compact {s : String} (h : read? depth s = some v) (hwhole : v.Whole) :
    read? depth v.compact = some v := by
  have hread := readValue_compactChars v (n := (compactChars v).length + 1) hwhole
    (readable_of_read? h) (Nat.lt_succ_self _) closes_nil
  rw [List.append_nil] at hread
  rw [read?, compact, String.toList_ofList, hread]
  rfl

/-- A compact form is no blank text. -/
theorem isBlankText_compact (hwhole : v.Whole) : Text.isBlankText v.compact = false := by
  obtain ⟨c, cs, hfirst, hblank, -⟩ := exists_compactChars_eq_cons hwhole
  rw [Text.isBlankText, compact, String.toList_ofList, hfirst, List.all_cons, hblank]
  rfl

end Json

end Interview
