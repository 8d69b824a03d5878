import Mathlib.Data.List.Nodup
import Interview.Proofs.Terminal.Lines
/-
The commands of the buttons at a line of text.

A command is made from the name of a button, which is cut, put into lowercase and freed of its
spaces; a reply is only cut. The two agree if a command is never cut itself. It begins with a colon,
and its end is followed through the making: what is cut ends with no blank, the lowercase of a
character that is not blank is not blank, and a hyphen is not blank either. For lowercase letters
this is read off the table: none of its runs is shifted onto a blank.
-/

set_option autoImplicit false

namespace Interview

open Control (Event)

namespace Text

/-! ## What is blank -/

/-- The runs of the blank characters. -/
def blankRuns : List (Nat × Nat) :=
  [(0x09, 0x0D), (0x20, 0x20), (0x85, 0x85), (0xA0, 0xA0), (0x1680, 0x1680), (0x2000, 0x200A),
    (0x2028, 0x2029), (0x202F, 0x202F), (0x205F, 0x205F), (0x3000, 0x3000)]

theorem isBlank_eq_inRuns (c : Char) : isBlank c = inRuns blankRuns c := by
  have hval : c.toNat = c.val.toNat := rfl
  rw [Bool.eq_iff_iff]
  simp only [isBlank, inRuns, blankRuns, hval, List.any_cons, List.any_nil, Bool.or_eq_true,
    Bool.and_eq_true, decide_eq_true_eq, beq_iff_eq, UInt32.le_iff_toNat_le,
    ← UInt32.toNat_inj, UInt32.toNat_ofNat, Bool.or_false]
  omega

theorem pos_of_mem_blankRuns : ∀ r ∈ blankRuns, 0 < r.1 := by
  decide

/-- The last character of a text is there and is not blank. -/
def EndsPlain (cs : List Char) : Prop :=
  ∃ c, cs.getLast? = some c ∧ isBlank c = false

theorem endsPlain_singleton {c : Char} (h : isBlank c = false) : EndsPlain [c] :=
  ⟨c, rfl, h⟩

theorem EndsPlain.append {cs : List Char} (front : List Char) (h : EndsPlain cs) :
    EndsPlain (front ++ cs) := by
  obtain ⟨c, hc, hplain⟩ := h
  exact ⟨c, by rw [List.getLast?_append, hc]; rfl, hplain⟩

/-! ## Cutting -/

/-- What is left of a text after the blanks at its two ends is empty or ends plainly. -/
theorem trimChars_eq_nil_or_endsPlain (cs : List Char) :
    trimChars cs = [] ∨ EndsPlain (trimChars cs) := by
  have hhead := List.head?_dropWhile_not isBlank (dropBlanks cs).reverse
  rw [← dropBlanks] at hhead
  rcases hkept : (dropBlanks (dropBlanks cs).reverse).head? with _ | c
  · exact Or.inl (by rw [trimChars, List.head?_eq_none_iff.mp hkept, List.reverse_nil])
  · rw [hkept] at hhead
    exact Or.inr ⟨c, by rw [trimChars, List.getLast?_reverse, hkept], hhead⟩

theorem dropBlanks_append {before : List Char} (h : ∀ c ∈ before, isBlank c = true)
    (cs : List Char) : dropBlanks (before ++ cs) = dropBlanks cs :=
  List.dropWhile_append_of_pos h

theorem dropBlanks_cons {c : Char} (h : isBlank c = false) (cs : List Char) :
    dropBlanks (c :: cs) = c :: cs :=
  List.dropWhile_cons_of_neg (by simp [h])

/-- A text that begins and ends plainly is what is cut out of the blanks around it. -/
theorem trimChars_around {before after cs : List Char} {c : Char}
    (hbefore : ∀ b ∈ before, isBlank b = true) (hafter : ∀ b ∈ after, isBlank b = true)
    (hfirst : isBlank c = false) (hlast : EndsPlain (c :: cs)) :
    trimChars (before ++ (c :: cs) ++ after) = c :: cs := by
  obtain ⟨d, hd, hplain⟩ := hlast
  obtain ⟨front, hfront⟩ := List.getLast?_eq_some_iff.mp hd
  have hstart : dropBlanks (before ++ (c :: cs) ++ after) = (c :: cs) ++ after := by
    rw [List.append_assoc, dropBlanks_append hbefore]
    exact dropBlanks_cons hfirst (cs ++ after)
  have hreverse : ((c :: cs) ++ after).reverse = after.reverse ++ d :: front.reverse := by
    rw [hfront]
    simp
  have hstop : dropBlanks (after.reverse ++ d :: front.reverse) = d :: front.reverse := by
    rw [dropBlanks_append fun b hb => hafter b (List.mem_reverse.mp hb), dropBlanks_cons hplain]
  rw [trimChars, hstart, hreverse, hstop, hfront]
  simp

/-! ## Lowercase -/

/-- No run of letters is shifted onto a blank. -/
theorem caseRuns_apart :
    (caseRuns.all fun r => blankRuns.all fun b =>
      r.last + r.shift < b.1 || (b.2 : Int) < r.first + r.shift) = true := by
  decide +kernel

theorem isBlank_ofNat {n : Nat} (h : ∀ b ∈ blankRuns, n < b.1 ∨ b.2 < n) :
    isBlank (Char.ofNat n) = false := by
  have hvalue : (Char.ofNat n).toNat = n ∨ (Char.ofNat n).toNat = 0 := by
    by_cases hvalid : n.isValidChar
    · rw [Char.ofNat, dif_pos hvalid]
      exact Or.inl rfl
    · rw [Char.ofNat, dif_neg hvalid]
      exact Or.inr rfl
  rw [isBlank_eq_inRuns, inRuns, List.any_eq_false]
  intro b hb
  have hapart := h b hb
  have hpos := pos_of_mem_blankRuns b hb
  simp only [Bool.and_eq_true, decide_eq_true_eq, not_and]
  omega

theorem isBlank_lowerChar {c : Char} (h : isBlank c = false) : isBlank (lowerChar c) = false := by
  unfold lowerChar
  split
  · rename_i r hr
    have hmem := List.mem_of_find?_eq_some hr
    have hin := List.find?_some hr
    simp only [Bool.and_eq_true, decide_eq_true_eq, beq_iff_eq] at hin
    refine isBlank_ofNat fun b hb => ?_
    have hapart := List.all_eq_true.mp (List.all_eq_true.mp caseRuns_apart r hmem) b hb
    have hpos := pos_of_mem_blankRuns b hb
    simp only [Bool.or_eq_true, decide_eq_true_eq] at hapart
    rw [Int.ofNat_eq_natCast]
    omega
  · exact h

theorem isBlank_toLower {c : Char} (h : isBlank c = false) : isBlank c.toLower = false := by
  unfold Char.toLower
  split
  · rename_i hupper
    -- the small letters from a to z
    obtain ⟨hlow, hhigh⟩ := hupper
    have hlow' : 65 ≤ c.val.toNat := UInt32.le_iff_toNat_le.mp hlow
    have hhigh' : c.val.toNat ≤ 90 := UInt32.le_iff_toNat_le.mp hhigh
    have hshift : ('a'.val - 'A'.val).toNat = 32 := rfl
    rw [isBlank_eq_inRuns, inRuns, List.any_eq_false]
    intro b hb
    have hvalue : (c.val + ('a'.val - 'A'.val)).toNat = c.val.toNat + 32 := by
      rw [UInt32.toNat_add, hshift]
      omega
    have houtside : ∀ b ∈ blankRuns, b.2 < 97 ∨ 122 < b.1 := by decide
    have hb' := houtside b hb
    simp only [Char.toNat, hvalue, Bool.and_eq_true, decide_eq_true_eq, not_and]
    omega
  · exact h

/-- **The lowercase of a text that ends plainly ends plainly**, whatever stands before the text. -/
theorem endsPlain_lowerFrom {cs : List Char} (passed : List Char) (h : EndsPlain cs) :
    EndsPlain (lowerFrom passed cs) := by
  induction cs generalizing passed with
  | nil =>
      obtain ⟨c, hc, -⟩ := h
      exact absurd hc (by simp)
  | cons c rest ih =>
      rcases rest with _ | ⟨c', rest⟩
      · -- the last character: what it becomes ends plainly on each way that it can go
        obtain ⟨d, hd, hplain⟩ := h
        obtain rfl : c = d := Option.some.inj hd
        simp only [lowerFrom, List.append_nil]
        split
        · split
          · exact endsPlain_singleton (by decide)
          · exact endsPlain_singleton (by decide)
        · split
          · exact (endsPlain_singleton (by decide)).append ['i']
          · split
            · exact endsPlain_singleton (isBlank_toLower hplain)
            · exact endsPlain_singleton (isBlank_lowerChar hplain)
      · rw [lowerFrom]
        exact (ih _ (by simpa [EndsPlain] using h)).append _

end Text

namespace Terminal

open Text (EndsPlain)

/-- **A command is never cut**: it begins with a colon and ends plainly, be the name of the button
empty, blank, or a name that begins or ends with blanks. -/
theorem command_toList (b : ButtonFace) :
    ∃ name, (command b).toList = ':' :: name ∧ EndsPlain (':' :: name) := by
  refine ⟨_, by rw [command, String.toList_ofList], ?_⟩
  simp only [Text.lower, Text.trim, String.toList_ofList]
  rcases Text.trimChars_eq_nil_or_endsPlain (buttonName b).toList with hnil | hends
  · rw [hnil]
    exact Text.endsPlain_singleton (by decide)
  · obtain ⟨c, hc, hplain⟩ := Text.endsPlain_lowerFrom [] hends
    refine EndsPlain.append [':'] ⟨if c = ' ' then '-' else c, ?_, ?_⟩
    · rw [List.getLast?_map, hc]
      rfl
    · split
      · decide
      · exact hplain

/-- What is cut out of a reply that is a command with blanks around it is the command. -/
theorem trim_around_command (b : ButtonFace) {before after : String}
    (hbefore : Text.isBlankText before = true) (hafter : Text.isBlankText after = true) :
    Text.trim (before ++ command b ++ after) = command b := by
  obtain ⟨name, hname, hends⟩ := command_toList b
  have htrim := Text.trimChars_around (List.all_eq_true.mp hbefore) (List.all_eq_true.mp hafter)
    (by decide) hends
  rw [Text.trim, String.toList_append, String.toList_append, hname, htrim, ← hname,
    String.ofList_toList]

variable {buttons : List ButtonFace}

/-- A command with blanks around it clicks the first button that has it. -/
theorem textReply_around_command {i : Nat} {b : ButtonFace} (h : buttons[i]? = some b)
    {before after : String} (hbefore : Text.isBlankText before = true)
    (hafter : Text.isBlankText after = true) :
    ∃ j ≤ i, textReply (before ++ command b ++ after) buttons = [.button j] ∧
      (buttons.map command)[j]? = some (command b) ∧
      ∀ k < j, (buttons.map command)[k]? ≠ some (command b) := by
  obtain ⟨hi, hb⟩ := List.getElem?_eq_some_iff.mp h
  rcases hfound : buttons.findIdx? fun b' => command b' == command b with _ | j
  · have hnone := List.findIdx?_eq_none_iff.mp hfound b (hb ▸ List.getElem_mem hi)
    exact absurd hnone (by simp)
  · obtain ⟨hj, hsame, hfirst⟩ := List.findIdx?_eq_some_iff_getElem.mp hfound
    refine ⟨j, ?_, ?_, ?_, fun k hk hother => ?_⟩
    · -- no button before the first one has the command
      refine Nat.le_of_not_lt fun hlt => hfirst i hlt ?_
      rw [hb]
      exact beq_self_eq_true _
    · rw [textReply, trim_around_command b hbefore hafter, hfound]
    · rw [List.getElem?_map, List.getElem?_eq_getElem hj, Option.map_some, eq_of_beq hsame]
    · have hk' := hfirst k hk
      have hbutton := List.getElem?_eq_getElem (Nat.lt_trans hk hj)
      rw [List.getElem?_map, hbutton, Option.map_some] at hother
      exact hk' (beq_iff_eq.mpr (Option.some.inj hother))

/-- A reply that is no command is a text. -/
theorem textReply_of_not_mem {reply : String} (h : Text.trim reply ∉ buttons.map command) :
    textReply reply buttons = [.changed reply, .accept] := by
  have hnone : (buttons.findIdx? fun b => command b == Text.trim reply) = none := by
    refine List.findIdx?_eq_none_iff.mpr fun b hb => ?_
    exact beq_eq_false_iff_ne.mpr fun hsame => h (List.mem_map.mpr ⟨b, hb, hsame⟩)
  rw [textReply, hnone]

/-- **What a line of text makes of the commands of its buttons.** -/
structure Heeds (buttons : List ButtonFace) : Prop where
  /-- The commands are printed in front of a line of text that is not hidden. -/
  printed : ∀ (c : Terminal) value, c.content = .text value false → c.chrome.buttons = buttons →
    buttons ≠ [] → "(" ++ ", ".intercalate (buttons.map command) ++ ")" ∈ c.printed
  /-- Each reply is read for commands, at a hidden line too. -/
  heard : ∀ value password m r, reply? (.text value password) m = some r →
    Terminal.heard buttons (.text value password) (some m) = some (.ok (textReply r buttons))
  /-- The command of a button, with blanks around it, clicks the first button that has it. -/
  first : ∀ i b, buttons[i]? = some b → ∀ before after, Text.isBlankText before = true →
    Text.isBlankText after = true →
    ∃ j ≤ i, textReply (before ++ command b ++ after) buttons = [.button j] ∧
      (buttons.map command)[j]? = some (command b) ∧
      ∀ k < j, (buttons.map command)[k]? ≠ some (command b)
  /-- It clicks the button itself if no two buttons have the same command. -/
  own : (buttons.map command).Nodup → ∀ i b, buttons[i]? = some b → ∀ before after,
    Text.isBlankText before = true → Text.isBlankText after = true →
    textReply (before ++ command b ++ after) buttons = [.button i]
  /-- A reply that is no command, with blanks around it or without, is a text, as it was typed. -/
  text : ∀ reply, Text.trim reply ∉ buttons.map command →
    textReply reply buttons = [.changed reply, .accept]

/-- **Every command reaches its button**, and every other reply is a text. -/
theorem heeds (buttons : List ButtonFace) : Heeds buttons where
  printed c value hcontent hbuttons hne := by
    have hsome : buttons.isEmpty = false := by simpa using hne
    rw [printed_text hcontent, commandLines, hbuttons, hsome]
    exact List.mem_append_right _ (List.mem_singleton.mpr rfl)
  heard value password m r hr := by
    rcases heard_text buttons value password (some m) with ⟨r', hr', hheard⟩ | ⟨hnone, -⟩
    · obtain rfl : r = r' := Option.some.inj (hr.symm.trans hr')
      exact hheard
    · exact absurd (hr.symm.trans hnone) (by simp)
  first _ _ h _ _ hbefore hafter := textReply_around_command h hbefore hafter
  own hdistinct i b h before after hbefore hafter := by
    obtain ⟨j, hle, hreply, hsame, hfirst⟩ := textReply_around_command h hbefore hafter
    have hown : (buttons.map command)[i]? = some (command b) := by
      rw [List.getElem?_map, h, Option.map_some]
    obtain ⟨hi, hi'⟩ := List.getElem?_eq_some_iff.mp hown
    obtain ⟨hj, hj'⟩ := List.getElem?_eq_some_iff.mp hsame
    obtain rfl : j = i := hdistinct.getElem_inj_iff.mp (hj'.trans hi'.symm)
    exact hreply
  text _ h := textReply_of_not_mem h

/-- Three buttons, of which two have no name but blanks. -/
def oddButtons : List ButtonFace :=
  [⟨"next", some " ÄNDERE die ΟΔΟΣ\u00a0"⟩, ⟨"", none⟩, ⟨"x", some "\u3000 \t"⟩]

/-- Of two buttons with the same command the first is clicked, for which the colon is enough. -/
theorem heeds_of_oddButtons :
    oddButtons.map command = [":ändere-die-οδος", ":", ":"] ∧
      textReply "\t:ändere-die-οδος\u2003" oddButtons = [.button 0] ∧
      textReply " : " oddButtons = [.button 1] ∧
      textReply " ändere die οδος" oddButtons = [.changed " ändere die οδος", .accept] := by
  have hcommands : oddButtons.map command = [":ändere-die-οδος", ":", ":"] := by decide +kernel
  have hheeds := heeds oddButtons
  refine ⟨hcommands, ?_, ?_, hheeds.text _ (by rw [hcommands]; decide +kernel)⟩
  · have hcommand : command ⟨"next", some " ÄNDERE die ΟΔΟΣ\u00a0"⟩ = ":ändere-die-οδος" := by
      decide +kernel
    obtain ⟨j, hj, hreply, -⟩ :=
      hheeds.first 0 _ rfl "\t" "\u2003" (by decide +kernel) (by decide +kernel)
    rw [hcommand] at hreply
    obtain rfl := Nat.le_zero.mp hj
    exact hreply
  · have hcommand : command ⟨"x", some "\u3000 \t"⟩ = ":" := by decide +kernel
    obtain ⟨j, hj, hreply, hsame, hfirst⟩ :=
      hheeds.first 2 _ rfl " " " " (by decide +kernel) (by decide +kernel)
    rw [hcommand] at hreply hsame hfirst
    rw [hcommands] at hsame hfirst
    have hzero : j ≠ 0 := fun h => absurd hsame (by rw [h]; decide)
    have hone : ¬1 < j := fun h => hfirst 1 h rfl
    obtain rfl : j = 1 := by omega
    exact hreply

end Terminal

end Interview
