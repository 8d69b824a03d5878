import Interview.Path
/-
The algebra of paths.

A path is a list of segments and a text is a list of pieces, and reading a text drops the pieces
that are empty. So the text of a path is one of many texts that name it, and it is the one in which
nothing is dropped. All laws of this file come from three facts: cutting at dots is the inverse of
putting dots between (`pieces_intercalate`), a text with a dot in the middle is cut there
(`pieces_append_dot`), and what is left of a path behind another one is just what has to be appended
to the other one (`relativeTo?_eq_some_iff`).
-/

set_option autoImplicit false

namespace Interview

/-! ## Pieces -/

/-- The pieces of a text are its parts between dots, as lists are split in general. -/
theorem pieces_eq_splitOn (cs : List Char) : pieces cs = cs.splitOn '.' := by
  induction cs with
  | nil => exact (List.splitOn_nil '.').symm
  | cons c cs ih =>
      rw [List.splitOn_cons_eq_if_modifyHead, ← ih]
      by_cases hc : c = '.'
      · rw [hc, if_pos (beq_self_eq_true '.'), pieces_dot]
      · obtain ⟨p, ps, hpieces, hcons⟩ := pieces_cons hc cs
        rw [if_neg (by simpa using hc), hcons, hpieces]
        rfl

/-- A text with a dot in the middle is cut at the dot. -/
theorem pieces_append_dot (cs ds : List Char) :
    pieces (cs ++ '.' :: ds) = pieces cs ++ pieces ds := by
  simp only [pieces_eq_splitOn, List.splitOn_append_cons_self]

/-- **Cutting is the inverse of joining**, if there are pieces at all and none of them has a dot. -/
theorem pieces_intercalate {ps : List (List Char)} (hne : ps ≠ []) (hdot : ∀ p ∈ ps, '.' ∉ p) :
    pieces (['.'].intercalate ps) = ps := by
  rw [pieces_eq_splitOn]
  exact List.splitOn_intercalate '.' hdot hne

/-- A text is its pieces with dots between them. -/
theorem intercalate_pieces (cs : List Char) : ['.'].intercalate (pieces cs) = cs := by
  rw [pieces_eq_splitOn]
  exact List.intercalate_splitOn '.'

/-! ## Segments of texts -/

namespace Path

variable {p q r : Path}

/-- A text of two parts with a dot between them has the segments of both. -/
theorem segmentsOf_append_dot (s t : String) :
    segmentsOf (s ++ "." ++ t) = segmentsOf s ++ segmentsOf t := by
  have hlist : (s ++ "." ++ t).toList = s.toList ++ '.' :: t.toList := by
    simp [String.toList_append]
  simp only [segmentsOf, hlist, pieces_append_dot, List.filter_append, List.map_append]

/-- The segments of a path as pieces of a text: none is empty and none has a dot. -/
theorem proper_of_mem_map {cs : List Char} (h : cs ∈ p.segments.map String.toList) :
    cs ≠ [] ∧ '.' ∉ cs := by
  obtain ⟨s, hs, rfl⟩ := List.mem_map.mp h
  obtain ⟨hne, hdot⟩ := p.proper s hs
  exact ⟨fun hnil => hne (String.toList_eq_nil_iff.mp hnil), hdot⟩

/-- **The text of a path has its segments.** -/
theorem segmentsOf_toText (p : Path) : segmentsOf p.toText = p.segments := by
  rw [segmentsOf, toText, String.toList_ofList]
  by_cases hroot : p.segments = []
  · rw [hroot]
    rfl
  · rw [pieces_intercalate (by simpa using hroot) fun cs hcs => (proper_of_mem_map hcs).2,
      List.filter_eq_self.mpr fun cs hcs => by simpa using (proper_of_mem_map hcs).1, List.map_map]
    simp

/-- A segment is the text of the path with that one segment. -/
theorem segmentsOf_of_proper {s : String} (h : ProperSegment s) : segmentsOf s = [s] := by
  have hpath := segmentsOf_toText ⟨[s], fun t ht => List.mem_singleton.mp ht ▸ h⟩
  simpa [toText] using hpath

/-- A path is read back from its text. -/
theorem ofText_toText (p : Path) : ofText p.toText = p :=
  ext p.segmentsOf_toText

/-- Continuing a path by the text of another one appends the other one's segments. -/
theorem segments_child_toText (p r : Path) :
    (p.child r.toText).segments = p.segments ++ r.segments :=
  congrArg (p.segments ++ ·) r.segmentsOf_toText

/-! ## Prefixes -/

/-- A path goes on from where it starts. -/
theorem exists_append_of_startsWith (h : q.startsWith p = true) :
    ∃ u, q.segments = p.segments ++ u := by
  obtain ⟨u, hu⟩ := List.isPrefixOf_iff_prefix.mp h
  exact ⟨u, hu.symm⟩

/-- A path that is not the root has a segment. -/
theorem segments_ne_nil (h : p.isRoot = false) : p.segments ≠ [] :=
  List.isEmpty_eq_false_iff.mp h

/-- **What is left of a path behind another one** is what the other one lacks. -/
theorem relativeTo?_eq_some_iff :
    p.relativeTo? q = some r ↔ p.segments = q.segments ++ r.segments := by
  unfold relativeTo?
  constructor
  · intro h
    split at h
    · rename_i hstarts
      obtain ⟨u, hu⟩ := exists_append_of_startsWith hstarts
      obtain rfl := Option.some.inj h
      simp [hu, depth]
    · exact absurd h (by simp)
  · intro h
    have hstarts : p.startsWith q = true := List.isPrefixOf_iff_prefix.mpr ⟨r.segments, h.symm⟩
    rw [if_pos hstarts, Option.some.injEq]
    exact ext (by simp [h, depth])

/-- A path leads through another one just if something is left of it behind the other one. -/
theorem startsWith_iff_exists : p.startsWith q = true ↔ ∃ r, p.relativeTo? q = some r := by
  unfold relativeTo?
  split
  · rename_i hstarts
    exact iff_of_true hstarts ⟨_, rfl⟩
  · rename_i hstarts
    exact iff_of_false hstarts (by simp)

theorem overlaps_comm (p q : Path) : p.overlaps q = q.overlaps p :=
  Bool.or_comm _ _

/-- Two paths overlap just if something is left of one of them behind the other one. -/
theorem overlaps_iff_exists : p.overlaps q = true ↔
    (∃ r, p.relativeTo? q = some r) ∨ ∃ r, q.relativeTo? p = some r := by
  rw [overlaps, Bool.or_eq_true, startsWith_iff_exists, startsWith_iff_exists]

/-- A path that is not the root is its parent, continued by its last segment. -/
theorem exists_child_parent (h : p.isRoot = false) :
    ∃ s, p.last? = some s ∧ p.parent.child s = p := by
  have hne := segments_ne_nil h
  refine ⟨p.segments.getLast hne, List.getLast?_eq_some_getLast hne, ext ?_⟩
  have hlast := segmentsOf_of_proper (p.proper _ (List.getLast_mem hne))
  exact (congrArg (p.segments.dropLast ++ ·) hlast).trans (List.dropLast_concat_getLast hne)

/-! ## The laws -/

/-- **The laws of paths and their texts.** -/
structure Lawful (s t : String) (p q : Path) : Prop where
  /-- A text is made of pieces with dots between them, and those that are not empty are the segments
  of its path. -/
  segments : ∃ ps : List (List Char), (∀ cs ∈ ps, '.' ∉ cs) ∧ ['.'].intercalate ps = s.toList ∧
    (ofText s).segments = (ps.filter (· ≠ [])).map String.ofList
  /-- No segment is empty, and none has a dot in it. -/
  proper : ∀ x ∈ p.segments, x ≠ "" ∧ '.' ∉ x.toList
  /-- A path is read back from its text. -/
  ofText_toText : ofText p.toText = p
  /-- Continuing a path by a text is reading both texts with a dot between them. -/
  child_ofText : (ofText s).child t = ofText (s ++ "." ++ t)
  /-- A path starts with another one just if something is left of it behind the other one. -/
  startsWith_iff : p.startsWith q = true ↔ ∃ r, p.relativeTo? q = some r
  /-- What is left leads back to the path. -/
  child_relative : ∀ r, p.relativeTo? q = some r → q.child r.toText = p
  /-- What a path was continued by is what is left of it. -/
  relative_child : (q.child t).relativeTo? q = some (ofText t)
  /-- Overlapping does not depend on the order. -/
  overlaps_comm : p.overlaps q = q.overlaps p
  /-- Two paths overlap just if something is left of one of them behind the other one. -/
  overlaps_iff : p.overlaps q = true ↔
    (∃ r, p.relativeTo? q = some r) ∨ ∃ r, q.relativeTo? p = some r
  /-- A path that is not the root is its parent, continued by its last segment. -/
  child_parent : p.isRoot = false → ∃ x, p.last? = some x ∧ p.parent.child x = p

/-- **The laws hold of all texts and all paths.** -/
theorem lawful (s t : String) (p q : Path) : Lawful s t p q where
  segments :=
    ⟨pieces s.toList, fun _ => dot_not_mem_of_mem_pieces, intercalate_pieces s.toList, rfl⟩
  proper := p.proper
  ofText_toText := p.ofText_toText
  child_ofText := ext (segmentsOf_append_dot s t).symm
  startsWith_iff := startsWith_iff_exists
  child_relative r h := ext ((segments_child_toText q r).trans (relativeTo?_eq_some_iff.mp h).symm)
  relative_child := relativeTo?_eq_some_iff.mpr rfl
  overlaps_comm := p.overlaps_comm q
  overlaps_iff := overlaps_iff_exists
  child_parent := exists_child_parent

/-- Dots that have nothing between them are not seen in a path. -/
theorem lawful_of_dotted :
    let p := ofText ".debug..port."
    let q := ofText "debug."
    let r := ofText "port"
    p.toText = "debug.port" ∧ ofText p.toText = p ∧
      (ofText "debug.").child ".port" = ofText ("debug." ++ "." ++ ".port") ∧
      p.relativeTo? q = some r ∧ q.child r.toText = p ∧
      p.isRoot = false ∧ ∃ x, p.last? = some x ∧ p.parent.child x = p := by
  intro p q r
  have hlaws := lawful "debug." ".port" p q
  have hleft : p.relativeTo? q = some r := rfl
  have hroot : p.isRoot = false := rfl
  exact ⟨rfl, hlaws.ofText_toText, hlaws.child_ofText, hleft, hlaws.child_relative r hleft, hroot,
    hlaws.child_parent hroot⟩

end Path

end Interview
