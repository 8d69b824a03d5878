/-
Paths of fields, such as `target.handler`.

A path is a list of segments, none of them empty and none with a dot inside, so that the
text of a path determines it. Text is cut at its dots and the empty pieces are dropped:
`.target..handler.` is the path `target.handler`, and a text of nothing but dots is the root.

Two paths overlap when one of them leads through the other. That is the relation that
decides which answers of a draft can touch each other, so it is defined here by the order
of prefixes and by nothing else.
-/

set_option autoImplicit false

namespace Interview

/-! ## Cutting a text at its dots -/

/-- The pieces of a text between its dots, empty ones included: one more piece than dots. -/
def pieces (cs : List Char) : List (List Char) :=
  cs.foldr
    (fun c ps =>
      if c = '.' then [] :: ps
      else
        match ps with
        | p :: ps => (c :: p) :: ps
        | [] => [[c]])
    [[]]

theorem pieces_dot (cs : List Char) : pieces ('.' :: cs) = [] :: pieces cs := rfl

theorem pieces_ne_nil (cs : List Char) : pieces cs ≠ [] := by
  cases cs with
  | nil => simp [pieces]
  | cons c cs =>
    simp only [pieces, List.foldr_cons]
    split
    · simp
    · split <;> simp

theorem pieces_cons {c : Char} (hc : c ≠ '.') (cs : List Char) :
    ∃ p ps, pieces cs = p :: ps ∧ pieces (c :: cs) = (c :: p) :: ps := by
  cases h : pieces cs with
  | nil => exact absurd h (pieces_ne_nil cs)
  | cons p ps =>
    refine ⟨p, ps, rfl, ?_⟩
    have : List.foldr _ [[]] cs = p :: ps := h
    simp only [pieces, List.foldr_cons, if_neg hc, this]

/-- No piece has a dot in it. -/
theorem dot_not_mem_of_mem_pieces {cs p : List Char} (h : p ∈ pieces cs) : '.' ∉ p := by
  induction cs generalizing p with
  | nil => simp [pieces] at h; simp [h]
  | cons c cs ih =>
    by_cases hc : c = '.'
    · subst hc
      rw [pieces_dot] at h
      rcases List.mem_cons.1 h with h | h
      · simp [h]
      · exact ih h
    · obtain ⟨q, qs, hq, hcons⟩ := pieces_cons hc cs
      rw [hcons] at h
      rcases List.mem_cons.1 h with h | h
      · subst h
        have hq' : '.' ∉ q := ih (hq ▸ List.mem_cons_self)
        simp only [List.mem_cons, not_or]
        exact ⟨fun h => hc h.symm, hq'⟩
      · exact ih (hq ▸ List.mem_cons_of_mem _ h)

/-! ## Paths -/

/-- What a segment of a path has to be: not empty, and without a dot. -/
def ProperSegment (s : String) : Prop :=
  s ≠ "" ∧ '.' ∉ s.toList

/-- The path of a field: its segments, outermost first. -/
structure Path where
  segments : List String
  proper : ∀ s ∈ segments, ProperSegment s
deriving DecidableEq

namespace Path

@[ext] theorem ext {p q : Path} (h : p.segments = q.segments) : p = q := by
  cases p; cases q; simp_all

/-- The path of the whole draft. -/
def root : Path :=
  ⟨[], by simp⟩

instance : Inhabited Path := ⟨root⟩

/-- The segments of a text: its pieces without the empty ones. -/
def segmentsOf (s : String) : List String :=
  ((pieces s.toList).filter (· ≠ [])).map String.ofList

theorem proper_segmentsOf (s : String) : ∀ t ∈ segmentsOf s, ProperSegment t := by
  intro t ht
  obtain ⟨p, hp, rfl⟩ := List.mem_map.1 ht
  obtain ⟨hmem, hne⟩ := List.mem_filter.1 hp
  refine ⟨?_, ?_⟩
  · intro h
    have : (String.ofList p).toList = [] := by rw [h]; rfl
    simp_all
  · rw [String.toList_ofList]
    exact dot_not_mem_of_mem_pieces hmem

/-- The path that a dotted text names. -/
def ofText (s : String) : Path :=
  ⟨segmentsOf s, proper_segmentsOf s⟩

/-- The dotted text of a path. -/
def toText (p : Path) : String :=
  String.ofList (['.'].intercalate (p.segments.map String.toList))

/-- The path continued by the segments of a text. -/
def child (p : Path) (s : String) : Path :=
  ⟨p.segments ++ segmentsOf s, fun t ht =>
    (List.mem_append.1 ht).elim (p.proper t) (proper_segmentsOf s t)⟩

/-- Whether the path is that of the whole draft. -/
def isRoot (p : Path) : Bool :=
  p.segments.isEmpty

/-- The number of segments. -/
def depth (p : Path) : Nat :=
  p.segments.length

/-- The last segment. -/
def last? (p : Path) : Option String :=
  p.segments.getLast?

/-- The path without its last segment. The root is its own parent. -/
def parent (p : Path) : Path :=
  ⟨p.segments.dropLast, fun t ht => p.proper t (List.dropLast_subset _ ht)⟩

/-- The parents of a path, nearest first, up to the root and at most `n` of them. -/
def ancestors : Nat → Path → List Path
  | 0, _ => []
  | n + 1, p => if p.isRoot then [] else p.parent :: ancestors n p.parent

/-! ## Prefixes -/

/-- Whether `q` is the path itself or one of its ancestors. -/
def startsWith (p q : Path) : Bool :=
  q.segments.isPrefixOf p.segments

/-- Whether one of the two paths leads through the other. -/
def overlaps (p q : Path) : Bool :=
  p.startsWith q || q.startsWith p

/-- The path as seen from `q`, if `q` is the path itself or one of its ancestors. -/
def relativeTo? (p q : Path) : Option Path :=
  if p.startsWith q then
    some ⟨p.segments.drop q.depth, fun t ht => p.proper t (List.mem_of_mem_drop ht)⟩
  else none

/-! ## Order -/

/-- The order of paths: segment by segment, each by code points. -/
def compare (p q : Path) : Ordering :=
  List.compareLex (fun a b => Ord.compare a b) p.segments q.segments

end Path

end Interview
