import Interview.Proofs.Ending.Questions
import Interview.TwoTier
/-
Two-tier questions alternate between their tiers.

A two-tier question asks for a key and then for an item under that key, and whoever goes back from
the items is asked for a key again. So one asking of it visits the tiers in turn, any number of
times. The visits are written down here with what each tier was made from and what came of it
(`tierVisits`), and they are the whole of what happens: each begins in the session in which the one
before ended (`TakesPlace`).

How the visits follow one another, what they come to, and which key is kept is one relation with a
case for each way in which a round can go (`Rounds`). The promises are read off it, each by an
induction on the rounds. The key that is kept counts beyond the asking, so a question is looked at
with all that it has gone through (`Recalls`).
-/

set_option autoImplicit false

namespace Interview

/-! ## Visits -/

/-- A tier, with what its question is made from. -/
inductive Tier
  /-- The keys, with the key picked last, if any. -/
  | keys (recent : Option Json)
  /-- The items under a key. -/
  | items (key : Json)

/-- A question of a tier, with what came of it. -/
structure TierVisit where
  tier : Tier
  outcome : Outcome (Reply Json)

/-- The question of a tier is made. -/
def Tier.make (keys : Option Json → Session → Question × Session)
    (items : Json → Session → Question × Session) : Tier → Session → Question × Session
  | .keys recent => keys recent
  | .items key => items key

namespace TierVisit

/-- Whether a key was asked for. -/
def asksKey : TierVisit → Bool
  | ⟨.keys _, _⟩ => true
  | ⟨.items _, _⟩ => false

/-- The key whose items were left by going back. -/
def left? : TierVisit → Option Json
  | ⟨.items key, .done .back⟩ => some key
  | _ => none

theorem left?_items_eq_none {key : Json} {o : Outcome (Reply Json)} (h : o ≠ .done .back) :
    left? ⟨.items key, o⟩ = none := by
  unfold left?
  split
  · rename_i heq
    exact absurd (TierVisit.mk.inj heq).2 h
  · rfl

/-- The key to remember after a visit: one whose items were left, or one of whose items was picked. -/
def remembered (before : Option Json) : TierVisit → Option Json
  | ⟨.items key, .done .back⟩ => some key
  | ⟨.items key, .done (.value _)⟩ => some key
  | _ => before

/-- How one visit follows on another: after a key come its items, and whoever goes back from them
is asked for a key with this one as the recent one. -/
def LeadsTo (v v' : TierVisit) : Prop :=
  (∃ recent key, v = ⟨.keys recent, .done (.value key)⟩ ∧ v'.tier = .items key) ∨
    ∃ key, v = ⟨.items key, .done .back⟩ ∧ v'.tier = .keys (some key)

end TierVisit

/-- What happens to a two-tier question that it remembers. -/
inductive TierMoment
  /-- It was restored from an earlier attempt, with this key in its answer. -/
  | restored (key : Option Json)
  /-- A question of one of its tiers was asked. -/
  | visited (v : TierVisit)

/-- The key to remember after a moment. -/
def TierMoment.remembered (before : Option Json) : TierMoment → Option Json
  | restored key => key.or before
  | visited v => v.remembered before

/-- The key that a two-tier question remembers of its past. -/
def TierMoment.remembers (ms : List TierMoment) : Option Json :=
  ms.foldl TierMoment.remembered none

section

variable {keys : Option Json → Session → Question × Session}
  {items : Json → Session → Question × Session} {steps : Option (Nat × Nat)}
  {recent kept : Option Json} {own : List TierVisit} {o : Outcome (Reply Json)}
  {w w' w'' : Session}

/-- The visits of the tiers while a two-tier question is asked, first one first. -/
def tierVisits : Nat → (Option Json → Session → Question × Session) →
    (Json → Session → Question × Session) → Option Json → Option (Nat × Nat) → Session →
    List TierVisit
  | 0, _, _, _, _, _ => []
  | n + 1, keys, items, recent, steps, w =>
    let first := askTier (keys recent) steps n w
    ⟨.keys recent, first.1⟩ ::
      match first.1 with
      | .done (.value key) =>
        let second := askTier (items key) steps n first.2
        ⟨.items key, second.1⟩ ::
          match second.1 with
          | .done .back => tierVisits n keys items (some key) steps second.2
          | _ => []
      | _ => []

/-- The visits of the tiers while a question is asked, if it has tiers. -/
def Question.tierVisits : Nat → Question → Session → List TierVisit
  | n + 1, .twoTier keys items recent steps, w => Interview.tierVisits n keys items recent steps w
  | _, _, _ => []

/-- Visits take place: each question is made, told of its place, asked and let go, in the session
that the visit before has left. -/
inductive TakesPlace (keys : Option Json → Session → Question × Session)
    (items : Json → Session → Question × Session) (steps : Option (Nat × Nat)) :
    Session → List TierVisit → Session → Prop
  | nil (w : Session) : TakesPlace keys items steps w [] w
  | next {n : Nat} {w w' w'' : Session} {t : Tier} {o : Outcome (Reply Json)} {vs : List TierVisit}
      (asked : askTier (t.make keys items) steps n w = (o, w'))
      (rest : TakesPlace keys items steps w' vs w'') : TakesPlace keys items steps w (⟨t, o⟩ :: vs) w''

/-! ## Rounds -/

/-- **The rounds of a two-tier question**, from the key that it remembers at first to the one that it
keeps. -/
inductive Rounds : Option Json → List TierVisit → Outcome (Reply Json) → Option Json → Prop
  /-- The turns did not suffice for another round. -/
  | cut (recent : Option Json) : Rounds recent [] .exhausted recent
  /-- No key was picked. -/
  | unpicked {recent : Option Json} {o : Outcome (Reply Json)} (outcome : ∀ v, o ≠ .done (.value v)) :
      Rounds recent [⟨.keys recent, o⟩] o recent
  /-- An item was picked. -/
  | picked (recent : Option Json) (key item : Json) :
      Rounds recent [⟨.keys recent, .done (.value key)⟩, ⟨.items key, .done (.value item)⟩]
        (.done (.value (choiceAnswer key item))) (some key)
  /-- The items were neither answered nor left by going back. -/
  | ended {recent : Option Json} {key : Json} {o : Outcome (Reply Json)}
      (outcome : ∀ v, o ≠ .done (.value v)) (back : o ≠ .done .back) :
      Rounds recent [⟨.keys recent, .done (.value key)⟩, ⟨.items key, o⟩] o recent
  /-- The items were left by going back, and there is another round. -/
  | again {recent kept : Option Json} {key : Json} {own : List TierVisit} {o : Outcome (Reply Json)}
      (rest : Rounds (some key) own o kept) :
      Rounds recent (⟨.keys recent, .done (.value key)⟩ :: ⟨.items key, .done .back⟩ :: own) o kept

/-- **Asking the two tiers is one round after the other**, and nothing but its visits takes place. -/
theorem rounds_tierVisits (n : Nat) (keys : Option Json → Session → Question × Session)
    (items : Json → Session → Question × Session) (recent : Option Json)
    (steps : Option (Nat × Nat)) (w : Session) :
    Rounds recent (tierVisits n keys items recent steps w) (askTiers n keys items recent steps w).1
        (askTiers n keys items recent steps w).2.1 ∧
      TakesPlace keys items steps w (tierVisits n keys items recent steps w)
        (askTiers n keys items recent steps w).2.2 := by
  induction n generalizing recent w with
  | zero => exact ⟨.cut recent, .nil w⟩
  | succ n ih =>
    rw [askTiers_succ, tierVisits]
    rcases hfirst : askTier (keys recent) steps n w with ⟨o₁, w₁⟩
    have hkeys : askTier ((Tier.keys recent).make keys items) steps n w = (o₁, w₁) := hfirst
    rcases o₁ with (key | _ | _) | e | _ | _
    · -- a key was picked, and its items are asked for
      rcases hsecond : askTier (items key) steps n w₁ with ⟨o₂, w₂⟩
      have hitems : askTier ((Tier.items key).make keys items) steps n w₁ = (o₂, w₂) := hsecond
      simp only [hsecond]
      rcases o₂ with (item | _ | _) | e | _ | _
      · exact ⟨.picked recent key item, .next hkeys (.next hitems (.nil w₂))⟩
      · obtain ⟨hrounds, hplace⟩ := ih (some key) w₂
        exact ⟨.again hrounds, .next hkeys (.next hitems hplace)⟩
      all_goals exact ⟨.ended (by simp) (by simp), .next hkeys (.next hitems (.nil w₂))⟩
    all_goals exact ⟨.unpicked (by simp), .next hkeys (.nil w₁)⟩

/-- A first element that is not this one does not make it the last. -/
theorem getLast?_cons_of_ne {α : Type} {a x : α} {xs : List α} (h : a ≠ x) :
    (a :: xs).getLast? = some x ↔ xs.getLast? = some x := by
  cases xs with
  | nil => simp [h]
  | cons => rw [List.getLast?_cons_cons]

namespace Rounds

theorem first (h : Rounds recent own o kept) (hcut : o ≠ .exhausted) :
    ∃ o' rest, own = ⟨.keys recent, o'⟩ :: rest := by
  cases h with
  | cut => exact absurd rfl hcut
  | unpicked | picked | ended | again => exact ⟨_, _, rfl⟩

/-- Whatever comes first is asked for a key with the recent one. -/
theorem tier_of_mem_head? (h : Rounds recent own o kept) :
    ∀ v ∈ own.head?, v.tier = .keys recent := by
  cases h with
  | cut => exact fun v hv => absurd hv (by simp)
  | unpicked | picked | ended | again =>
    intro v hv
    rw [List.head?_cons, Option.mem_some_iff] at hv
    rw [← hv]

/-- **Each visit follows on the one before.** -/
theorem chain (h : Rounds recent own o kept) : own.IsChain TierVisit.LeadsTo := by
  have hitems : ∀ (recent : Option Json) (key : Json) (o : Outcome (Reply Json)),
      TierVisit.LeadsTo ⟨.keys recent, .done (.value key)⟩ ⟨.items key, o⟩ :=
    fun recent key _ => Or.inl ⟨recent, key, rfl, rfl⟩
  induction h with
  | cut => exact .nil
  | unpicked => exact .singleton _
  | picked recent key item => exact .cons_cons (hitems recent key _) (.singleton _)
  | @ended recent key o => exact .cons_cons (hitems recent key o) (.singleton _)
  | @again recent kept key own o rest ih =>
    refine .cons_cons (hitems recent key _) (ih.cons fun v hv => ?_)
    exact Or.inr ⟨key, rfl, rest.tier_of_mem_head? v hv⟩

/-- The rounds do not end with going back from the items. -/
theorem ne_left (h : Rounds recent own o kept) (hcut : o ≠ .exhausted) (key : Json) :
    own.getLast? ≠ some ⟨.items key, .done .back⟩ := by
  induction h with
  | cut => exact absurd rfl hcut
  | unpicked => simp
  | picked => simp
  | ended _ hback => simp [hback]
  | @again recent kept key' own o rest ih =>
    obtain ⟨o', more, rfl⟩ := rest.first hcut
    rw [List.getLast?_cons_cons, List.getLast?_cons_cons]
    exact ih hcut

/-- **What is answered** is an item that was picked last, under the key that was picked right before
and that its question was made from. -/
theorem answer_iff (h : Rounds recent own o kept) (v : Json) :
    o = .done (.value v) ↔ ∃ recent key item,
      [⟨.keys recent, .done (.value key)⟩, ⟨.items key, .done (.value item)⟩] <:+ own ∧
        v = choiceAnswer key item := by
  induction h with
  | cut => simp
  | unpicked hvalue => exact ⟨fun ho => absurd ho (hvalue v), by simp [List.suffix_cons_iff]⟩
  | picked recent key item =>
    constructor
    · intro ho
      exact ⟨recent, key, item, List.suffix_rfl, by simpa using ho.symm⟩
    · rintro ⟨recent', key', item', hlast, rfl⟩
      obtain ⟨⟨-, rfl⟩, -, rfl⟩ : (recent' = recent ∧ key' = key) ∧ key' = key ∧ item' = item := by
        simpa [List.suffix_cons_iff] using hlast
      rfl
  | ended hvalue _ =>
    constructor
    · exact fun ho => absurd ho (hvalue v)
    · rintro ⟨recent', key', item', hlast, -⟩
      have heq := hlast.eq_of_length rfl
      simp only [List.cons.injEq, TierVisit.mk.injEq] at heq
      exact absurd heq.2.1.2.symm (hvalue item')
  | again _ ih =>
    rw [ih]
    refine exists_congr fun recent' => exists_congr fun key' => exists_congr fun item' =>
      and_congr_left' ?_
    simp [List.suffix_cons_iff]

/-- **Whoever goes back from the keys goes back**, and nobody else does. -/
theorem back_iff (h : Rounds recent own o kept) : o = .done .back ↔
    ((own.filter TierVisit.asksKey).map TierVisit.outcome).getLast? = some (.done .back) := by
  induction h with
  | cut => simp
  | unpicked => simp [TierVisit.asksKey]
  | picked => simp [TierVisit.asksKey]
  | ended _ hback => simp [TierVisit.asksKey, hback]
  | again _ ih =>
    rw [ih, List.filter_cons_of_pos rfl, List.filter_cons_of_neg (by simp [TierVisit.asksKey]),
      List.map_cons, getLast?_cons_of_ne (by simp)]

/-- **Whoever leaves a tier leaves.** -/
theorem cancel_iff (h : Rounds recent own o kept) :
    o = .done .cancel ↔ (own.map TierVisit.outcome).getLast? = some (.done .cancel) := by
  induction h with
  | cut => simp
  | unpicked => simp
  | picked => simp
  | ended => simp
  | again _ ih =>
    rw [ih, List.map_cons, List.map_cons, getLast?_cons_of_ne (by simp),
      getLast?_cons_of_ne (by simp)]

/-- **A tier that fails is the only failure.** -/
theorem failed_iff (h : Rounds recent own o kept) (e : RunError) :
    o = .failed e ↔ ∃ v ∈ own, v.outcome = .failed e := by
  induction h with
  | cut => simp
  | unpicked => simp
  | picked => simp
  | ended => simp
  | again _ ih => simp [ih]

/-- **Whoever goes back from the items is asked for a key again.** -/
theorem reopens (h : Rounds recent own o kept) (hcut : o ≠ .exhausted) {before after : List TierVisit}
    {key : Json} (hown : own = before ++ ⟨.items key, .done .back⟩ :: after) :
    ∃ o' rest, after = ⟨.keys (some key), o'⟩ :: rest := by
  have hchain := h.chain
  rcases after with _ | ⟨⟨tier, o'⟩, rest⟩
  · -- the last visit is none of the items that were left
    refine absurd ?_ (h.ne_left hcut key)
    rw [hown, List.getLast?_append]
    rfl
  · rw [hown, List.isChain_append_cons_cons] at hchain
    rcases hchain.2.1 with ⟨_, _, hv, -⟩ | ⟨key', hv, rfl⟩
    · exact absurd hv (by simp)
    · obtain rfl : key = key' := by simpa using hv
      exact ⟨o', rest, rfl⟩

/-- **One question for a key, and one more each time the items are left by going back.** -/
theorem countP_asksKey (h : Rounds recent own o kept) (hcut : o ≠ .exhausted) :
    own.countP TierVisit.asksKey = (own.filterMap TierVisit.left?).length + 1 := by
  induction h with
  | cut => exact absurd rfl hcut
  | unpicked => rfl
  | picked => rfl
  | @ended recent key o _ hback =>
    rw [List.filterMap_cons_none rfl, List.filterMap_cons_none (TierVisit.left?_items_eq_none hback)]
    rfl
  | again _ ih =>
    rw [List.countP_cons_of_pos rfl, List.countP_cons_of_neg (by simp [TierVisit.asksKey]), ih hcut,
      List.filterMap_cons_none rfl]
    rfl

/-- **The key that is kept** is the one to remember after all the visits. -/
theorem kept_eq (h : Rounds recent own o kept) : kept = own.foldl TierVisit.remembered recent := by
  induction h with
  | cut => rfl
  | unpicked => rfl
  | picked => rfl
  | @ended recent key o hvalue hback =>
    show recent = TierVisit.remembered recent ⟨.items key, o⟩
    unfold TierVisit.remembered
    split
    · rename_i heq
      exact absurd (TierVisit.mk.inj heq).2 hback
    · rename_i heq
      exact absurd (TierVisit.mk.inj heq).2 (hvalue _)
    · rfl
  | again _ ih => exact ih

/-- **Without an answer** the key that is kept is the one whose items were left last, and the one
from before if none were left. -/
theorem kept_eq_left (h : Rounds recent own o kept) (hvalue : ∀ v, o ≠ .done (.value v)) :
    kept = (own.filterMap TierVisit.left?).getLast?.or recent := by
  induction h with
  | cut => rfl
  | unpicked => rfl
  | picked => exact absurd rfl (hvalue _)
  | ended _ hback =>
    rw [List.filterMap_cons_none rfl, List.filterMap_cons_none (TierVisit.left?_items_eq_none hback)]
    rfl
  | @again recent kept key own o rest ih =>
    have hleft : TierVisit.left? ⟨.items key, .done .back⟩ = some key := rfl
    rw [ih hvalue, List.filterMap_cons_none rfl, List.filterMap_cons_some hleft, List.getLast?_cons,
      Option.or_some]
    rfl

end Rounds

end

/-! ## Questions with a past -/

section

variable {keys : Option Json → Session → Question × Session}
  {items : Json → Session → Question × Session} {q : Question} {past : List TierMoment}

/-- **A two-tier question with what it has gone through.** It was made with nothing to remember, and
then told of attempts and of its place, copied, asked and disposed, in any order. -/
inductive Recalls (keys : Option Json → Session → Question × Session)
    (items : Json → Session → Question × Session) : Question → List TierMoment → Prop
  | made : Recalls keys items (.twoTier keys items none none) []
  | restored {q : Question} {past : List TierMoment} (h : Recalls keys items q past)
      (a : Attempt Json) (w : Session) :
      Recalls keys items (q.restore a w).1 (past ++ [.restored (a.value.member? "key")])
  | placed {q : Question} {past : List TierMoment} (h : Recalls keys items q past)
      (current total : Nat) (w : Session) : Recalls keys items (q.place current total w).1 past
  | copied {q : Question} {past : List TierMoment} (h : Recalls keys items q past) (w : Session) :
      Recalls keys items (q.copy w).1 past
  | asked {q : Question} {past : List TierMoment} (h : Recalls keys items q past) (n : Nat)
      (w : Session) :
      Recalls keys items (q.ask n w).2.1 (past ++ (q.tierVisits n w).map .visited)
  | disposed {q : Question} {past : List TierMoment} (h : Recalls keys items q past) (w : Session) :
      Recalls keys items (q.dispose w).1 past

/-- A two-tier question is asked in rounds, from the key that it remembers. -/
theorem rounds_ask (n : Nat) (recent : Option Json) (steps : Option (Nat × Nat)) (w : Session) :
    let q := Question.twoTier keys items recent steps
    ∃ kept, Rounds recent (q.tierVisits n w) (q.ask n w).1 kept ∧
      (q.ask n w).2.1 = .twoTier keys items kept steps ∧
      TakesPlace keys items steps w (q.tierVisits n w) (q.ask n w).2.2 := by
  rcases n with _ | n
  · exact ⟨recent, .cut recent, rfl, .nil w⟩
  · obtain ⟨hrounds, hplace⟩ := rounds_tierVisits n keys items recent steps w
    exact ⟨_, hrounds, rfl, hplace⟩

theorem remembers_append (past : List TierMoment) (own : List TierVisit) :
    TierMoment.remembers (past ++ own.map .visited) =
      own.foldl TierVisit.remembered (TierMoment.remembers past) := by
  rw [TierMoment.remembers, List.foldl_append, List.foldl_map]
  rfl

theorem remembers_restored (past : List TierMoment) (key : Option Json) :
    TierMoment.remembers (past ++ [.restored key]) = key.or (TierMoment.remembers past) := by
  rw [TierMoment.remembers, List.foldl_append]
  rfl

/-- **It holds the key that it is to remember**, and is otherwise as it was made. -/
theorem Recalls.eq_twoTier (h : Recalls keys items q past) :
    ∃ steps, q = .twoTier keys items (TierMoment.remembers past) steps := by
  induction h with
  | made => exact ⟨none, rfl⟩
  | restored _ a w ih =>
    obtain ⟨steps, rfl⟩ := ih
    exact ⟨steps, by rw [remembers_restored]; rfl⟩
  | placed _ current total w ih =>
    obtain ⟨steps, rfl⟩ := ih
    exact ⟨some (current, total), rfl⟩
  | copied _ w ih =>
    obtain ⟨steps, rfl⟩ := ih
    exact ⟨steps, rfl⟩
  | asked _ n w ih =>
    obtain ⟨steps, rfl⟩ := ih
    obtain ⟨kept, hrounds, hq, -⟩ :=
      @rounds_ask keys items n (TierMoment.remembers _) steps w
    refine ⟨steps, ?_⟩
    rw [hq, remembers_append, ← hrounds.kept_eq]
  | disposed _ w ih =>
    obtain ⟨steps, rfl⟩ := ih
    exact ⟨steps, rfl⟩

/-- **The tiers of a question alternate** while it is asked: what there is of the visits, of what is
answered, and of the key to remember. -/
structure Alternates (keys : Option Json → Session → Question × Session)
    (items : Json → Session → Question × Session) (past : List TierMoment) (own : List TierVisit)
    (o : Outcome (Reply Json)) (q : Question) (w w' : Session) : Prop where
  /-- The visits are all that happens. -/
  takesPlace : ∃ steps, TakesPlace keys items steps w own w'
  /-- The first question is for a key, with the one that is remembered as the recent one. -/
  first : o ≠ .exhausted → ∃ o' rest, own = ⟨.keys (TierMoment.remembers past), o'⟩ :: rest
  /-- Each visit follows on the one before. -/
  chain : own.IsChain TierVisit.LeadsTo
  /-- The answer has the key that was picked last, and the item that was then picked under it. -/
  answered : ∀ v, o = .done (.value v) ↔ ∃ recent key item,
    [⟨.keys recent, .done (.value key)⟩, ⟨.items key, .done (.value item)⟩] <:+ own ∧
      v = choiceAnswer key item
  /-- It goes back exactly if the last question for a key does. -/
  back : o = .done .back ↔
    ((own.filter TierVisit.asksKey).map TierVisit.outcome).getLast? = some (.done .back)
  /-- It is left exactly if the last question of all is. -/
  cancelled : o = .done .cancel ↔ (own.map TierVisit.outcome).getLast? = some (.done .cancel)
  /-- It fails exactly if one of the questions does, and in the same way. -/
  failed : ∀ e, o = .failed e ↔ ∃ v ∈ own, v.outcome = .failed e
  /-- Going back from the items asks for a key again, with the one just left as the recent one. -/
  reopens : o ≠ .exhausted → ∀ before key after, own = before ++ ⟨.items key, .done .back⟩ :: after →
    ∃ o' rest, after = ⟨.keys (some key), o'⟩ :: rest
  /-- There is one question for a key, and one more each time the items are left by going back. -/
  count : o ≠ .exhausted →
    own.countP TierVisit.asksKey = (own.filterMap TierVisit.left?).length + 1
  /-- The key to remember afterwards is the one to remember of the past and of these visits. -/
  remembers : ∃ steps, q = .twoTier keys items
    (TierMoment.remembers (past ++ own.map .visited)) steps
  /-- Without an answer, that is the key whose items were left last, or else the one from before. -/
  kept : (∀ v, o ≠ .done (.value v)) → TierMoment.remembers (past ++ own.map .visited) =
    (own.filterMap TierVisit.left?).getLast?.or (TierMoment.remembers past)

/-- **The tiers of a question alternate**, whatever the questions of its tiers are and come to, and
whatever it has gone through before. -/
theorem alternates_of_ask (h : Recalls keys items q past) (n : Nat) (w : Session) :
    Alternates keys items past (q.tierVisits n w) (q.ask n w).1 (q.ask n w).2.1 w
      (q.ask n w).2.2 := by
  obtain ⟨steps, rfl⟩ := h.eq_twoTier
  obtain ⟨kept, hrounds, hq, hplace⟩ :=
    @rounds_ask keys items n (TierMoment.remembers past) steps w
  have hkept := hrounds.kept_eq
  rw [← remembers_append] at hkept
  exact {
    takesPlace := ⟨steps, hplace⟩
    first := hrounds.first
    chain := hrounds.chain
    answered := hrounds.answer_iff
    back := hrounds.back_iff
    cancelled := hrounds.cancel_iff
    failed := hrounds.failed_iff
    reopens := fun hcut before key after hown => hrounds.reopens hcut hown
    count := hrounds.countP_asksKey
    remembers := ⟨steps, by rw [hq, ← hkept]⟩
    kept := fun hvalue => by rw [← hkept, hrounds.kept_eq_left hvalue] }

/-- A tier that is answered from a deck, whatever it is made from. -/
def deckTier {α : Type} (id : Nat) (_ : α) (w : Session) : Question × Session :=
  (.deck id 0 false, w)

/-- The region of an earlier attempt is on offer at first, and the region that was left after that. -/
theorem alternates_of_deckTier :
    let replies (script : List (Reply Json)) := Deck.new "" (.shaped .anything) script
    let w := { Session.new (.rehearsal []) with
      decks := [replies [.value (.text "us"), .value (.text "eu")],
        replies [.back, .value (.text "api")]] }
    let q := ((Question.twoTier (deckTier 0) (deckTier 1) none none).restore
      ⟨choiceAnswer (.text "ap") (.text "db"), none⟩ w).1
    let own : List TierVisit := [⟨.keys (some (.text "ap")), .done (.value (.text "us"))⟩,
      ⟨.items (.text "us"), .done .back⟩, ⟨.keys (some (.text "us")), .done (.value (.text "eu"))⟩,
      ⟨.items (.text "eu"), .done (.value (.text "api"))⟩]
    q.tierVisits 4 w = own ∧
      Alternates (deckTier 0) (deckTier 1) [.restored (some (.text "ap"))] own (q.ask 4 w).1
        (q.ask 4 w).2.1 w (q.ask 4 w).2.2 ∧
      (q.ask 4 w).1 = .done (.value (choiceAnswer (.text "eu") (.text "api"))) := by
  intro replies w q own
  have hown : q.tierVisits 4 w = own := rfl
  have hrecalls : Recalls (deckTier 0) (deckTier 1) q ([] ++ [.restored (some (.text "ap"))]) :=
    .restored .made _ w
  have halternates := alternates_of_ask hrecalls 4 w
  rw [hown] at halternates
  exact ⟨hown, halternates, rfl⟩

end

end Interview
