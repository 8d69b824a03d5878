import Interview.Proofs.Run.Moves
/-
How an outcome is settled.

When the question of a step has come to an outcome, the run goes on or ends, and the observer is told
of it. `Run.Settles` lists the ways in which that happens, one constructor for each, with what is
told and where it leads. Nothing else happens to the session than that: collaborators may leave
notes, and then the observer is told.
-/

set_option autoImplicit false

namespace Interview

variable {o : Options}

/-- The session in which an observer was told some things. -/
def Session.reportAll (o : Options) (told : List Report) (w : Session) : Session :=
  w.emit (told.flatMap o.observer.entries)

theorem Session.reportAll_singleton (o : Options) (r : Report) (w : Session) :
    w.reportAll o [r] = w.report o r := by
  rw [reportAll, List.flatMap_singleton]
  rfl

/-- The check of the field never answers, for an answer as it is stored and a draft. -/
def Field.HangsOn (f : Field) (v : Json) (d : Draft) : Prop :=
  ∃ check answer, f.check = some check ∧ f.type.decode? v = some answer ∧
    (check answer d).delay.isNever = true

/-- **What settling an outcome tells**, and where it leads. -/
inductive Run.Settles (o : Options) (form : Form) (r : Run) (i : Nat) (f : Field) :
    Outcome (Reply Json) → List Report → Course → Prop
  | answered {v j : Json} {r' : Run} (accepted : r.accept i f.path j = .ok r') :
    Settles o form r i f (.done (.value v)) [.answered f.path] (.goesOn r')
  | rejected {v j : Json} {message : String} (check : f.check.isSome = true) :
    Settles o form r i f (.done (.value v)) [.rejected f.path message]
      (.goesOn (r.reject i j message))
  | unstored {v : Json} {e : RunError} (cause : (∃ d, e = .draft d) ∨ ∃ c, e = .collaborator c) :
    Settles o form r i f (.done (.value v)) [] (.ends (.failed e))
  /-- The check never answers. -/
  | waits {v j : Json} (encoded : f.type.encode v = .ok j) (hangs : f.HangsOn j r.draft) :
    Settles o form r i f (.done (.value v)) [] (.ends .suspended)
  | back {e : Nat} {r' : Run} (lands : r.landing? i = some e)
    (back : r.goBack o.policy form e (((form.fields[e]?).map Field.path).getD .root) = .ok r') :
    Settles o form r i f (.done .back)
      [.back f.path (some (((form.fields[e]?).map Field.path).getD .root))] (.goesOn r')
  | stuck {e : Nat} {d : DraftError} (lands : r.landing? i = some e) :
    Settles o form r i f (.done .back)
      [.back f.path (some (((form.fields[e]?).map Field.path).getD .root))]
      (.ends (.failed (.draft d)))
  | left (lands : r.landing? i = none) :
    Settles o form r i f (.done .back) [.back f.path none] (.ends (.done .back))
  | cancelled : Settles o form r i f (.done .cancel) [.cancelled f.path] (.ends (.done .cancelled))
  | failed (e : RunError) : Settles o form r i f (.failed e) [] (.ends (.failed e))
  | suspended : Settles o form r i f .suspended [] (.ends .suspended)
  | exhausted : Settles o form r i f .exhausted [] (.ends .exhausted)

/-- Weighing an answer leaves notes and nothing else, and fails in these ways only. It waits for ever
only at a check that does not answer. -/
theorem weigh_cases (f : Field) (v : Json) (d : Draft) (w : Session) :
    ∃ notes : List Note, (weigh f v d w).2 = w.emit (notes.map Entry.noted) ∧
      (∀ e, (weigh f v d w).1 = .failed e → (∃ d, e = .draft d) ∨ ∃ c, e = .collaborator c) ∧
      ((weigh f v d w).1 = .suspended → f.HangsOn v d) := by
  unfold weigh
  split
  · exact ⟨[], rfl, fun e he => absurd he (by simp), fun h => absurd h (by simp)⟩
  · rename_i check hcheck
    split
    · exact ⟨[], rfl, fun e he => Or.inl ⟨_, (Weighed.failed.inj he).symm⟩,
        fun h => absurd h (by simp)⟩
    · rename_i answer hanswer
      refine ⟨(check answer d).notes, ?_⟩
      simp only
      split
      · rename_i hnever
        exact ⟨rfl, fun e he => absurd he (by simp),
          fun _ => ⟨check, answer, hcheck, hanswer, hnever⟩⟩
      · split
        · exact ⟨rfl, fun e he => Or.inr ⟨_, (Weighed.failed.inj he).symm⟩,
            fun h => absurd h (by simp)⟩
        · exact ⟨rfl, fun e he => absurd he (by simp), fun h => absurd h (by simp)⟩
        · exact ⟨rfl, fun e he => absurd he (by simp), fun h => absurd h (by simp)⟩

/-- **Every outcome is settled in one of these ways**, and beside it only notes are left. -/
theorem Run.settles_settle (o : Options) (form : Form) (r : Run) (i : Nat) (f : Field)
    (out : Outcome (Reply Json)) (w : Session) :
    ∃ (notes : List Note) (told : List Report),
      (r.settle o form i f out w).2 = (w.emit (notes.map Entry.noted)).reportAll o told ∧
      Settles o form r i f out told (r.settle o form i f out w).1 := by
  rcases out with (v | _ | _) | e | _ | _
  · rw [settle, settleAnswer]
    split
    · exact ⟨[], [], rfl, .unstored (Or.inl ⟨_, rfl⟩)⟩
    · rename_i j hencoded
      obtain ⟨notes, hnotes, hfailed, hsuspended⟩ := weigh_cases f j r.draft w
      refine ⟨notes, ?_⟩
      split
      · rename_i e w' heq
        rw [heq] at hnotes hfailed
        exact ⟨[], hnotes, .unstored (hfailed e rfl)⟩
      · rename_i w' heq
        rw [heq] at hnotes hsuspended
        exact ⟨[], hnotes, .waits hencoded (hsuspended rfl)⟩
      · rename_i message w' heq
        rw [heq] at hnotes
        refine ⟨[.rejected f.path message], ?_, .rejected (isSome_check_of_weigh heq)⟩
        rw [Session.reportAll_singleton, ← hnotes]
      · rename_i w' heq
        rw [heq] at hnotes
        split
        · exact ⟨[], hnotes, .unstored (Or.inl ⟨_, rfl⟩)⟩
        · rename_i r' haccept
          refine ⟨[.answered f.path], ?_, .answered haccept⟩
          rw [Session.reportAll_singleton, ← hnotes]
  · refine ⟨[], ?_⟩
    rw [settle, settleBack]
    split
    · rename_i hlands
      exact ⟨_, (Session.reportAll_singleton o _ w).symm, .left hlands⟩
    · rename_i e hlands
      simp only
      split
      · exact ⟨_, (Session.reportAll_singleton o _ w).symm, .stuck hlands⟩
      · rename_i r' hback
        exact ⟨_, (Session.reportAll_singleton o _ w).symm, .back hlands hback⟩
  · exact ⟨[], _, (Session.reportAll_singleton o _ w).symm, .cancelled⟩
  · exact ⟨[], [], rfl, .failed e⟩
  · exact ⟨[], [], rfl, .suspended⟩
  · exact ⟨[], [], rfl, .exhausted⟩

end Interview
