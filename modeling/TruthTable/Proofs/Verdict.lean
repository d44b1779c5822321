import TruthTable.Proofs.Enumeration
import TruthTable.Query

/-!
# Verdicts are the logical status

The answers of the solver come from rows over the names of the formula alone,
and from as few of them as each question needs. The logical status of a
formula speaks of every assignment that gives its names a value, whatever
else the assignment holds. The two agree.

Main results:

* `forall_covers_iff`                 — a formula without holes has one value
  under every covering assignment exactly when none gives the other.
* `isTautology_eq`, `isContradiction_eq`, `isSatisfiable_eq`, `classify_eq` —
  each question is answered, and by what covering assignments give.
* `query_answers_logical_status`      — the same for the questions as a caller
  asks them, classification with its note included.
-/

namespace TruthTable

/-- The verdict of a survey that has seen at least one row. -/
theorem Verdict.ofSurvey_iff : ∀ holds fails : Bool, (holds = true ∨ fails = true) →
    (ofSurvey holds fails = .tautology ↔ ¬ fails = true) ∧
      (ofSurvey holds fails = .contradiction ↔ ¬ holds = true) ∧
      (ofSurvey holds fails = .contingent ↔ holds = true ∧ fails = true) ∧
      ((ofSurvey holds fails).isSatisfiable = true ↔ holds = true) := by
  decide

namespace Formula

/-- Some assignment with a value for every name gives the formula the value
`b`. -/
def Attains (f : Formula) (b : Bool) : Prop :=
  ∃ a : Assignment, a.Covers f ∧ f.eval a = .ok b

/-- One value under every covering assignment means that none gives the
other. -/
theorem forall_covers_iff {f : Formula} (hf : f.Complete) (b : Bool) :
    (∀ a : Assignment, a.Covers f → f.eval a = .ok b) ↔ ¬ f.Attains (!b) := by
  constructor
  · rintro h ⟨a, hCovers, hValue⟩
    rw [h a hCovers] at hValue
    injection hValue with hValue
    cases b <;> cases hValue
  · intro h a hCovers
    have hValue := eval_of_covers hf hCovers
    rw [hValue]
    by_contra hne
    refine h ⟨a, hCovers, ?_⟩
    rw [hValue]
    -- a truth value that is not `b` is the other one
    cases b <;> cases hOther : f.value a.valuation <;> simp_all

/-- Some covering assignment exists, so one of the two values is attained. -/
theorem attains_or {f : Formula} (hf : f.Complete) : f.Attains true ∨ f.Attains false := by
  have hCovers := Enumeration.covers_get f 0
  have hValue := eval_of_covers hf hCovers
  cases hb : f.value (f.enumeration.get 0).valuation with
  | true => exact .inl ⟨_, hCovers, hb ▸ hValue⟩
  | false => exact .inr ⟨_, hCovers, hb ▸ hValue⟩

-- ---------------------------------------------------------------------------
-- The questions
-- ---------------------------------------------------------------------------

theorem isTautology_eq {f : Formula} (hf : f.Complete) :
    ∃ r, f.isTautology = .ok r ∧ (r = true ↔ ¬ f.Attains false) := by
  obtain ⟨r, hr, hShows⟩ := Enumeration.allFrom_eq (Enumeration.sound_eval hf) 0
  exact ⟨r, hr, by rw [hShows, Enumeration.shows_iff_exists_covers hf]; rfl⟩

theorem isSatisfiable_eq {f : Formula} (hf : f.Complete) :
    ∃ r, f.isSatisfiable = .ok r ∧ (r = true ↔ f.Attains true) := by
  obtain ⟨r, hr, hShows⟩ := Enumeration.anyFrom_eq (Enumeration.sound_eval hf) 0
  exact ⟨r, hr, by rw [hShows, Enumeration.shows_iff_exists_covers hf]; rfl⟩

theorem isContradiction_eq {f : Formula} (hf : f.Complete) :
    ∃ r, f.isContradiction = .ok r ∧ (r = true ↔ ¬ f.Attains true) := by
  obtain ⟨r, hr, hAttains⟩ := isSatisfiable_eq hf
  refine ⟨!r, ?_, ?_⟩
  · unfold isContradiction
    unfold isSatisfiable at hr
    rw [hr]
    rfl
  · rw [← hAttains]
    cases r <;> simp

/-- The status by the values that are attained. -/
theorem classify_eq {f : Formula} (hf : f.Complete) :
    ∃ v, f.classify = .ok v ∧ (v = .tautology ↔ ¬ f.Attains false) ∧
      (v = .contradiction ↔ ¬ f.Attains true) ∧
      (v = .contingent ↔ f.Attains true ∧ f.Attains false) ∧
      (v.isSatisfiable = true ↔ f.Attains true) := by
  obtain ⟨holds, fails, hSurvey, hHolds, hFails⟩ :=
    Enumeration.surveyFrom_eq (Enumeration.sound_eval hf) false false 0
  rw [Enumeration.shows_iff_exists_covers hf] at hHolds hFails
  have hTrue : holds = true ↔ f.Attains true := by simpa [Attains] using hHolds
  have hFalse : fails = true ↔ f.Attains false := by simpa [Attains] using hFails
  have hSome := attains_or hf
  refine ⟨.ofSurvey holds fails, ?_, ?_⟩
  · rw [classify, hSurvey]
    rfl
  · rw [← hTrue, ← hFalse] at hSome ⊢
    exact Verdict.ofSurvey_iff holds fails hSome

/-- Questions that are answered by the same statement have the same answer. -/
theorem answer_congr {x y : Except Fault Bool} {p q : Prop}
    (hx : ∃ r, x = .ok r ∧ (r = true ↔ p)) (hy : ∃ r, y = .ok r ∧ (r = true ↔ q))
    (h : p ↔ q) : x = y := by
  obtain ⟨r, rfl, hr⟩ := hx
  obtain ⟨s, rfl, hs⟩ := hy
  rw [Except.ok.injEq, Bool.eq_iff_iff, hr, hs, h]

/-- The status is told by which of the truth values are attained. -/
theorem classify_eq_ok_iff {f : Formula} (hf : f.Complete) {v : Verdict} :
    f.classify = .ok v ↔ (v = .tautology ↔ ¬ f.Attains false) ∧
      (v = .contradiction ↔ ¬ f.Attains true) := by
  obtain ⟨w, hw, hTautology, hContradiction, -⟩ := classify_eq hf
  rw [hw, Except.ok.injEq, ← hTautology, ← hContradiction]
  constructor
  · rintro rfl
    exact ⟨Iff.rfl, Iff.rfl⟩
  · cases v <;> cases w <;> simp

end Formula

-- ---------------------------------------------------------------------------
-- The questions as a caller asks them
-- ---------------------------------------------------------------------------

/-- Announcing an enumeration leaves the answer as it is. -/
theorem result_announced {α : Type} (question : Formula → Except Fault α) (f : Formula) :
    (announced question (.formula f)).result = question f := by
  simp [announced, Argument.subject]

/-- Noting the status needs the text of the formula, which a formula without
holes has. -/
theorem result_classified {f : Formula} (hf : f.Complete) :
    (classified (.formula f)).result = f.classify := by
  simp only [classified, Argument.subject, Logged.result_bind, Logged.result_lift, ok_bind,
    result_announced, Formula.render_complete hf, Logged.result_note, Logged.result_pure]
  cases f.classify with
  | ok v => rfl
  | error fault => rfl

/--
**Verdicts are the logical status.** On a formula without holes all four
questions are answered. The formula is called a tautology when every
assignment that covers it makes it true, a contradiction when every one makes
it false, satisfiable when some one makes it true; and the classification is
the first, the second or neither of the two universal statements.
-/
theorem query_answers_logical_status (f : Formula) (hf : f.Complete) :
    ∃ (tautology contradiction satisfiable : Bool) (v : Verdict),
      (Query.tautology.answer (.formula f)).result = .ok (.flag tautology) ∧
      (Query.contradiction.answer (.formula f)).result = .ok (.flag contradiction) ∧
      (Query.satisfiable.answer (.formula f)).result = .ok (.flag satisfiable) ∧
      (Query.classify.answer (.formula f)).result = .ok (.verdict v) ∧
      (tautology = true ↔ ∀ a : Assignment, a.Covers f → f.eval a = .ok true) ∧
      (contradiction = true ↔ ∀ a : Assignment, a.Covers f → f.eval a = .ok false) ∧
      (satisfiable = true ↔ ∃ a : Assignment, a.Covers f ∧ f.eval a = .ok true) ∧
      (v = .tautology ↔ ∀ a : Assignment, a.Covers f → f.eval a = .ok true) ∧
      (v = .contradiction ↔ ∀ a : Assignment, a.Covers f → f.eval a = .ok false) ∧
      (v = .contingent ↔ ¬ (∀ a : Assignment, a.Covers f → f.eval a = .ok true) ∧
        ¬ ∀ a : Assignment, a.Covers f → f.eval a = .ok false) ∧
      v.isSatisfiable = satisfiable := by
  obtain ⟨t, hTautology, ht⟩ := Formula.isTautology_eq hf
  obtain ⟨c, hContradiction, hc⟩ := Formula.isContradiction_eq hf
  obtain ⟨s, hSatisfiable, hs⟩ := Formula.isSatisfiable_eq hf
  obtain ⟨v, hClassify, hvt, hvc, hvn, hvs⟩ := Formula.classify_eq hf
  have hAllTrue := Formula.forall_covers_iff hf true
  have hAllFalse := Formula.forall_covers_iff hf false
  rw [Bool.not_true] at hAllTrue
  rw [Bool.not_false] at hAllFalse
  refine ⟨t, c, s, v, ?_, ?_, ?_, ?_, ?_, ?_, hs, ?_, ?_, ?_, ?_⟩
  · simp [Query.answer, result_announced, hTautology]
  · simp [Query.answer, result_announced, hContradiction]
  · simp [Query.answer, result_announced, hSatisfiable]
  · simp [Query.answer, result_classified hf, hClassify]
  · rw [ht, hAllTrue]
  · rw [hc, hAllFalse]
  · rw [hvt, hAllTrue]
  · rw [hvc, hAllFalse]
  · rw [hvn, hAllTrue, hAllFalse, not_not, not_not]
    exact and_comm
  · rw [Bool.eq_iff_iff, hvs, hs]

/-- The excluded middle is called a tautology. -/
theorem query_answers_logical_status_sample :
    let p : Formula := .var ⟨"p", rfl⟩
    let f : Formula := .or p (.not p)
    f.Complete ∧ (Query.tautology.answer (.formula f)).result = .ok (.flag true) ∧
      (Query.classify.answer (.formula f)).result = .ok (.verdict .tautology) := by
  intro p f
  have hf : f.Complete := ⟨trivial, trivial⟩
  have hAll : ∀ a : Assignment, a.Covers f → f.eval a = .ok true := by
    intro a hCovers
    rw [Formula.eval_of_covers hf hCovers]
    simp [f, p, Formula.or, Formula.value]
  obtain ⟨t, c, s, v, hTautology, -, -, hClassify, ht, -, -, hv, -⟩ :=
    query_answers_logical_status f hf
  rw [ht.mpr hAll] at hTautology
  rw [hv.mpr hAll] at hClassify
  exact ⟨hf, hTautology, hClassify⟩

end TruthTable
