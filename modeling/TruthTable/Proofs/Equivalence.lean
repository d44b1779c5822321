import TruthTable.Proofs.Surface
import TruthTable.Proofs.Verdict

/-!
# Equivalence across different names

Two formulas are compared by asking whether one rewritten formula, their
equivalence, is a tautology. The rows of that question range over the names of
both formulas, so three comparisons of three formulas range over three
different sets of names. What they decide does not depend on these sets: it is
agreement under every choice of values for all names there are.

Main results:

* `exists_covers`    — every choice of values is taken by a covering assignment,
  so a name that one formula lacks can be given any value.
* `agrees_iff_eval`  — agreement under every choice of values is agreement under
  every assignment that covers both formulas.
* `equivalent_eq`    — the comparison returns, and tells whether they agree.
* `equivalent_decides_meaning` — with that, it is an equivalence relation and
  respects negation and all connectives.
-/

namespace TruthTable

namespace Formula

-- ---------------------------------------------------------------------------
-- Agreement
-- ---------------------------------------------------------------------------

/-- The same truth value under every choice of values. -/
def Agrees (f g : Formula) : Prop :=
  ∀ v : Name → Bool, f.value v = g.value v

theorem Agrees.not {f f' : Formula} (h : f.Agrees f') : (Formula.not f).Agrees (.not f') := by
  intro v
  rw [value, value, h v]

/-- Agreement is kept by every connective, since its value is a function of
the values of its operands. -/
theorem Agrees.apply {f f' g g' : Formula} (hf : f.Agrees f') (hg : g.Agrees g')
    (c : Connective) : (c.apply f g).Agrees (c.apply f' g') := by
  intro v
  rw [Connective.value_apply, Connective.value_apply, hf v, hg v]

/-- Every choice of values is taken by an assignment that covers the formula. -/
theorem exists_covers (f : Formula) (v : Name → Bool) :
    ∃ a : Assignment, a.Covers f ∧ ∀ n ∈ f.leaves, a.valuation n = v n := by
  obtain ⟨k, -, hRow⟩ := f.enumeration.exists_get v
  refine ⟨f.enumeration.get k, Enumeration.covers_get f k, ?_⟩
  intro n hn
  rw [Assignment.valuation, hRow n (mem_names.mpr hn)]
  rfl

theorem covers_apply_iff {a : Assignment} {f g : Formula} (c : Connective) :
    a.Covers (c.apply f g) ↔ a.Covers f ∧ a.Covers g := by
  simp only [Assignment.Covers, mem_names, Connective.mem_leaves_apply]
  constructor
  · intro h
    exact ⟨fun n hn => h n (.inl hn), fun n hn => h n (.inr hn)⟩
  · rintro ⟨hf, hg⟩ n (hn | hn)
    · exact hf n hn
    · exact hg n hn

/-- Agreement shows on the assignments that cover both formulas. -/
theorem agrees_iff_eval {f g : Formula} (hf : f.Complete) (hg : g.Complete) :
    f.Agrees g ↔ ∀ a : Assignment, a.Covers f → a.Covers g → f.eval a = g.eval a := by
  constructor
  · intro h a hCoversF hCoversG
    rw [eval_of_covers hf hCoversF, eval_of_covers hg hCoversG, h]
  · intro h v
    -- one assignment that covers both formulas takes the chosen values
    obtain ⟨a, hCovers, hValues⟩ := (f.iff g).exists_covers v
    obtain ⟨hCoversF, hCoversG⟩ := (covers_apply_iff .iff).mp hCovers
    have hEval := h a hCoversF hCoversG
    rw [eval_of_covers hf hCoversF, eval_of_covers hg hCoversG] at hEval
    injection hEval with hValue
    have hLeft : f.value a.valuation = f.value v :=
      value_congr fun n hn => hValues n ((Connective.mem_leaves_apply .iff f g n).mpr (.inl hn))
    have hRight : g.value a.valuation = g.value v :=
      value_congr fun n hn => hValues n ((Connective.mem_leaves_apply .iff f g n).mpr (.inr hn))
    rw [← hLeft, ← hRight, hValue]

/-- A value is attained exactly when some choice of values gives it. -/
theorem attains_iff_value {f : Formula} (hf : f.Complete) (b : Bool) :
    f.Attains b ↔ ∃ v : Name → Bool, f.value v = b := by
  constructor
  · rintro ⟨a, hCovers, hEval⟩
    rw [eval_of_covers hf hCovers] at hEval
    injection hEval with hValue
    exact ⟨a.valuation, hValue⟩
  · rintro ⟨v, hValue⟩
    obtain ⟨a, hCovers, hValues⟩ := f.exists_covers v
    refine ⟨a, hCovers, ?_⟩
    rw [eval_of_covers hf hCovers, value_congr hValues, hValue]

-- ---------------------------------------------------------------------------
-- The comparison
-- ---------------------------------------------------------------------------

/-- Comparing formulas asks whether their equivalence is a tautology. -/
theorem result_equivalent (f g : Formula) :
    (equivalent (.formula f) (.formula g)).result = (f.iff g).isTautology := by
  simp [equivalent, Argument.subject, result_announced]

/-- The comparison returns, and tells whether the formulas agree. -/
theorem equivalent_eq {f g : Formula} (hf : f.Complete) (hg : g.Complete) :
    ∃ b, (equivalent (.formula f) (.formula g)).result = .ok b ∧ (b = true ↔ f.Agrees g) := by
  have hIff : (Connective.iff.apply f g).Complete := Connective.complete_apply hf hg
  obtain ⟨b, hResult, hAttains⟩ := isTautology_eq hIff
  refine ⟨b, by rw [result_equivalent]; exact hResult, ?_⟩
  rw [hAttains, attains_iff_value hIff, not_exists]
  refine forall_congr' fun v => ?_
  rw [Connective.value_apply, Connective.truth]
  simp

/-- The comparison calls the formulas equivalent. -/
def Matches (f g : Formula) : Prop :=
  (equivalent (.formula f) (.formula g)).result = .ok true

theorem matches_iff_agrees {f g : Formula} (hf : f.Complete) (hg : g.Complete) :
    f.Matches g ↔ f.Agrees g := by
  obtain ⟨b, hResult, hAgrees⟩ := equivalent_eq hf hg
  rw [Matches, hResult, ← hAgrees]
  simp

end Formula

/--
**The comparison decides equivalence of meaning.** On formulas without holes it
returns, and says yes exactly when the two have the same value under every
assignment that gives the names of both a value. So it is reflexive, symmetric
and transitive, and what it says yes to may be exchanged under a negation and
under every connective.
-/
theorem equivalent_decides_meaning :
    (∀ f g : Formula, f.Complete → g.Complete →
      ∃ b, (equivalent (.formula f) (.formula g)).result = .ok b ∧
        (b = true ↔ ∀ a : Assignment, a.Covers f → a.Covers g → f.eval a = g.eval a)) ∧
    (∀ f : Formula, f.Complete → f.Matches f) ∧
    (∀ f g : Formula, f.Complete → g.Complete → f.Matches g → g.Matches f) ∧
    (∀ f g h : Formula, f.Complete → g.Complete → h.Complete →
      f.Matches g → g.Matches h → f.Matches h) ∧
    (∀ f f' : Formula, f.Complete → f'.Complete → f.Matches f' →
      ∃ k k', Formula.not? "expr" (.formula f) = .ok k ∧
        Formula.not? "expr" (.formula f') = .ok k' ∧ k.Matches k') ∧
    ∀ (c : Connective) (f f' g g' : Formula), f.Complete → f'.Complete → g.Complete →
      g'.Complete → f.Matches f' → g.Matches g' →
      ∃ k k', c.connect? (.formula f) (.formula g) = .ok k ∧
        c.connect? (.formula f') (.formula g') = .ok k' ∧ k.Matches k' := by
  refine ⟨?_, ?_, ?_, ?_, ?_, ?_⟩
  · intro f g hf hg
    obtain ⟨b, hResult, hAgrees⟩ := Formula.equivalent_eq hf hg
    exact ⟨b, hResult, by rw [hAgrees, Formula.agrees_iff_eval hf hg]⟩
  · intro f hf
    exact (Formula.matches_iff_agrees hf hf).mpr fun v => rfl
  · intro f g hf hg hfg
    rw [Formula.matches_iff_agrees hf hg] at hfg
    exact (Formula.matches_iff_agrees hg hf).mpr fun v => (hfg v).symm
  · intro f g h hf hg hh hfg hgh
    rw [Formula.matches_iff_agrees hf hg] at hfg
    rw [Formula.matches_iff_agrees hg hh] at hgh
    exact (Formula.matches_iff_agrees hf hh).mpr fun v => (hfg v).trans (hgh v)
  · intro f f' hf hf' hff'
    rw [Formula.matches_iff_agrees hf hf'] at hff'
    refine ⟨.not f, .not f', rfl, rfl, ?_⟩
    -- a negation has holes only where its operand has
    have hNot : (Formula.not f).Complete := hf
    have hNot' : (Formula.not f').Complete := hf'
    exact (Formula.matches_iff_agrees hNot hNot').mpr hff'.not
  · intro c f f' g g' hf hf' hg hg' hff' hgg'
    rw [Formula.matches_iff_agrees hf hf'] at hff'
    rw [Formula.matches_iff_agrees hg hg'] at hgg'
    refine ⟨c.apply f g, c.apply f' g', rfl, rfl, ?_⟩
    have hLeft : (c.apply f g).Complete := Connective.complete_apply hf hg
    have hRight : (c.apply f' g').Complete := Connective.complete_apply hf' hg'
    exact (Formula.matches_iff_agrees hLeft hRight).mpr (hff'.apply hgg' c)

/-- `p | q & !q` and `p & (r | !r)` have one name in common and match; so do
their exclusive disjunctions with `r`. -/
theorem equivalent_decides_meaning_sample :
    let p : Formula := .var ⟨"p", rfl⟩
    let q : Formula := .var ⟨"q", rfl⟩
    let r : Formula := .var ⟨"r", rfl⟩
    let f : Formula := .or p (.and q (.not q))
    let g : Formula := .and p (.or r (.not r))
    f.Complete ∧ g.Complete ∧ f.Matches g ∧
      ∃ k k', Connective.xor.connect? (.formula f) (.formula r) = .ok k ∧
        Connective.xor.connect? (.formula g) (.formula r) = .ok k' ∧ k.Matches k' := by
  intro p q r f g
  have hf : f.Complete := ⟨trivial, trivial, trivial⟩
  have hg : g.Complete := ⟨trivial, trivial, trivial⟩
  have hr : r.Complete := trivial
  obtain ⟨hDecides, hRefl, -, -, -, hConnect⟩ := equivalent_decides_meaning
  have hMatches : f.Matches g := by
    obtain ⟨b, hResult, hSame⟩ := hDecides f g hf hg
    have hb : b = true := by
      rw [hSame]
      intro a hCoversF hCoversG
      rw [Formula.eval_of_covers hf hCoversF, Formula.eval_of_covers hg hCoversG]
      simp [f, g, p, q, r, Formula.or, Formula.and, Formula.value]
    rw [Formula.Matches, hResult, hb]
  exact ⟨hf, hg, hMatches, hConnect .xor f g r r hf hg hr hr hMatches (hRefl r hr)⟩

end TruthTable
