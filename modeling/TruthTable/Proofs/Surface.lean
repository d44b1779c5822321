import TruthTable.Proofs.Evaluation

/-!
# Defined connectives keep their meaning

Formulas know negation, conjunction and disjunction only. Implication,
equivalence and exclusive disjunction are expanded when a formula is built,
and two of the expansions double their operands and put them in another
order. A `Surface` formula is what was meant before the expansion: all five
connectives, read from left to right.

Main results:

* `build_eq_expand`              — the builders never refuse the parts that
  builders made.
* `firstMissing_apply`           — the first missing name survives the doubling
  and the change of order.
* `value_apply`                  — so does the truth value.
* `build_preserves_meaning`      — built bottom-up, a surface formula keeps its
  names, its value and its fault.
-/

namespace TruthTable

/-- A formula with all connectives, before they are expanded. -/
inductive Surface where
  | constant (b : Bool)
  | var (n : Name)
  | not (s : Surface)
  | connect (c : Connective) (l r : Surface)

/-- The truth function of a connective. -/
def Connective.truth : Connective → Bool → Bool → Bool
  | .and, x, y => x && y
  | .or, x, y => x || y
  | .xor, x, y => x != y
  | .implies, x, y => !x || y
  | .iff, x, y => x == y

namespace Surface

/-- The builders applied bottom-up, operands from left to right. -/
def build : Surface → Except Fault Formula
  | .constant b => Formula.constant? (.bool b)
  | .var n => Formula.var? (.text n.text)
  | .not s => do
    let f ← s.build
    Formula.not? "expr" (.formula f)
  | .connect c l r => do
    let f ← l.build
    let g ← r.build
    c.connect? (.formula f) (.formula g)

/-- The names in reading order, with repetitions. -/
def occurrences : Surface → List Name
  | .constant _ => []
  | .var n => [n]
  | .not s => s.occurrences
  | .connect _ l r => l.occurrences ++ r.occurrences

/-- The truth value, given those of the names. -/
def truth (v : Name → Bool) : Surface → Bool
  | .constant b => b
  | .var n => v n
  | .not s => !s.truth v
  | .connect c l r => c.truth (l.truth v) (r.truth v)

/-- The formula that is built. -/
def expand : Surface → Formula
  | .constant b => .constant b
  | .var n => .var n
  | .not s => .not s.expand
  | .connect c l r => c.apply l.expand r.expand

end Surface

-- ---------------------------------------------------------------------------
-- One connective
-- ---------------------------------------------------------------------------

theorem Connective.complete_apply {c : Connective} {f g : Formula} (hf : f.Complete)
    (hg : g.Complete) : (c.apply f g).Complete := by
  cases c <;> simp [apply, Formula.and, Formula.or, Formula.xor, Formula.implies, Formula.iff,
    Formula.Complete, hf, hg]

/-- An expanded connective has the truth function of the connective. -/
theorem Connective.value_apply (c : Connective) (f g : Formula) (v : Name → Bool) :
    (c.apply f g).value v = c.truth (f.value v) (g.value v) := by
  cases c <;> simp only [apply, Formula.and, Formula.or, Formula.xor, Formula.implies, Formula.iff,
    Formula.value, truth]
  · cases f.value v <;> cases g.value v <;> rfl
  · cases f.value v <;> cases g.value v <;> rfl

/-- The first operand stays in front of the second in its first occurrence,
so the first missing name is that of the operands in reading order. -/
theorem Connective.firstMissing_apply (c : Connective) (f g : Formula) (a : Assignment) :
    a.firstMissing (c.apply f g).leaves =
      (a.firstMissing f.leaves).or (a.firstMissing g.leaves) := by
  cases c <;> simp only [apply, Formula.and, Formula.or, Formula.xor, Formula.implies, Formula.iff,
    Formula.leaves_binary, Formula.leaves_not, Assignment.firstMissing_append]
  -- exclusive disjunction reads left, right, left, right
  · cases a.firstMissing f.leaves <;> cases a.firstMissing g.leaves <;> rfl
  -- equivalence reads left, right, right, left
  · cases a.firstMissing f.leaves <;> cases a.firstMissing g.leaves <;> rfl

-- ---------------------------------------------------------------------------
-- All connectives
-- ---------------------------------------------------------------------------

namespace Surface

/-- The builders accept whatever builders made. -/
theorem build_eq_expand (s : Surface) : s.build = .ok s.expand := by
  induction s with
  | constant b => rfl
  | var n => exact Formula.var?_eq_ok_iff.mpr ⟨n, rfl, rfl⟩
  | not s ih =>
    rw [build, ih, ok_bind]
    rfl
  | connect c l r ihl ihr =>
    rw [build, ihl, ok_bind, ihr, ok_bind]
    rfl

theorem complete_expand (s : Surface) : s.expand.Complete := by
  induction s with
  | constant b => trivial
  | var n => trivial
  | not s ih => exact ih
  | connect c l r ihl ihr => exact Connective.complete_apply ihl ihr

/-- Expanding brings no name and loses none. -/
theorem mem_leaves_expand (s : Surface) (n : Name) :
    n ∈ s.expand.leaves ↔ n ∈ s.occurrences := by
  induction s with
  | constant b => rfl
  | var m => rfl
  | not s ih => exact ih
  | connect c l r ihl ihr =>
    rw [expand, Connective.mem_leaves_apply, ihl, ihr, occurrences, List.mem_append]

/-- Expanding keeps the truth value. -/
theorem value_expand (s : Surface) (v : Name → Bool) : s.expand.value v = s.truth v := by
  induction s with
  | constant b => rfl
  | var n => rfl
  | not s ih => rw [expand, Formula.value, ih, truth]
  | connect c l r ihl ihr => rw [expand, Connective.value_apply, ihl, ihr, truth]

/-- Expanding keeps the first name without a value: a repetition comes after the
name itself. -/
theorem firstMissing_expand (s : Surface) (a : Assignment) :
    a.firstMissing s.expand.leaves = a.firstMissing s.occurrences := by
  induction s with
  | constant b => rfl
  | var n => rfl
  | not s ih => exact ih
  | connect c l r ihl ihr =>
    rw [expand, Connective.firstMissing_apply, ihl, ihr, occurrences,
      Assignment.firstMissing_append]

/-- The truth value depends on the names that occur. -/
theorem truth_congr {s : Surface} {v w : Name → Bool} (h : ∀ n ∈ s.occurrences, v n = w n) :
    s.truth v = s.truth w := by
  rw [← value_expand, ← value_expand]
  exact Formula.value_congr fun n hn => h n ((s.mem_leaves_expand n).mp hn)

/-- The expanded formula is evaluated as the surface formula reads. -/
theorem eval_expand (s : Surface) (a : Assignment) :
    s.expand.eval a = Formula.outcome (a.firstMissing s.occurrences) (s.truth a.valuation) := by
  rw [Formula.eval_eq a s.complete_expand, firstMissing_expand, value_expand]

end Surface

/--
**Expanding connectives preserves names, values and faults.** The builders
make of every surface formula a formula without holes, with exactly the names
that occur. Under an assignment that gives them the values `v` it has the
truth value of the surface formula; under any other assignment its evaluation
fails for the first name in reading order that has no value.
-/
theorem build_preserves_meaning (s : Surface) :
    ∃ f, s.build = .ok f ∧ f.Complete ∧
      (∀ n, n ∈ f.names.toList ↔ n ∈ s.occurrences) ∧
      ∀ a : Assignment,
        (∀ v : Name → Bool, (∀ n ∈ s.occurrences, a.get? n = some (v n)) →
          f.eval a = .ok (s.truth v)) ∧
        ((∃ n ∈ s.occurrences, a.get? n = none) →
          ∃ earlier n later, s.occurrences = earlier ++ n :: later ∧
            (∀ m ∈ earlier, (a.get? m).isSome = true) ∧ a.get? n = none ∧
            f.eval a = .error (.argument (.unassigned n))) := by
  refine ⟨s.expand, s.build_eq_expand, s.complete_expand, ?_, fun a => ⟨?_, ?_⟩⟩
  · intro n
    rw [Formula.mem_names, s.mem_leaves_expand]
  · intro v hAssigned
    have hNone : a.firstMissing s.occurrences = none := by
      rw [Assignment.firstMissing, List.find?_eq_none]
      intro n hn
      simp [hAssigned n hn]
    have hTruth : s.truth a.valuation = s.truth v :=
      Surface.truth_congr fun n hn => by rw [Assignment.valuation, hAssigned n hn]; rfl
    rw [s.eval_expand, hNone, hTruth]
    rfl
  · rintro ⟨m, hm, hMissing⟩
    -- some name is missing, so there is a first one
    obtain ⟨n, hFirst⟩ : ∃ n, a.firstMissing s.occurrences = some n := by
      rw [← Option.isSome_iff_exists, Assignment.firstMissing, List.find?_isSome]
      exact ⟨m, hm, by simp [hMissing]⟩
    have hEval := s.eval_expand a
    rw [hFirst] at hEval
    rw [Assignment.firstMissing, List.find?_eq_some_iff_append] at hFirst
    obtain ⟨hNone, earlier, later, hSplit, hEarlier⟩ := hFirst
    refine ⟨earlier, n, later, hSplit, ?_, by simpa using hNone, hEval⟩
    intro k hk
    simpa [Option.isSome_iff_ne_none] using hEarlier k hk

/-- In `(q ↔ p) ⊕ r` with a value for `q` alone, evaluation fails for `p`. -/
theorem build_preserves_meaning_sample :
    let p : Name := ⟨"p", rfl⟩
    let q : Name := ⟨"q", rfl⟩
    let r : Name := ⟨"r", rfl⟩
    let a := Assignment.empty.insert q true
    ∃ f, (Surface.connect .xor (.connect .iff (.var q) (.var p)) (.var r)).build = .ok f ∧
      f.eval a = .error (.argument (.unassigned p)) := by
  intro p q r a
  obtain ⟨f, hBuild, -, -, hEval⟩ :=
    build_preserves_meaning (.connect .xor (.connect .iff (.var q) (.var p)) (.var r))
  have hp : a.get? p = none := by decide
  have hq : a.get? q = some true := by decide
  obtain ⟨earlier, n, later, hSplit, hEarlier, hn, hFault⟩ :=
    (hEval a).2 ⟨p, by simp [Surface.occurrences], hp⟩
  refine ⟨f, hBuild, ?_⟩
  -- the first missing name is the second of the three
  match earlier, hSplit with
  | [], hSplit =>
    have hnq : q = n := (List.cons.inj hSplit).1
    rw [← hnq, hq] at hn
    cases hn
  | [_], hSplit =>
    have hnp : p = n := (List.cons.inj (List.cons.inj hSplit).2).1
    rw [hnp]
    exact hFault
  | _ :: m :: _, hSplit =>
    have hm : p = m := (List.cons.inj (List.cons.inj hSplit).2).1
    have hSome := hEarlier m (by simp)
    rw [← hm, hp] at hSome
    cases hSome

end TruthTable
