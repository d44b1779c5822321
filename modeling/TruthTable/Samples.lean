import TruthTable.Formula.Basic

/-!
# Sample formulas

The formulas that are analysed when none is asked for: the excluded middle, a conjunction, an
implication from falsity, an implication of the negation, a contradiction, a parity check of three
variables, and the equivalence of a negated disjunction with a conjunction of negations.
-/

namespace TruthTable

namespace Samples

/-- The variable `p`. -/
def p : Formula := .var ⟨"p", by decide⟩

/-- The variable `q`. -/
def q : Formula := .var ⟨"q", by decide⟩

/-- The variable `r`. -/
def r : Formula := .var ⟨"r", by decide⟩

/-- The sample formulas, in order. -/
def all : List Formula :=
  [p.or (.not p),
   p.and q,
   (Formula.constant false).implies q,
   p.implies (.not p),
   p.and (.not p),
   p.xor (q.implies r),
   (Formula.not (p.or q)).iff ((Formula.not p).and (.not q))]

end Samples

end TruthTable
