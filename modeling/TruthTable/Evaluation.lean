import TruthTable.Assignment.Basic
import TruthTable.Formula.Fold

/-!
# Evaluation

The truth value of a formula under an assignment. Evaluation is strict: both operands of a
conjunction or disjunction are evaluated even where one decides the value, so the leftmost name
without a value is always found.
-/

namespace TruthTable

/-- The truth function of a primitive connective. -/
def Operator.eval : Operator → Bool → Bool → Bool
  | .and, a, b => a && b
  | .or, a, b => a || b

namespace Formula

/-- One node of the evaluation. -/
def evalStep (a : Assignment) : Layer Bool → Except Fault Bool
  | .hole => .error .hole
  | .constant b => .ok b
  | .var n =>
    match a.get? n with
    | some b => .ok b
    | none => .error (.argument (.unassigned n))
  | .not b => .ok !b
  | .binary op b c => .ok (op.eval b c)

/-- The truth value under an assignment. -/
def eval (a : Assignment) (f : Formula) : Except Fault Bool :=
  f.fold (evalStep a)

end Formula

end TruthTable
