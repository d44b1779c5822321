import TruthTable.Enumeration
import TruthTable.Evaluation

/-!
# The logical status of a formula

Answers by enumeration of all assignments over the names of a formula. The questions with a yes or
no answer, and the classification, look at no more rows than they need.
-/

namespace TruthTable

/-- The logical status of a formula. -/
inductive Verdict where
  /-- True under every assignment. -/
  | tautology
  /-- False under every assignment. -/
  | contradiction
  /-- True under some assignments and false under others. -/
  | contingent
  deriving DecidableEq

namespace Verdict

/-- The word for a status. -/
def word : Verdict → String
  | .tautology => "TAUTOLOGY"
  | .contradiction => "CONTRADICTION"
  | .contingent => "CONTINGENT"

/-- Some assignment makes the formula true. -/
def isSatisfiable : Verdict → Bool
  | .contradiction => false
  | _ => true

/-- The status of a formula that holds on some rows, or fails on some rows, or both. -/
def ofSurvey (holds fails : Bool) : Verdict :=
  if !fails then .tautology else if !holds then .contradiction else .contingent

end Verdict

namespace Formula

/-- The assignments over the names of the formula, in order. -/
def enumeration (f : Formula) : Enumeration :=
  .ofFormula f

/-- The value of the formula under each assignment, in order. -/
def truthTable (f : Formula) : Except Fault (List (Assignment × Bool)) :=
  f.enumeration.rows.mapM fun a => do
    let value ← f.eval a
    return (a, value)

/-- The formula holds under every assignment. -/
def isTautology (f : Formula) : Except Fault Bool :=
  f.enumeration.allFrom (fun a => f.eval a) 0

/-- The formula holds under some assignment. -/
def isSatisfiable (f : Formula) : Except Fault Bool :=
  f.enumeration.anyFrom (fun a => f.eval a) 0

/-- The formula holds under no assignment. -/
def isContradiction (f : Formula) : Except Fault Bool := do
  let found ← f.enumeration.anyFrom (fun a => f.eval a) 0
  return !found

/-- The assignments under which the formula holds, in order. -/
def satisfying (f : Formula) : Except Fault (List Assignment) :=
  f.enumeration.rows.filterM fun a => f.eval a

/-- The assignments under which the formula fails, in order. -/
def falsifying (f : Formula) : Except Fault (List Assignment) :=
  f.enumeration.rows.filterM fun a => do
    let value ← f.eval a
    return !value

/-- The logical status of the formula. -/
def classify (f : Formula) : Except Fault Verdict := do
  let (holds, fails) ← f.enumeration.surveyFrom (fun a => f.eval a) false false 0
  return .ofSurvey holds fails

end Formula

end TruthTable
