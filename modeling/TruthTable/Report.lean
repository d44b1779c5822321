import TruthTable.Query

/-!
# Reports

The report on a formula: its text, its names, all assignments over them, its status, and the
assignments that satisfy it and that do not. A report ends with a blank line.
-/

namespace TruthTable

namespace Report

/-- The line that tells whether the formula has a property. -/
def statusLine (has : Bool) (property : String) : String :=
  "The expression is" ++ (if has then "" else " NOT") ++ " a " ++ property

/-- The lines of the report on a formula. Each of the five enumerations that it takes is announced
when it starts. -/
def lines (f : Formula) : Logged (List String) := do
  let text ← Logged.lift f.render
  let e ← enumerate (.formula f)
  let tautology ← announced Formula.isTautology (.formula f)
  let contradiction ← announced Formula.isContradiction (.formula f)
  let satisfying ← announced Formula.satisfying (.formula f)
  let falsifying ← announced Formula.falsifying (.formula f)
  return ["Expression: " ++ text,
      "Variables: " ++ ", ".intercalate f.names.texts,
      "All possible interpretations:"] ++
    e.rows.map Assignment.render ++
    [statusLine tautology "tautology", statusLine contradiction "contradiction",
      "All interpretations that satisfy the expression:"] ++
    satisfying.map Assignment.render ++
    ["All interpretations that do not satisfy the expression:"] ++
    falsifying.map Assignment.render ++
    [""]

/-- The text of the report on a formula: its lines, each ended by a line feed. -/
def text (f : Formula) : Logged String := do
  let lines ← lines f
  return String.join (lines.map (· ++ "\n"))

/-- The text of the report on an argument, which must be a formula. -/
def ofArgument (x : Argument) : Logged String := do
  let f ← Logged.lift (x.owner "variables")
  text f

end Report

end TruthTable
