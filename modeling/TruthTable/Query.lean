import TruthTable.Argument
import TruthTable.Formula.Text
import TruthTable.Parser
import TruthTable.Verdict

/-!
# Questions with a log

The questions about formulas as a caller asks them. The subject may be any value and is checked
first; each enumeration is announced when it starts, and reading a formula and classifying one are
noted too.
-/

namespace TruthTable

/-! ## Reading a formula -/

/-- What is noted about the outcome of reading a text. -/
def readingOutcome : Except Fault Formula → List Log.Entry
  | .ok f => [⟨.debug, "Successfully parsed formula into " ++ f.kind⟩]
  | .error (.parse (.notText _)) => []
  | .error (.parse .blank) => []
  | .error (.parse (.illegal i)) =>
    [⟨.debug, "Illegal character '" ++ i.char.toString ++ "' at position " ++ toString i.position⟩,
     ⟨.debug, "Unexpected parsing error: ValueError: " ++ i.message⟩]
  | .error _ => [⟨.debug, "Parse error encountered"⟩]

/-- The formula that a value is the text of. -/
def parseValue : Value → Except Fault Formula
  | .text source => parse source
  | v => .error (.parse (.notText v.kind))

/-- Reads a formula and notes how it went. -/
def readFormula (v : Value) : Logged Formula :=
  let result := parseValue v
  ⟨⟨.debug, "Parsing formula: " ++ v.literal⟩ :: readingOutcome result, result⟩

/-- The tokens of a text; an illegal character is noted. -/
def readTokens (source : String) : Logged Lexing :=
  let lexing := Lexing.ofText source.toList
  match lexing.obstacle with
  | none => pure lexing
  | some (c, position) =>
    ⟨[⟨.debug, "Illegal character '" ++ c.toString ++ "' at position " ++ toString position⟩],
      .ok lexing⟩

/-! ## Questions about a formula -/

/-- A question about one formula. -/
inductive Query where
  | names
  | rows
  | allRows
  | truthTable
  | truthBits
  | tautology
  | contradiction
  | satisfiable
  | satisfying
  | falsifying
  | classify

/-- The answer to a question. -/
inductive Answer where
  | names (names : List String)
  | rows (rows : List Assignment)
  | texts (texts : List String)
  | table (rows : List (Assignment × Bool))
  | bits (values : List Bool)
  | flag (value : Bool)
  | verdict (v : Verdict)

/-- Starts an enumeration over the names of the subject. -/
def enumerate (x : Argument) : Logged Enumeration := do
  let f ← Logged.lift x.subject
  let e := f.enumeration
  Logged.note e.announcement
  return e

/-- Asks a question of a formula after announcing the enumeration that answers it. -/
def announced {α : Type} (question : Formula → Except Fault α) (x : Argument) : Logged α := do
  let f ← Logged.lift x.subject
  Logged.note f.enumeration.announcement
  Logged.lift (question f)

/-- Classifies the subject and notes the result. -/
def classified (x : Argument) : Logged Verdict := do
  let f ← Logged.lift x.subject
  let v ← announced Formula.classify x
  let text ← Logged.lift f.render
  Logged.note [⟨.debug, text ++ " classified as " ++ v.word⟩]
  return v

/-- Texts in increasing order. -/
def sortTexts (texts : List String) : List String :=
  texts.mergeSort fun s t => decide (s ≤ t)

/-- Answers a question about the subject. -/
def Query.answer (q : Query) (x : Argument) : Logged Answer :=
  match q with
  | .names => do
    let f ← Logged.lift x.subject
    return .names f.names.texts
  | .rows => do
    let e ← enumerate x
    return .rows e.rows
  | .allRows => do
    let e ← enumerate x
    return .texts (sortTexts (e.distinct.map Assignment.render))
  | .truthTable => do
    let table ← announced Formula.truthTable x
    return .table table
  | .truthBits => do
    let table ← announced Formula.truthTable x
    return .bits (table.map (·.2))
  | .tautology => do
    let b ← announced Formula.isTautology x
    return .flag b
  | .contradiction => do
    let b ← announced Formula.isContradiction x
    return .flag b
  | .satisfiable => do
    let b ← announced Formula.isSatisfiable x
    return .flag b
  | .satisfying => do
    let rows ← announced Formula.satisfying x
    return .rows rows
  | .falsifying => do
    let rows ← announced Formula.falsifying x
    return .rows rows
  | .classify => do
    let v ← classified x
    return .verdict v

/-- Whether two subjects have the same value under every assignment. Both are checked first, the
left one before the right one. -/
def equivalent (x y : Argument) : Logged Bool := do
  let f ← Logged.lift x.subject
  let g ← Logged.lift y.subject
  announced Formula.isTautology (.formula (f.iff g))

/-! ## Looking at an argument -/

namespace Argument

/-- Describes the argument, which must be a formula. -/
def describe (x : Argument) : Except Fault Formula.Description := do
  let f ← x.owner "render"
  f.describe

/-- The argument as nested constructors. -/
def literal : Argument → String
  | .formula f => f.literal
  | .value v => v.literal

/-- The nodes that a visit of the argument, which must be a formula, sees, and the fault that ends
it, if any. -/
def visit (x : Argument) : Except Fault (List Formula.Sight × Option Fault) := do
  let f ← x.owner "accept"
  let (seen, stopped) := f.preorder
  return (seen, if stopped then some .hole else none)

/-- The fault of an attempt to change or to remove a field: formulas are immutable, and no other
value has fields. -/
def alterationFault (removal : Bool) (field : String) (x : Argument) : Fault :=
  match x.owner field with
  | .ok _ => .immutable removal field
  | .error fault => fault

/-- The value of the argument, which must be a formula, under an assignment or under any other value
in its place. -/
def evaluate (x : Argument) (under : Assignment ⊕ Value) : Except Fault Bool := do
  let f ← x.owner "evaluate"
  match under with
  | .inl a => f.eval a
  | .inr .none => throw (.argument (.absent "interpretation"))
  | .inr v => throw (.argument (.notAssignment v.kind))

end Argument

end TruthTable
