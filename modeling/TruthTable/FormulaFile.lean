import TruthTable.FileTree
import TruthTable.Text.Basic

/-!
# Formula files

A formula file holds one formula per line. Lines are stripped of blank characters at both ends;
empty lines and lines that then start with `#` are passed over. A file without formulas is of no
use.
-/

namespace TruthTable

namespace FormulaFile

/-- A line that holds a formula. -/
def isFormula (line : List Char) : Bool :=
  match line with
  | [] => false
  | c :: _ => c != '#'

/-- The formulas of a text, in order. -/
def formulas (text : List Char) : List String :=
  (((Text.lines text).map Text.strip).filter isFormula).map String.ofList

/-- The formulas of the file at a path. -/
def read (files : FileTree) (path : Path) : Except Fault (List String) :=
  match files.read path.text with
  | .error .nullCharacter => .error (.path .nullCharacter)
  | .error (.refused .notFound _) => .error (.formulaFile (.notFound path.text))
  | .error (.refused refusal refused) => .error (.formulaFile (.unreadable refusal refused))
  | .ok bytes =>
    match Text.decode bytes with
    | .error fault => .error (.decoding fault)
    | .ok text =>
      match formulas text with
      | [] => .error (.formulaFile (.noFormulas path.text))
      | found => .ok found

end FormulaFile

end TruthTable
