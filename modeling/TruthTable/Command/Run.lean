import TruthTable.Command.Options
import TruthTable.FormulaFile
import TruthTable.Log.Registry
import TruthTable.Picture
import TruthTable.Report
import TruthTable.Samples

/-!
# Running the command

A run reads all formulas before it writes the first report. The exit code tells how far it came: 0
when all is done, 2 when a formula cannot be read, 3 when the formula file is of no use, 4 when the
run was interrupted, 5 when anything else went wrong. A command line that is refused also gives 2.
-/

namespace TruthTable.Command

/-- What a run finds around it. -/
structure Surroundings where
  files : FileTree
  /-- How the layout program behaves when it is called for the formula with this number. -/
  layout : Nat → Layout
  /-- The run is interrupted when it starts to collect the formulas. -/
  interrupted : Bool
  /-- How many levels of a formula can be drawn. -/
  room : Nat
  /-- What the system refuses to change. -/
  denials : Denials

/-- What the picture of the formula with this number depends on besides the files. -/
def Surroundings.workshop (s : Surroundings) (index : Nat) : Picture.Workshop :=
  ⟨s.layout index, s.room, s.denials⟩

/-- The formulas of the file whose path is given. -/
def fromFile (files : FileTree) : Value → Except Fault (List String)
  | .text path => FormulaFile.read files (.ofString path)
  | v => .error (.notPath v.kind)

/-- The texts of the formulas to analyse: those of the command line, then those of the file. -/
def sources (o : Options) (files : FileTree) : Except Fault (List Value) :=
  match o.file with
  | none => .ok o.expressions
  | some path => do
    let found ← fromFile files path
    return o.expressions ++ found.map .text

/-- Reads the formulas in order, each with its text. -/
def readAll : List Value → Logged (List (String × Formula))
  | [] => pure []
  | source :: rest => do
    let f ← readFormula source
    let others ← readAll rest
    return (source.plain, f) :: others

/-- The sample formulas, each with its text. -/
def samples : List Formula → Except Fault (List (String × Formula))
  | [] => .ok []
  | f :: rest => do
    let text ← f.render
    let others ← samples rest
    return (text, f) :: others

/-- The formulas to analyse, each with its text; the samples when none is asked for. -/
def collect (o : Options) : Action (List (String × Formula)) := do
  let files ← Action.files
  match ← Action.ofExcept (sources o files) with
  | [] => Action.ofExcept (samples Samples.all)
  | found => Action.ofLogged (readAll found)

/-- Writes the report on a formula, and makes its picture if one is asked for. `index` counts the
formulas from 1. -/
def analyse (o : Options) (w : Picture.Workshop) (index : Nat) (source : String) (f : Formula) :
    Action Unit := do
  Action.note .info ("=== Analysing: " ++ source ++ " ===")
  let report ← Action.ofLogged (Report.text f)
  Action.emit [.text report]
  match o.folder with
  | none => return
  | some folder =>
    let name := "expression_" ++ toString index
    discard (Picture.make w ⟨.formula f, name, o.format, folder.text⟩)

/-- Analyses the formulas in order. -/
def analyseAll (o : Options) (w : Nat → Picture.Workshop) :
    Nat → List (String × Formula) → Action Unit
  | _, [] => pure ()
  | index, (source, f) :: rest => do
    analyse o (w index) index source f
    analyseAll o w (index + 1) rest

/-- The exit code of a run that ends in a fault, and what is noted about it. -/
def ending : Fault → Nat × String
  | .parse cause => (2, "Formula parsing error: " ++ cause.message)
  | .formulaFile cause => (3, "Formula file error: " ++ cause.message)
  | fault => (5, "Unexpected error: " ++ fault.title ++ ": " ++ fault.message)

/-- What a run leaves behind. -/
structure Result where
  exit : Nat
  /-- The threshold for log entries in the output. -/
  threshold : Log.Level
  output : List Piece
  errors : String
  files : FileTree

/-- Standard output of a run. -/
def Result.stdout (r : Result) : String :=
  shown r.threshold r.output

/-- Carries out what the options ask for. -/
def carryOut (o : Options) (s : Surroundings) : Result :=
  let threshold := Log.Registry.flagLevel o.verbose o.debug
  let start : Scene := ⟨s.files, [], ""⟩
  if s.interrupted then
    ⟨4, threshold, [.entry ⟨.error, "Analysis interrupted by user"⟩], "", s.files⟩
  else
    let work : Action Unit := do
      let formulas ← collect o
      analyseAll o s.workshop 1 formulas
    match work.carryOut start with
    | (.ok (), scene) => ⟨0, threshold, scene.output, scene.errors, scene.files⟩
    | (.error fault, scene) =>
      let (exit, message) := ending fault
      ⟨exit, threshold, scene.output ++ [.entry ⟨.error, message⟩], scene.errors, scene.files⟩

/-- Runs the command with the given words. -/
def run (words : List String) (s : Surroundings) : Result :=
  match Request.ofWords words with
  | .help => ⟨0, .warning, [.text help], "", s.files⟩
  | .refused message => ⟨2, .warning, [], refusal message, s.files⟩
  | .run o => carryOut o s

end TruthTable.Command
