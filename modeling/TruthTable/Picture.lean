import TruthTable.Action
import TruthTable.Graph

/-!
# Pictures of formulas

A drawing is saved below a folder and handed to the layout program, which makes the picture beside
it. If that succeeds the drawing is removed again; if the program is missing or fails, the drawing
stays and a warning is noted.
-/

namespace TruthTable

/-- The bytes of a text. -/
def Picture.bytes (text : String) : List UInt8 :=
  text.toUTF8.toList

namespace Layout

/-- How a run of the layout program ends that makes no picture. -/
inductive Trouble where
  | status (number : Nat)
  | signal (label : String)

/-- The words for an end without a picture. -/
def Trouble.words : Trouble → String
  | .status number => "returned non-zero exit status " ++ toString number ++ "."
  | .signal label => "died with " ++ label ++ "."

/-- What a run of the layout program comes to. -/
structure Outcome where
  /-- The files afterwards, by the path and the format of the picture and the files before. The
  program may not get to run. -/
  files : String → String → FileTree → Except PathFault FileTree
  /-- What the program writes to standard error, which may not decode. -/
  complaint : Except Text.DecodeFault String
  trouble : Option Trouble

end Layout

/-- How the layout program behaves when it is called. -/
inductive Layout where
  | missing
  | runs (outcome : Layout.Outcome)

namespace Layout

/-- A layout program that writes a picture and nothing else. -/
def works : Layout :=
  .runs {
    files := fun picture format files =>
      files.write picture (Picture.bytes ("rendered as " ++ format ++ "\n"))
    complaint := .ok ""
    trouble := none }

/-- A layout program that finds fault with the drawing. -/
def fails : Layout :=
  .runs {
    files := fun _ _ files => .ok files
    complaint := .ok "syntax error\n"
    trouble := some (.status 3) }

/-- A layout program that behaves in one way behaves so at every call. -/
instance : Coe Layout (Nat → Layout) := ⟨fun l _ => l⟩

end Layout

namespace Picture

/-- The folder for pictures where none is asked for. -/
def standardFolder : String := "expression_trees"

/-- A picture that is asked for. -/
structure Request where
  /-- The formula to draw. -/
  subject : Argument
  /-- The path of the drawing below the folder. -/
  name : String
  /-- The format of the picture, as the caller gives it. -/
  format : Value
  folder : String

/-- Where the drawing is saved. -/
def Request.path (r : Request) : String :=
  joinPath r.folder r.name

/-- The path of the picture that the layout program makes of a drawing. -/
def Request.picture (r : Request) (format : String) : String :=
  (Path.ofString r.path).text ++ "." ++ format

/-- What the making of a picture depends on besides the files. -/
structure Workshop where
  layout : Layout
  /-- How many levels of a formula can be drawn. -/
  room : Nat
  denials : Denials

/-- The words for a missing layout program. -/
def missingProgram : String :=
  "failed to execute PosixPath('dot'), make sure the Graphviz executables are on your systems' PATH"

/-- The words for a run of the layout program that made no picture. -/
def brokenRun (path format complaint : String) (trouble : Layout.Trouble) : String :=
  "Command '[PosixPath('dot'), '-Kdot', " ++ Text.quoted ("-T" ++ format) ++ ", '-O', " ++
    Text.quoted (Path.ofString path).name ++ "]' " ++ trouble.words ++
    " [stderr: " ++ Text.quotedBytes (bytes complaint) ++ "]"

/-- The warning that there is no picture. -/
def warning (r : Request) (why : String) : String :=
  "Failed to render expression tree to " ++ r.path ++ "." ++ r.format.plain ++ ": " ++ why ++
    ". Ensure Graphviz executables (dot) are in your system's PATH."

/-- Makes the folder if nothing stands there. -/
def prepareFolder (d : Denials) (folder : String) : Action Unit := do
  let files ← Action.files
  if files.exists? folder then return
  Action.makeDirectories d folder false
  Action.note .info ("Created directory for expression trees: " ++ folder)

/-- Saves a drawing, and makes the directories above it. A file that stood there is lost even if the
drawing cannot be written. -/
def saveDrawing (d : Denials) (path : String) (drawing : Graph.Drawing) : Action Unit := do
  let above := String.ofList (splitLast path.toList).1
  if !above.isEmpty then Action.makeDirectories d above true
  Action.change fun files => d.check files .openFile path (files.write path [])
  Action.change fun files => d.check files .fillFile path (files.write path (bytes drawing.source))

/-- Calls the layout program for a drawing that is saved. The result tells why there is no picture,
if there is none. -/
def layOut (layout : Layout) (r : Request) (format : String) : Action (Option String) :=
  match layout with
  | .missing => return some missingProgram
  | .runs outcome => do
    Action.change (outcome.files (r.picture format) format)
    match outcome.complaint with
    | .error fault => throw (.decoding fault)
    | .ok complaint =>
      Action.complain complaint
      return outcome.trouble.map (brokenRun r.path format complaint)

/-- Draws a formula and makes the picture. The result is the path of the picture, if there is
one. -/
def make (w : Workshop) (r : Request) : Action (Option String) := do
  prepareFolder w.denials r.folder
  let drawing ← Action.ofExcept (Graph.draw w.room r.subject r.format)
  saveDrawing w.denials r.path drawing
  match ← layOut w.layout r drawing.format with
  | some why =>
    Action.note .warning (warning r why)
    return none
  | none =>
    Action.change fun files => w.denials.check files .remove r.path (files.remove r.path)
    Action.note .info ("Expression tree saved to " ++ r.picture drawing.format)
    return some (r.picture drawing.format)

end Picture

end TruthTable
