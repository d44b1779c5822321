import TruthTable.Command.Run

/-!
# The command

The command line program: it looks at the files that the run can touch, carries the run out, writes
what the run wrote and stores what the run changed. There is no layout program at hand, so drawings
are kept and no pictures are made.
-/

namespace TruthTable.Main

/-- The path of a place. -/
def pathOf (place : List String) : String :=
  "/" ++ "/".intercalate place

/-- What stands at a place whose parent is a directory. Links are looked through. -/
def look (place : List String) : IO (Option FileNode) := do
  try
    let bytes ← IO.FS.readBinFile (pathOf place)
    return some (.file bytes.toList)
  catch e =>
    match e with
    | .inappropriateType .. => return some .directory
    | _ => return none

/-- Adds what stands on the way from a place along the names to a tree. -/
def survey (files : FileTree) (above : List String) : List String → IO FileTree
  | [] => return files
  | name :: rest => do
    let place := above ++ [name]
    match ← look place with
    | none => return files
    | some (.file bytes) => return files.put place (.file bytes)
    | some node => survey (files.put place node) place rest

/-- The tree of what stands at the paths that the options name. -/
def surroundings (files : FileTree) (o : Command.Options) : IO FileTree := do
  let files ← match o.file with
    | some (.text path) => survey files [] (files.placeOf (Path.ofString path).text)
    | _ => pure files
  match o.folder with
  | some folder => survey files [] (files.placeOf folder.text)
  | none => return files

/-- Stores what stands at a place. A run makes no links. -/
def store : List String × FileNode → IO Unit
  | (place, .directory) => IO.FS.createDirAll (pathOf place)
  | (place, .file bytes) => IO.FS.writeBinFile (pathOf place) ⟨bytes.toArray⟩
  | (_, .link _) => return

end TruthTable.Main

open TruthTable in
/-- Runs the command with the words of the command line. -/
def main (words : List String) : IO UInt32 := do
  let start := FileTree.fresh (components (toString (← IO.currentDir)))
  let files ← match Command.Request.ofWords words with
    | .run o => Main.surroundings start o
    | _ => pure start
  let result := Command.run words ⟨files, .missing, false, Graph.usualRoom, .nothing⟩
  (← IO.getStdout).putStr result.stdout
  (← IO.getStderr).putStr result.errors
  let (directories, others) :=
    (files.changedSince result.files).partition (fun (_, node) => node = .directory)
  (directories.reverse ++ others).forM Main.store
  return result.exit.toUInt32
