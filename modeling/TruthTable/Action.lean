import TruthTable.FileTree
import TruthTable.Log.Basic

/-!
# Actions

What the command does is an action: it may fail, change files, and write. Standard output is kept
as a list of pieces, so that the threshold for log entries is applied only when the pieces are
shown; everything written before a fault stays written.
-/

namespace TruthTable

/-- A piece of standard output: a log entry, or a text that is written in any case. -/
inductive Piece where
  | entry (e : Log.Entry)
  | text (s : String)

/-- What a piece looks like under a threshold for log entries. -/
def Piece.shown (threshold : Log.Level) : Piece → String
  | .entry e => if e.passes threshold then e.line else ""
  | .text s => s

/-- Standard output under a threshold for log entries. -/
def shown (threshold : Log.Level) (pieces : List Piece) : String :=
  String.join (pieces.map (Piece.shown threshold))

/-- The files, and what has been written to standard output and to standard error. -/
structure Scene where
  files : FileTree
  output : List Piece
  errors : String

/-- A computation that may fail and acts on a scene. What it did before a fault stays done. -/
abbrev Action := ExceptT Fault (StateM Scene)

namespace Action

/-- Carries an action out. -/
def carryOut {α : Type} (x : Action α) (s : Scene) : Except Fault α × Scene :=
  x.run.run s

@[simp]
theorem carryOut_pure {α : Type} (a : α) (s : Scene) :
    (pure a : Action α).carryOut s = (.ok a, s) :=
  rfl

/-- A fault leaves the scene as it is. -/
@[simp]
theorem carryOut_throw {α : Type} (fault : Fault) (s : Scene) :
    (throw fault : Action α).carryOut s = (.error fault, s) :=
  rfl

/-- The second action starts from the scene that the first one leaves, unless that one fails. -/
theorem carryOut_bind {α β : Type} (x : Action α) (k : α → Action β) (s : Scene) :
    (x >>= k).carryOut s =
      match x.carryOut s with
      | (.ok a, after) => (k a).carryOut after
      | (.error fault, after) => (.error fault, after) := by
  simp only [carryOut, ExceptT.run_bind, StateT.run_bind]
  generalize x.run.run s = outcome
  obtain ⟨_ | _, _⟩ := outcome
  · rfl
  · rfl

/-- Writes pieces to standard output. -/
def emit (pieces : List Piece) : Action Unit :=
  modify fun s => { s with output := s.output ++ pieces }

@[simp]
theorem carryOut_emit (pieces : List Piece) (s : Scene) :
    (emit pieces).carryOut s = (.ok (), { s with output := s.output ++ pieces }) :=
  rfl

/-- Notes an entry. -/
def note (level : Log.Level) (message : String) : Action Unit :=
  emit [.entry ⟨level, message⟩]

@[simp]
theorem carryOut_note (level : Log.Level) (message : String) (s : Scene) :
    (note level message).carryOut s =
      (.ok (), { s with output := s.output ++ [.entry ⟨level, message⟩] }) :=
  rfl

/-- Writes to standard error. -/
def complain (text : String) : Action Unit :=
  modify fun s => { s with errors := s.errors ++ text }

@[simp]
theorem carryOut_complain (text : String) (s : Scene) :
    (complain text).carryOut s = (.ok (), { s with errors := s.errors ++ text }) :=
  rfl

/-- Carries out a computation that notes entries. -/
def ofLogged {α : Type} (x : Logged α) : Action α := do
  emit (x.entries.map .entry)
  match x.result with
  | .ok a => return a
  | .error fault => throw fault

/-- The entries of a logged computation are written, whatever it comes to. -/
@[simp]
theorem carryOut_ofLogged {α : Type} (x : Logged α) (s : Scene) :
    (ofLogged x).carryOut s =
      (x.result, { s with output := s.output ++ x.entries.map .entry }) := by
  obtain ⟨entries, result⟩ := x
  cases result with
  | ok a => rfl
  | error fault => rfl

/-- Passes on the outcome of a computation without effects. -/
def ofExcept {α : Type} : Except Fault α → Action α
  | .ok a => pure a
  | .error fault => throw fault

@[simp]
theorem carryOut_ofExcept {α : Type} (x : Except Fault α) (s : Scene) :
    (ofExcept x).carryOut s = (x, s) := by
  cases x with
  | ok a => rfl
  | error fault => rfl

/-- The files as they are. -/
def files : Action FileTree := do
  let s ← get
  return s.files

@[simp]
theorem carryOut_files (s : Scene) : files.carryOut s = (.ok s.files, s) :=
  rfl

/-- Changes the files, or fails and leaves them. -/
def change (f : FileTree → Except PathFault FileTree) : Action Unit := do
  let s ← get
  match f s.files with
  | .ok files => set { s with files }
  | .error fault => throw (.path fault)

/-- A change that fails leaves the files as they are. -/
theorem carryOut_change (f : FileTree → Except PathFault FileTree) (s : Scene) :
    (change f).carryOut s =
      match f s.files with
      | .ok files => (.ok (), { s with files })
      | .error fault => (.error (.path fault), s) := by
  have hGet : (get : Action Scene).carryOut s = (.ok s, s) := rfl
  simp only [change, carryOut_bind, hGet]
  cases f s.files with
  | ok files => rfl
  | error fault => rfl

/-- Makes a directory and those above it that are missing. -/
def makeDirectories (d : Denials) (path : String) (mayExist : Bool) : Action Unit := do
  let s ← get
  let (files, result) := s.files.makeDirectories d path.toList mayExist
  set { s with files }
  match result with
  | .ok () => return
  | .error fault => throw (.path fault)

/-- Directories that were made before the fault stay. -/
theorem carryOut_makeDirectories (d : Denials) (path : String) (mayExist : Bool) (s : Scene) :
    (makeDirectories d path mayExist).carryOut s =
      match s.files.makeDirectories d path.toList mayExist with
      | (files, .ok ()) => (.ok (), { s with files })
      | (files, .error fault) => (.error (.path fault), { s with files }) := by
  have hGet : (get : Action Scene).carryOut s = (.ok s, s) := rfl
  rw [makeDirectories, carryOut_bind, hGet]
  generalize hMade : s.files.makeDirectories d path.toList mayExist = made
  obtain ⟨files, result⟩ := made
  simp only [hMade]
  cases result with
  | ok done => rfl
  | error fault => rfl

end Action

end TruthTable
