import TruthTable.Fault
import TruthTable.Path

/-!
# File trees

A tree of directories, files and symbolic links with a working directory, and the operations on
paths that the program needs. A path is followed component by component: all but the last must be
directories, `.` stays and `..` leads to the directory above. At a link the way goes on along the
path that the link holds, and only so many links are followed. Each operation tells why it is
refused.

A tree says nothing of permissions or of room on a device. What is refused for such reasons is given
beside the tree, as `Denials`.
-/

namespace TruthTable

/-- What stands at a place of the tree. -/
inductive FileNode where
  | file (bytes : List UInt8)
  | directory
  /-- A symbolic link, which holds the path that it leads to. -/
  | link (target : String)
  deriving DecidableEq

/-- A tree of files. A place is the list of names that leads to it from the root, which is always a
directory. -/
structure FileTree where
  nodes : List (List String × FileNode)
  /-- The working directory, from which relative paths start. -/
  home : List String

/-- A change that a run makes to the files. A file is written in two steps: it is opened, which
leaves it empty, and filled. -/
inductive Change where
  | makeDirectory
  | openFile
  | fillFile
  | remove

/-- What the system refuses although the tree allows it, for want of permission or on a full or
read-only device: it depends on the files, the change and the path. -/
def Denials :=
  FileTree → Change → String → Option Refusal

namespace Denials

/-- The system refuses nothing that the tree allows. -/
def nothing : Denials :=
  fun _ _ _ => none

/-- The outcome of a change to the tree at a path, unless the change is denied. -/
def check (d : Denials) (t : FileTree) (change : Change) (path : String)
    (outcome : Except PathFault FileTree) : Except PathFault FileTree := do
  let after ← outcome
  match d t change path with
  | some refusal => throw (.refused refusal path)
  | none => return after

end Denials

namespace FileTree

/-! ## Places -/

/-- What stands at a place. -/
def at? (t : FileTree) (place : List String) : Option FileNode :=
  if place.isEmpty then some .directory else t.nodes.lookup place

/-- Puts a node at a place, instead of what stands there. -/
def put (t : FileTree) (place : List String) (node : FileNode) : FileTree :=
  { t with nodes := (place, node) :: t.nodes.filter (·.1 != place) }

/-- Takes away what stands at a place. -/
def erase (t : FileTree) (place : List String) : FileTree :=
  { t with nodes := t.nodes.filter (·.1 != place) }

/-- The longest name that a file or directory can have, in bytes. -/
def longestName : Nat := 255

/-- The longest path that can be followed, in bytes. -/
def longestPath : Nat := 4095

/-- How many links are followed on the way of one path. -/
def mostLinks : Nat := 40

/-- Where a path starts that is met in a directory: there, unless it starts with a slash. -/
def start (path : String) (place : List String) : List String :=
  if path.toList.head? = some '/' then [] else place

/-- Follows components up to the first link, where `jump` goes on. A link at the end is followed if
`through` says so. -/
def followWith (t : FileTree) (through : Bool)
    (jump : List String → List String → Except Refusal (List String)) :
    List String → List String → Except Refusal (List String)
  | place, [] => .ok place
  | place, component :: rest =>
    if component = "." then t.followWith through jump place rest
    else if component = ".." then t.followWith through jump place.dropLast rest
    else if longestName < component.utf8ByteSize then .error .nameTooLong
    else
      match t.at? (place ++ [component]) with
      | some .directory => t.followWith through jump (place ++ [component]) rest
      | some (.link target) =>
        if through || !rest.isEmpty then jump (start target place) (components target ++ rest)
        else .ok (place ++ [component])
      | some (.file _) => if rest.isEmpty then .ok (place ++ [component]) else .error .notDirectory
      | none => if rest.isEmpty then .ok (place ++ [component]) else .error .notFound

/-- Follows components from a directory to the place of the last one, where nothing need stand, by
way of so many links at most. -/
def follow (t : FileTree) (through : Bool) :
    Nat → List String → List String → Except Refusal (List String)
  | 0 => t.followWith through fun _ _ => .error .tooManyLinks
  | links + 1 => t.followWith through (t.follow through links)

/-- The place that a path leads to, where nothing need stand. -/
def locate (t : FileTree) (through : Bool) (path : String) : Except Refusal (List String) :=
  if path.isEmpty then .error .notFound
  else if longestPath < path.utf8ByteSize then .error .nameTooLong
  else t.follow through mostLinks (start path t.home) (components path)

/-- What stands at a path. -/
def inspect (t : FileTree) (path : String) : Except Refusal FileNode := do
  let place ← t.locate true path
  match t.at? place with
  | none => throw .notFound
  | some (.file bytes) =>
    if endsInSlash path then throw .notDirectory else return .file bytes
  | some (.link _) => throw .tooManyLinks
  | some .directory => return .directory

/-- A path that no operation accepts. -/
def hasNull (path : String) : Bool :=
  path.toList.contains (Char.ofNat 0)

/-- Something stands at the path. -/
def exists? (t : FileTree) (path : String) : Bool :=
  !hasNull path &&
    match t.inspect path with
    | .ok _ => true
    | .error _ => false

/-- A directory stands at the path. -/
def isDirectory (t : FileTree) (path : String) : Bool :=
  !hasNull path &&
    match t.inspect path with
    | .ok .directory => true
    | _ => false

/-- The path is that of a link. -/
def isLink (t : FileTree) (path : String) : Bool :=
  !hasNull path &&
    match t.locate false path with
    | .ok place =>
      match t.at? place with
      | some (.link _) => true
      | _ => false
    | .error _ => false

/-! ## Reading and writing -/

/-- Names the path in a refusal. -/
def refuse {α : Type} (path : String) : Except Refusal α → Except PathFault α
  | .ok a => .ok a
  | .error refusal => .error (.refused refusal path)

/-- The bytes of a file. -/
def read (t : FileTree) (path : String) : Except PathFault (List UInt8) := do
  if hasNull path then throw .nullCharacter
  match ← refuse path (t.inspect path) with
  | .file bytes => return bytes
  | .directory => throw (.refused .isDirectory path)
  | .link _ => throw (.refused .tooManyLinks path)

/-- Writes a file, a new one or in place of the old one. At a link the file is written that the link
leads to. -/
def write (t : FileTree) (path : String) (bytes : List UInt8) : Except PathFault FileTree := do
  if hasNull path then throw .nullCharacter
  let place ← refuse path (t.locate true path)
  if endsInSlash path then throw (.refused .isDirectory path)
  match t.at? place with
  | some .directory => throw (.refused .isDirectory path)
  | _ => return t.put place (.file bytes)

/-- Removes a file, or a link but not what it leads to. -/
def remove (t : FileTree) (path : String) : Except PathFault FileTree := do
  if hasNull path then throw .nullCharacter
  let place ← refuse path (t.locate false path)
  match t.at? place with
  | none => throw (.refused .notFound path)
  | some .directory => throw (.refused .isDirectory path)
  | some _ =>
    if endsInSlash path then throw (.refused .notDirectory path) else return t.erase place

/-! ## Making directories -/

/-- Makes one directory; its parent must be there. -/
def makeDirectory (t : FileTree) (d : Denials) (path : String) : Except PathFault FileTree := do
  if hasNull path then throw .nullCharacter
  let place ← refuse path (t.locate false path)
  match t.at? place with
  | some _ => throw (.refused .exists path)
  | none => d.check t .makeDirectory path (.ok (t.put place .directory))

/-- Makes a directory whose parent is there. With `mayExist` it is no fault when a directory stands
at the path already. -/
def makeLast (t : FileTree) (d : Denials) (path : String) (mayExist : Bool) :
    FileTree × Except PathFault Unit :=
  match t.makeDirectory d path with
  | .ok t => (t, .ok ())
  | .error fault =>
    if mayExist && t.isDirectory path then (t, .ok ()) else (t, .error fault)

/-- Makes a directory and those above it that are missing, from the top down. What was made before
a fault stays. -/
def makeDirectories (t : FileTree) (d : Denials) (path : List Char) (mayExist : Bool) :
    FileTree × Except PathFault Unit :=
  match hsplit : folderAndName path with
  | (head, tail) =>
    if h : head ≠ [] ∧ tail ≠ [] ∧ t.exists? (String.ofList head) = false then
      have : head.length < path.length := by
        have hlen := length_folderAndName_le path
        have htail : 0 < tail.length := List.length_pos_iff.mpr h.2.1
        simp only [hsplit] at hlen
        omega
      match t.makeDirectories d head mayExist with
      | (t, .error (.refused refusal above)) =>
        -- the parent may have come up in the meantime
        if refusal = .exists then
          if tail = ['.'] then (t, .ok ()) else t.makeLast d (String.ofList path) mayExist
        else (t, .error (.refused refusal above))
      | (t, .error .nullCharacter) => (t, .error .nullCharacter)
      | (t, .ok ()) =>
        if tail = ['.'] then (t, .ok ()) else t.makeLast d (String.ofList path) mayExist
    else t.makeLast d (String.ofList path) mayExist
termination_by path.length

/-! ## Laying out a tree and comparing trees -/

/-- One component further from a place, whatever stands there. -/
def stepFrom (place : List String) (component : String) : List String :=
  if component = "." then place
  else if component = ".." then place.dropLast
  else place ++ [component]

/-- The place that a path names, whatever stands on the way. -/
def placeOf (t : FileTree) (path : String) : List String :=
  (components path).foldl stepFrom (start path t.home)

/-- Puts a directory at each of the places on the way from `place` along the names, where nothing
stands yet, and the node at the end. -/
def plantAt (t : FileTree) (node : FileNode) (place : List String) : List String → FileTree
  | [] => t.put place node
  | name :: rest =>
    let t := if (t.at? place).isSome then t else t.put place .directory
    t.plantAt node (place ++ [name]) rest

/-- Puts a node at a path and makes the directories above it. -/
def plant (t : FileTree) (path : String) (node : FileNode) : FileTree :=
  t.plantAt node [] (t.placeOf path)

/-- An empty working directory. -/
def fresh (home : List String) : FileTree :=
  ⟨(List.range home.length).map fun k => (home.take (k + 1), .directory), home⟩

/-- The places where something new or different stands, compared with an earlier tree. -/
def changedSince (before after : FileTree) : List (List String × FileNode) :=
  after.nodes.filter fun (place, node) => before.at? place ≠ some node

/-- The path of a place below the working directory, relative to it. -/
def relative? (t : FileTree) (place : List String) : Option String :=
  if t.home.isPrefixOf place && t.home.length < place.length then
    some ("/".intercalate (place.drop t.home.length))
  else none

/-- What is new or different below the working directory, by path. A directory is listed with a
slash after its path. -/
def changesSince (before after : FileTree) : List (String × FileNode) :=
  (before.changedSince after).filterMap fun (place, node) =>
    (after.relative? place).map fun path =>
      match node with
      | .directory => (path ++ "/", .directory)
      | node => (path, node)

end FileTree

end TruthTable
