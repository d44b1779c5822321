/-!
# Paths

Paths as texts, and their normal form. Components are separated by slashes; empty components and
the component `.` mean nothing and are dropped from the normal form, while `..` is kept. A path that
starts with exactly two slashes is kept apart from one that starts with one, or with three or more.
-/

namespace TruthTable

/-! ## Components -/

/-- The pieces of a text between slashes, empty pieces included. -/
def splitSlashes : List Char → List (List Char)
  | [] => [[]]
  | c :: rest =>
    if c = '/' then [] :: splitSlashes rest
    else
      match splitSlashes rest with
      | [] => [[c]]
      | piece :: pieces => (c :: piece) :: pieces

/-- The components of a path, `.` and `..` among them. -/
def components (path : String) : List String :=
  ((splitSlashes path.toList).map String.ofList).filter fun p => !p.isEmpty

/-- A path that ends in a slash, and can only be a directory. -/
def endsInSlash (path : String) : Bool :=
  path.toList.getLast? = some '/'

/-- A path in normal form. -/
structure Path where
  /-- The slashes that the path starts with: none, one, or two. -/
  root : String
  /-- The components. -/
  parts : List String

namespace Path

/-- The normal form of a path. -/
def ofString (s : String) : Path :=
  let slashes := (s.toList.takeWhile (· = '/')).length
  ⟨if slashes = 0 then "" else if slashes = 2 then "//" else "/",
    (components s).filter (· != ".")⟩

/-- The text of a path in normal form; the path without root and components is `.`. -/
def text (p : Path) : String :=
  if p.root.isEmpty && p.parts.isEmpty then "." else p.root ++ "/".intercalate p.parts

/-- The last component. -/
def name (p : Path) : String :=
  p.parts.getLast?.getD ""

end Path

/-! ## Joining and splitting texts -/

/-- `name` below `folder`, unless `name` starts at the root. -/
def joinPath (folder name : String) : String :=
  if name.toList.head? = some '/' then name
  else if folder.isEmpty || folder.toList.getLast? = some '/' then folder ++ name
  else folder ++ "/" ++ name

/-- What comes before the last slash, and what comes after it. Slashes at the end of the first part
are dropped unless it has nothing else. -/
def splitLast (path : List Char) : List Char × List Char :=
  let back := path.reverse
  let tail := (back.takeWhile (· ≠ '/')).reverse
  let front := back.dropWhile (· ≠ '/')
  let stripped := (front.dropWhile (· = '/')).reverse
  (if stripped.isEmpty then front.reverse else stripped, tail)

theorem length_dropWhile_le {α : Type} (p : α → Bool) (xs : List α) :
    (xs.dropWhile p).length ≤ xs.length :=
  (List.dropWhile_sublist p).length_le

/-- Cutting a path makes it no longer. -/
theorem length_splitLast_le (path : List Char) :
    (splitLast path).1.length + (splitLast path).2.length ≤ path.length := by
  have hfront := length_dropWhile_le (· = '/') (path.reverse.dropWhile (· ≠ '/'))
  have hsum : (path.reverse.takeWhile (· ≠ '/')).length +
      (path.reverse.dropWhile (· ≠ '/')).length = path.length := by
    rw [← List.length_append, List.takeWhile_append_dropWhile, List.length_reverse]
  simp only [splitLast]
  split <;> simp only [List.length_reverse] <;> omega

/-- The folder that holds a path, and the path's own name. A slash at the end is passed over. -/
def folderAndName (path : List Char) : List Char × List Char :=
  let (head, tail) := splitLast path
  if tail.isEmpty then splitLast head else (head, tail)

/-- A folder and a name are no longer than their path. -/
theorem length_folderAndName_le (path : List Char) :
    (folderAndName path).1.length + (folderAndName path).2.length ≤ path.length := by
  have h := length_splitLast_le path
  have h' := length_splitLast_le (splitLast path).1
  simp only [folderAndName]
  split <;> omega

end TruthTable
