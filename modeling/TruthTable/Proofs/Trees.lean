import TruthTable.Proofs.Following
import TruthTable.Proofs.Paths

/-!
# Folders and the files in them

A folder is a path in normal form that leads to a directory. The path of a name
below it leads to a place in that directory, unless a link stands there, and
does so in both of its spellings. Changing files in a directory leaves all
directories and links as they are, and with them every way through the tree.

Main results:

* `locate_text_iff`        — the place that a path in normal form leads to.
* `isDirectory_text_iff`   — the folders: paths in normal form of directories.
* `IsFolder.leads_joinPath`, `IsFolder.leads_below` — the place of a name below
  a folder, by the two spellings of its path.
* `IsFolder.free_joinPath` — when a file can be written there.
* `Filed.closed`, `Filed.isFolder` — changing files keeps all this.
-/

namespace TruthTable.FileTree

variable {t t' : FileTree} {place next : List String} {x path : String} {p : Path}
  {through : Bool}

-- ---------------------------------------------------------------------------
-- Looking up paths
-- ---------------------------------------------------------------------------

/-- Where a path in normal form starts. -/
def origin (t : FileTree) (p : Path) : List String :=
  if p.root = "" then t.home else []

/-- A path starts at a directory. -/
theorem Closed.at?_origin (ht : t.Closed) (p : Path) : t.at? (t.origin p) = some .directory := by
  unfold origin
  split
  · exact ht.home
  · rfl

/-- A path that is not empty and not too long leads where its components lead. -/
theorem locate_eq_ok_iff : t.locate through path = .ok place ↔
    path ≠ "" ∧ path.utf8ByteSize ≤ longestPath ∧
      t.Follows through mostLinks (start path t.home) (components path) place := by
  rw [← follow_eq_ok_iff]
  unfold locate
  by_cases hEmpty : path = ""
  · simp [hEmpty]
  · by_cases hSize : longestPath < path.utf8ByteSize
    · simp [hEmpty, hSize, Nat.not_le_of_lt hSize]
    · simp [hEmpty, hSize, Nat.le_of_not_lt hSize]

/-- The text of a path starts where the path does. -/
theorem start_text (hp : p.Proper) : start p.text t.home = t.origin p := by
  unfold origin start
  by_cases hRoot : p.root = ""
  · rw [if_pos hRoot, if_neg (fun h => (Path.head_text hp).mp h hRoot)]
  · rw [if_neg hRoot, if_pos ((Path.head_text hp).mpr hRoot)]

/-- The components of the text are those of the path, but for the single dot. -/
theorem follows_components_iff (hp : p.Proper) :
    t.Follows through mostLinks place (components p.text) next ↔
      t.Follows through mostLinks place p.parts next := by
  by_cases h : p = Path.here
  · subst h
    rw [← follow_eq_ok_iff, ← follow_eq_ok_iff]
    exact Iff.of_eq (congrArg (· = _) (follow_here t through mostLinks place []))
  · rw [Path.components_text hp h]

/-- The place that a path in normal form leads to. -/
theorem locate_text_iff (hp : p.Proper) : t.locate through p.text = .ok place ↔
    p.text.utf8ByteSize ≤ longestPath ∧
      t.Follows through mostLinks (t.origin p) p.parts place := by
  rw [locate_eq_ok_iff, start_text hp, follows_components_iff hp]
  exact and_iff_right (Path.text_ne_empty hp)

/-- What stands at a path stands at its place. -/
theorem inspect_of_locate (h : t.locate true path = .ok place) : t.inspect path =
    match t.at? place with
    | none => .error .notFound
    | some (.file bytes) => if endsInSlash path then .error .notDirectory else .ok (.file bytes)
    | some (.link _) => .error .tooManyLinks
    | some .directory => .ok .directory := by
  rw [inspect, h, ok_bind]
  cases t.at? place with
  | none => rfl
  | some node =>
    cases node with
    | file bytes => cases endsInSlash path <;> rfl
    | directory => rfl
    | link target => rfl

/-- The path of a directory leads to it. -/
theorem isDirectory_iff : t.isDirectory path = true ↔
    hasNull path = false ∧
      ∃ place, t.locate true path = .ok place ∧ t.at? place = some .directory := by
  rw [isDirectory, Bool.and_eq_true, Bool.not_eq_true']
  refine and_congr_right fun _ => ?_
  cases hLocate : t.locate true path with
  | error refusal => simp [inspect, hLocate, bind, Except.bind]
  | ok place =>
    rw [inspect_of_locate hLocate]
    cases hNode : t.at? place with
    | none => simp [hNode]
    | some node =>
      cases node with
      | file bytes => cases endsInSlash path <;> simp [hNode]
      | directory => simp [hNode]
      | link target => simp [hNode]

/-- The path of a link leads to it when links at the end are not followed. -/
theorem isLink_iff : t.isLink path = true ↔
    hasNull path = false ∧
      ∃ place target, t.locate false path = .ok place ∧ t.at? place = some (.link target) := by
  rw [isLink, Bool.and_eq_true, Bool.not_eq_true']
  refine and_congr_right fun _ => ?_
  cases hLocate : t.locate false path with
  | error refusal => simp
  | ok place =>
    cases hNode : t.at? place with
    | none => simp [hNode]
    | some node =>
      cases node with
      | file bytes => simp [hNode]
      | directory => simp [hNode]
      | link target => simp [hNode]

/-- A directory is something that exists. -/
theorem exists_of_isDirectory (h : t.isDirectory path = true) : t.exists? path = true := by
  obtain ⟨hNull, place, hLocate, hThere⟩ := isDirectory_iff.mp h
  simp [exists?, hNull, inspect_of_locate hLocate, hThere]

-- ---------------------------------------------------------------------------
-- The path of a file
-- ---------------------------------------------------------------------------

/-- The path leads to the place, where a file can stand. -/
structure Leads (t : FileTree) (path : String) (place : List String) : Prop where
  no_null : hasNull path = false
  no_slash : endsInSlash path = false
  locate_eq : t.locate true path = .ok place

namespace Leads

variable (h : t.Leads path place)
include h

/-- A directory at the path is one at its place. -/
theorem isDirectory_iff : t.isDirectory path = true ↔ t.at? place = some .directory := by
  rw [FileTree.isDirectory_iff]
  simp [h.no_null, h.locate_eq]

/-- The file at the place is read. -/
theorem read_eq {bytes : List UInt8} (hFile : t.at? place = some (.file bytes)) :
    t.read path = .ok bytes := by
  have hInspect : t.inspect path = .ok (.file bytes) := by
    rw [inspect_of_locate h.locate_eq, hFile]
    simp [h.no_slash]
  simp [read, h.no_null, hInspect, refuse]
  rfl

/-- The file at the place is written. -/
theorem write_eq (hFile : t.at? place ≠ some .directory) (bytes : List UInt8) :
    t.write path bytes = .ok (t.put place (.file bytes)) := by
  simp only [write, h.no_null, h.locate_eq, refuse, h.no_slash, ok_bind]
  cases hNode : t.at? place with
  | none => rfl
  | some node =>
    cases node with
    | file old => rfl
    | directory => exact absurd hNode hFile
    | link target => rfl

/-- The file at the place is removed, unless the path is that of a link to it. -/
theorem remove_eq {bytes : List UInt8} (hLocate : t.locate false path = .ok place)
    (hFile : t.at? place = some (.file bytes)) : t.remove path = .ok (t.erase place) := by
  simp only [remove, h.no_null, hLocate, refuse, ok_bind, hFile, h.no_slash]
  rfl

/-- A path leads where it led when directories and links are added, unless its
end has become a link. -/
theorem mono (hKeeps : t.Keeps t') (hNext : ∀ target, t'.at? place ≠ some (.link target)) :
    t'.Leads path place where
  no_null := h.no_null
  no_slash := h.no_slash
  locate_eq := by
    obtain ⟨hEmpty, hSize, hFollows⟩ := locate_eq_ok_iff.mp h.locate_eq
    rw [← hKeeps.home_eq] at hFollows
    exact locate_eq_ok_iff.mpr ⟨hEmpty, hSize, hFollows.mono hKeeps id fun _ => hNext⟩

end Leads

-- ---------------------------------------------------------------------------
-- Folders, and names below them
-- ---------------------------------------------------------------------------

/-- The path is that of a directory, which stands at the place. -/
structure IsFolder (t : FileTree) (p : Path) (place : List String) : Prop where
  no_null : hasNull p.text = false
  size_le : p.text.utf8ByteSize ≤ longestPath
  follows : t.Follows true mostLinks (t.origin p) p.parts place
  there : t.at? place = some .directory

/-- The folders are the paths in normal form of directories. -/
theorem isDirectory_text_iff (hp : p.Proper) :
    t.isDirectory p.text = true ↔ ∃ place, t.IsFolder p place := by
  rw [isDirectory_iff]
  constructor
  · rintro ⟨hNull, place, hLocate, hThere⟩
    obtain ⟨hSize, hFollows⟩ := (locate_text_iff hp).mp hLocate
    exact ⟨place, hNull, hSize, hFollows, hThere⟩
  · rintro ⟨place, hNull, hSize, hFollows, hThere⟩
    exact ⟨hNull, place, (locate_text_iff hp).mpr ⟨hSize, hFollows⟩, hThere⟩

/-- A folder is something that exists. -/
theorem IsFolder.exists_text (hp : p.Proper) (h : t.IsFolder p place) :
    t.exists? p.text = true :=
  exists_of_isDirectory ((isDirectory_text_iff hp).mpr ⟨place, h⟩)

/-- A folder stays where it is when directories and links are added. -/
theorem IsFolder.mono (h : t.IsFolder p place) (hKeeps : t.Keeps t') : t'.IsFolder p place where
  no_null := h.no_null
  size_le := h.size_le
  follows := by
    have hOrigin : t'.origin p = t.origin p := by rw [origin, origin, hKeeps.home_eq]
    rw [hOrigin]
    exact h.follows.mono hKeeps id fun _ => by simp [hKeeps.directory _ h.there]
  there := hKeeps.directory _ h.there

/-- A name that a file can have. -/
structure FileName (x : String) : Prop extends Component x where
  ne_up : x ≠ ".."
  size_le : x.utf8ByteSize ≤ longestName
  no_null : hasNull x = false

/-- The name of a file is looked up in the directory. -/
theorem FileName.plain (hx : FileName x) : Plain x :=
  ⟨hx.ne_dot, hx.ne_up, hx.size_le⟩

theorem hasNull_append (s u : String) : hasNull (s ++ u) = (hasNull s || hasNull u) := by
  rw [hasNull, hasNull, hasNull, String.toList_append, List.contains_append]

/-- Joining a folder and a name brings in no null character. -/
theorem hasNull_joinPath (folder : String) (hx : Component x) :
    hasNull (joinPath folder x) = (hasNull folder || hasNull x) := by
  have hSlash : hasNull "/" = false := by decide
  rcases joinPath_cases folder hx with ⟨hJoin, -⟩ | ⟨hJoin, -⟩
  · rw [hJoin, hasNull_append]
  · rw [hJoin, hasNull_append, hasNull_append, hSlash, Bool.or_false]

/-- A folder below a path makes a folder of the path. -/
theorem IsFolder.above (ht : t.Closed) (h : t.IsFolder (p.below x) place) (hp : p.Proper)
    (hHere : p ≠ Path.here) (hx : Component x) : ∃ above, t.IsFolder p above := by
  have hNull := h.no_null
  have hSize := h.size_le
  rw [Path.text_below hp hHere hx] at hNull hSize
  rw [hasNull_joinPath _ hx, Bool.or_eq_false_iff] at hNull
  obtain ⟨above, hAbove, hThere⟩ := h.follows.front ht (ht.at?_origin _) h.there
  exact ⟨above, hNull.1, (size_le_joinPath _ hx).trans hSize, hAbove, hThere⟩

/-- A name below a folder whose path can be followed. -/
structure Fits (p : Path) (x : String) : Prop extends FileName x where
  path_le : (joinPath p.text x).utf8ByteSize ≤ longestPath

/-- The path of a folder has no null character, so neither has that of a name below it. -/
theorem IsFolder.no_null_joinPath (h : t.IsFolder p place) (hx : Fits p x) :
    hasNull (joinPath p.text x) = false := by
  rw [hasNull_joinPath _ hx.toComponent, h.no_null, hx.no_null]
  rfl

/-- The place of a name below a folder, the folder and the name joined. -/
theorem IsFolder.locate_joinPath (hp : p.Proper) (h : t.IsFolder p place) (hx : Fits p x)
    (hNext : through = true → ∀ target, t.at? (place ++ [x]) ≠ some (.link target)) :
    t.locate through (joinPath p.text x) = .ok (place ++ [x]) := by
  have hFolder := Path.text_ne_empty hp
  refine locate_eq_ok_iff.mpr ⟨?_, hx.path_le, ?_⟩
  · intro hEmpty
    have hHead := head_joinPath hFolder hx.toComponent
    rw [hEmpty] at hHead
    exact hFolder (String.toList_eq_nil_iff.mp (List.head?_eq_none_iff.mp hHead.symm))
  · have hStart : start (joinPath p.text x) t.home = t.origin p := by
      rw [start, head_joinPath hFolder hx.toComponent, ← start_text hp, start]
    rw [hStart, components_joinPath _ hx.toComponent]
    exact ((follows_components_iff hp).mpr h.follows).concat h.there hx.plain hNext

/-- A name below a folder, the folder and the name joined. -/
theorem IsFolder.leads_joinPath (hp : p.Proper) (h : t.IsFolder p place) (hx : Fits p x)
    (hNext : ∀ target, t.at? (place ++ [x]) ≠ some (.link target)) :
    t.Leads (joinPath p.text x) (place ++ [x]) where
  no_null := h.no_null_joinPath hx
  no_slash := endsInSlash_joinPath _ hx.toComponent
  locate_eq := h.locate_joinPath hp hx fun _ => hNext

/-- A name below a folder, in normal form. -/
theorem IsFolder.leads_below (hp : p.Proper) (h : t.IsFolder p place) (hx : Fits p x)
    (hNext : ∀ target, t.at? (place ++ [x]) ≠ some (.link target)) :
    t.Leads (p.below x).text (place ++ [x]) := by
  by_cases hHere : p = Path.here
  · subst hHere
    have hLocate : t.locate true (Path.here.below x).text = .ok (place ++ [x]) := by
      refine (locate_text_iff (hp.below hx.toComponent)).mpr ⟨?_, ?_⟩
      · rw [Path.text_below_here]
        exact hx.size_le.trans (by decide)
      · exact h.follows.concat h.there hx.plain fun _ => hNext
    have hSlash : endsInSlash x = false := by
      rw [endsInSlash, decide_eq_false_iff_not]
      exact fun h => hx.no_slash (List.mem_of_getLast? h)
    rw [Path.text_below_here] at hLocate ⊢
    exact ⟨hx.no_null, hSlash, hLocate⟩
  · rw [Path.text_below hp hHere hx.toComponent]
    exact h.leads_joinPath hp hx hNext

/-- Neither a directory nor a link stands at the path. -/
structure Clear (t : FileTree) (path : String) : Prop where
  no_directory : t.isDirectory path = false
  no_link : t.isLink path = false

/-- Where the path of a name below a folder is clear, the place of the name is
free. -/
theorem IsFolder.free_joinPath (hp : p.Proper) (h : t.IsFolder p place) (hx : Fits p x)
    (hClear : t.Clear (joinPath p.text x)) : Free (t.at? (place ++ [x])) := by
  have hNext : ∀ target, t.at? (place ++ [x]) ≠ some (.link target) := by
    intro target hThere
    have hIs := isLink_iff.mpr
      ⟨h.no_null_joinPath hx, _, target, h.locate_joinPath hp hx nofun, hThere⟩
    rw [hClear.no_link] at hIs
    cases hIs
  refine free_iff.mpr ⟨fun hThere => ?_, hNext⟩
  have hIs := (h.leads_joinPath hp hx hNext).isDirectory_iff.mpr hThere
  rw [hClear.no_directory] at hIs
  cases hIs

-- ---------------------------------------------------------------------------
-- Changing files in a directory
-- ---------------------------------------------------------------------------

/-- Nothing changes but files that stand in the directory at the place. -/
structure Filed (place : List String) (t t' : FileTree) : Prop where
  home_eq : t'.home = t.home
  at?_cases : ∀ q, t'.at? q = t.at? q ∨ q.dropLast = place ∧ Free (t.at? q) ∧ Free (t'.at? q)

theorem Filed.refl (place : List String) (t : FileTree) : Filed place t t :=
  ⟨rfl, fun _ => .inl rfl⟩

theorem Filed.trans {t₁ t₂ : FileTree} (h : Filed place t t₁) (h' : Filed place t₁ t₂) :
    Filed place t t₂ where
  home_eq := h'.home_eq.trans h.home_eq
  at?_cases := by
    intro q
    rcases h.at?_cases q with hSame | ⟨hPlace, hBefore, hAfter⟩
    · rw [← hSame]
      exact h'.at?_cases q
    · rcases h'.at?_cases q with hSame | ⟨-, -, hAfter⟩
      · exact .inr ⟨hPlace, hBefore, hSame ▸ hAfter⟩
      · exact .inr ⟨hPlace, hBefore, hAfter⟩

/-- Directories and links are not files. -/
theorem Filed.keeps (h : Filed place t t') : t.Keeps t' where
  home_eq := h.home_eq
  directory := by
    intro q hq
    rcases h.at?_cases q with hSame | ⟨-, hBefore, -⟩
    · rw [hSame, hq]
    · exact absurd hq hBefore.ne_directory
  link := by
    intro q target hq
    rcases h.at?_cases q with hSame | ⟨-, hBefore, -⟩
    · rw [hSame, hq]
    · exact absurd hq (hBefore.ne_link target)

/-- What was free stays free. -/
theorem Filed.free (h : Filed place t t') {q : List String} (hq : Free (t.at? q)) :
    Free (t'.at? q) := by
  rcases h.at?_cases q with hSame | ⟨-, -, hAfter⟩
  · rwa [hSame]
  · exact hAfter

/-- The files stand in a directory, so the tree stays closed. -/
theorem Filed.closed (h : Filed place t t') (ht : t.Closed)
    (hPlace : t.at? place = some .directory) : t'.Closed := by
  refine h.keeps.closed ht fun q hq => ?_
  rcases h.at?_cases q with hSame | ⟨hAbove, -⟩
  · exact .inl (hSame ▸ hq)
  · exact .inr (hAbove ▸ hPlace)

/-- A folder stays where it is when files are changed. -/
theorem Filed.isFolder (h : Filed place t t') (hFolder : t.IsFolder p next) : t'.IsFolder p next :=
  hFolder.mono h.keeps

/-- Writing a file. -/
theorem filed_put (hFree : Free (t.at? (place ++ [x]))) (bytes : List UInt8) :
    Filed place t (t.put (place ++ [x]) (.file bytes)) where
  home_eq := rfl
  at?_cases := by
    intro q
    by_cases hq : q = place ++ [x]
    · subst hq
      refine .inr ⟨List.dropLast_concat, hFree, ?_⟩
      rw [at?_put hFree.ne_nil, if_pos rfl]
      exact .file bytes
    · exact .inl (by simp [at?_put, hq])

/-- Removing a file. -/
theorem filed_erase (hFree : Free (t.at? (place ++ [x]))) :
    Filed place t (t.erase (place ++ [x])) where
  home_eq := rfl
  at?_cases := by
    intro q
    by_cases hq : q = place ++ [x]
    · subst hq
      refine .inr ⟨List.dropLast_concat, hFree, ?_⟩
      rw [at?_erase hFree.ne_nil, if_pos rfl]
      exact .nothing
    · exact .inl (by simp [at?_erase, hq])

end TruthTable.FileTree
