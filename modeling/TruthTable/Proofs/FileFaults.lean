import TruthTable.Proofs.FormulaFiles
import TruthTable.Proofs.Stages

/-!
# Formula files of no use

A formula file that is missing, that the file system refuses, or that holds no
formula is reported as a formula file of no use. Two faults are passed on as
they are and end a run as unexpected ones: a path with a null character, which
the file system does not even look up, and bytes that are no text.

Main results:

* `read_cases`        — what reading a formula file comes to, with the state of
  the file in each case.
* `exit_of_only_file` — how a run ends that is asked for one formula file only.
* `only_undecodable_files_escape` — the faults that are not reported as faults
  of a formula file, and when they come up.
-/

namespace TruthTable

/-- Bytes cannot be decoded exactly when they are the encoding of no text. -/
theorem Text.exists_decode_error_iff {bytes : List UInt8} :
    (∃ fault, Text.decode bytes = .error fault) ↔ ∀ text, bytes ≠ Text.encode text := by
  constructor
  · rintro ⟨fault, hFault⟩ text hBytes
    rw [Text.decode_eq_ok_iff.mpr hBytes] at hFault
    cases hFault
  · intro h
    cases hDecode : Text.decode bytes with
    | ok text => exact absurd (Text.decode_eq_ok_iff.mp hDecode) (h text)
    | error fault => exact ⟨fault, rfl⟩

/-- Nothing but a null character in the path is refused as one. -/
theorem FileTree.read_eq_null_iff {t : FileTree} {path : String} :
    t.read path = .error .nullCharacter ↔ FileTree.hasNull path = true := by
  rw [FileTree.read_eq_inspect]
  split
  · rename_i hNull
    exact ⟨fun _ => hNull, fun _ => rfl⟩
  · rename_i hNull
    refine ⟨fun h => ?_, fun h => absurd h hNull⟩
    split at h <;> cases h

namespace FormulaFile

/-- The file is missing or the file system refuses it, or its text has no
formulas. -/
def OfNoUse (files : FileTree) (path : Path) : Prop :=
  (∃ refusal refused, files.read path.text = .error (.refused refusal refused)) ∨
    ∃ text, files.read path.text = .ok (Text.encode text) ∧ formulas text = []

/-- The file holds bytes that are no text. -/
def Undecodable (files : FileTree) (path : Path) : Prop :=
  ∃ bytes, files.read path.text = .ok bytes ∧ ∀ text, bytes ≠ Text.encode text

/-- What reading a formula file comes to. -/
inductive Reading (files : FileTree) (path : Path) : Except Fault (List String) → Prop
  | formulas {found} : found ≠ [] → Reading files path (.ok found)
  | ofNoUse {cause} : OfNoUse files path → Reading files path (.error (.formulaFile cause))
  | null : FileTree.hasNull path.text = true → Reading files path (.error (.path .nullCharacter))
  | undecodable {fault} : Undecodable files path → Reading files path (.error (.decoding fault))

/-- Reading a formula file comes to one of four ends. -/
theorem read_cases (files : FileTree) (path : Path) : Reading files path (read files path) := by
  unfold read
  split
  · rename_i hNull
    exact .null (FileTree.read_eq_null_iff.mp hNull)
  · rename_i refused hFile
    exact .ofNoUse (.inl ⟨_, _, hFile⟩)
  · rename_i refusal refused _ hFile
    exact .ofNoUse (.inl ⟨_, _, hFile⟩)
  · rename_i bytes hFile
    split
    · rename_i fault hDecode
      exact .undecodable ⟨bytes, hFile, Text.exists_decode_error_iff.mp ⟨fault, hDecode⟩⟩
    · rename_i text hDecode
      obtain rfl := Text.decode_eq_ok_iff.mp hDecode
      split
      · rename_i hNone
        exact .ofNoUse (.inr ⟨text, hFile, hNone⟩)
      · rename_i hSome
        exact .formulas hSome

variable {files : FileTree} {path : Path}

/-- The fault of a formula file tells that the file is of no use, and nothing
else does. -/
theorem exists_cause_iff :
    (∃ cause, read files path = .error (.formulaFile cause)) ↔ OfNoUse files path := by
  constructor
  · rintro ⟨cause, hRead⟩
    have hCases := read_cases files path
    rw [hRead] at hCases
    cases hCases with
    | ofNoUse h => exact h
  · rintro (⟨refusal, refused, hFile⟩ | ⟨text, hFile, hNone⟩)
    · unfold read
      rw [hFile]
      cases refusal <;> exact ⟨_, rfl⟩
    · exact ⟨_, read_of_no_formulas hFile hNone⟩

/-- A null character in the path is told apart from the other faults. -/
theorem read_eq_null_iff :
    read files path = .error (.path .nullCharacter) ↔ FileTree.hasNull path.text = true := by
  constructor
  · intro hRead
    have hCases := read_cases files path
    rw [hRead] at hCases
    cases hCases with
    | null h => exact h
  · intro hNull
    simp only [read, FileTree.read_eq_null_iff.mpr hNull]

/-- The fault of decoding tells that the bytes are no text. -/
theorem exists_decoding_iff :
    (∃ fault, read files path = .error (.decoding fault)) ↔ Undecodable files path := by
  constructor
  · rintro ⟨fault, hRead⟩
    have hCases := read_cases files path
    rw [hRead] at hCases
    cases hCases with
    | undecodable h => exact h
  · rintro ⟨bytes, hFile, hText⟩
    obtain ⟨fault, hDecode⟩ := Text.exists_decode_error_iff.mpr hText
    exact ⟨fault, by simp only [read, hFile, hDecode]⟩

end FormulaFile

namespace Command

/-- Nothing is asked for but the formulas of one file. -/
structure OnlyFile (o : Options) (name : String) : Prop where
  file_eq : o.file = some (.text name)
  expressions_eq : o.expressions = []
  folder_eq : o.folder = none

variable {o : Options} {s : Surroundings} {name : String}

/-- A file that is read ends the run well, or one of its lines is no formula. -/
theorem exit_of_read_ok (hs : s.interrupted = false) (hOnly : OnlyFile o name)
    {found : List String} (hRead : FormulaFile.read s.files (.ofString name) = .ok found) :
    (carryOut o s).exit = 0 ∨ (carryOut o s).exit = 2 := by
  have hFound : Obtained o s.files (o.expressions ++ found.map .text) :=
    .file hOnly.file_eq hRead
  rcases parsed_or_refused _ with ⟨formulas, hParsed⟩ | ⟨cause, hRefused⟩
  · obtain ⟨formulas, hChosen⟩ := exists_chosen hFound hParsed
    rcases carryOut_of_chosen hs hChosen with ⟨hExit, -⟩ | ⟨-, hFolder, -⟩
    · exact .inl hExit
    · exact absurd hOnly.folder_eq hFolder
  · exact .inr (carryOut_of_refused hs hFound hRefused).1

/-- A file that is not read ends the run with the code of the fault. -/
theorem exit_of_read_error (hs : s.interrupted = false) (hOnly : OnlyFile o name) {fault : Fault}
    (hRead : FormulaFile.read s.files (.ofString name) = .error fault) :
    (carryOut o s).exit = (ending fault).1 := by
  have hSources : sources o s.files = .error fault := by
    simp only [sources, hOnly.file_eq, fromFile, hRead]
    rfl
  exact (carryOut_of_sources_error hs hSources).1

/-- **How a run ends that is asked for one formula file only.** -/
theorem exit_of_only_file (hs : s.interrupted = false) (hOnly : OnlyFile o name) :
    ((carryOut o s).exit = 3 ↔ FormulaFile.OfNoUse s.files (.ofString name)) ∧
    ((carryOut o s).exit = 5 ↔ FileTree.hasNull (Path.ofString name).text = true ∨
      FormulaFile.Undecodable s.files (.ofString name)) := by
  have hNull := @FormulaFile.read_eq_null_iff s.files (.ofString name)
  rw [← FormulaFile.exists_cause_iff, ← FormulaFile.exists_decoding_iff, ← hNull]
  have hCases := FormulaFile.read_cases s.files (.ofString name)
  generalize hRead : FormulaFile.read s.files (.ofString name) = outcome at hCases
  cases hCases with
  | formulas =>
    rcases exit_of_read_ok hs hOnly hRead with hExit | hExit <;> simp [hExit]
  | ofNoUse => simp [exit_of_read_error hs hOnly hRead, ending]
  | null => simp [exit_of_read_error hs hOnly hRead, ending]
  | undecodable => simp [exit_of_read_error hs hOnly hRead, ending]

/--
**Only undecodable files and null characters escape.** Reading a formula file
gives formulas or the fault of a formula file of no use exactly when its path has
no null character and the file holds no bytes that are no text; otherwise one of
these two is the fault. A run that is asked for this file only ends in 3 exactly
when the file is missing, refused or without formulas, and in 5 exactly when one
of the two other faults comes up.
-/
theorem only_undecodable_files_escape (files : FileTree) (path : Path) :
    ((∃ found, found ≠ [] ∧ FormulaFile.read files path = .ok found) ∨
        (∃ cause, FormulaFile.read files path = .error (.formulaFile cause)) ↔
      ¬ (FileTree.hasNull path.text = true ∨ FormulaFile.Undecodable files path)) ∧
    ((∃ cause, FormulaFile.read files path = .error (.formulaFile cause)) ↔
      FormulaFile.OfNoUse files path) ∧
    (FormulaFile.read files path = .error (.path .nullCharacter) ↔
      FileTree.hasNull path.text = true) ∧
    ((∃ fault, FormulaFile.read files path = .error (.decoding fault)) ↔
      FormulaFile.Undecodable files path) ∧
    ∀ (o : Options) (s : Surroundings) (name : String), s.files = files →
      Path.ofString name = path → s.interrupted = false → OnlyFile o name →
      ((carryOut o s).exit = 3 ↔ FormulaFile.OfNoUse files path) ∧
      ((carryOut o s).exit = 5 ↔
        FileTree.hasNull path.text = true ∨ FormulaFile.Undecodable files path) := by
  refine ⟨?_, FormulaFile.exists_cause_iff, FormulaFile.read_eq_null_iff,
    FormulaFile.exists_decoding_iff, ?_⟩
  · rw [← FormulaFile.read_eq_null_iff, ← FormulaFile.exists_decoding_iff]
    have hCases := FormulaFile.read_cases files path
    generalize FormulaFile.read files path = outcome at hCases
    cases hCases with
    | formulas hSome => simp [hSome]
    | ofNoUse => simp
    | null => simp
    | undecodable => simp
  · rintro o s name rfl rfl hs hOnly
    exact exit_of_only_file hs hOnly

/-- A name and a byte that starts no character. -/
theorem only_undecodable_files_escape_sample :
    let o : Options := { Options.standard with file := some (.text "f") }
    let s : Surroundings :=
      ⟨⟨[(["f"], .file [0x70, 0xFF])], []⟩, Layout.works, false, Graph.usualRoom, .nothing⟩
    OnlyFile o "f" ∧ FormulaFile.Undecodable s.files (.ofString "f") ∧ (carryOut o s).exit = 5 := by
  have hFile : ∀ bytes, FileTree.read ⟨[(["f"], .file bytes)], []⟩ (Path.ofString "f").text =
      .ok bytes := fun bytes => rfl
  have hDecode : Text.decode [0x70, 0xFF] = .error ⟨0xFF, 1, 1, .invalidStart⟩ := by
    simp [Text.decode, Text.decodeBlocks, Text.decodeBlock, Text.utf8Head, Text.isCutSurrogate,
      Text.blockSize]
  have hBytes : FormulaFile.Undecodable ⟨[(["f"], .file [0x70, 0xFF])], []⟩ (.ofString "f") :=
    ⟨_, hFile _, Text.exists_decode_error_iff.mp ⟨_, hDecode⟩⟩
  have hOnly : OnlyFile { Options.standard with file := some (.text "f") } "f" := ⟨rfl, rfl, rfl⟩
  obtain ⟨-, -, -, -, hRun⟩ := only_undecodable_files_escape
    ⟨[(["f"], .file [0x70, 0xFF])], []⟩ (.ofString "f")
  have hExit := (hRun _ ⟨_, Layout.works, false, Graph.usualRoom, .nothing⟩ "f" rfl rfl rfl
    hOnly).2.mpr (.inr hBytes)
  exact ⟨hOnly, hBytes, hExit⟩

/-- A formula file is there, holds one byte and is of no use, but the run does not
end in 3: the byte is no text. -/
theorem undecodable_byte_ends_run :
    FormulaFile.read ⟨[(["f"], .file [0xFF])], []⟩ (.ofString "f") =
      .error (.decoding ⟨0xFF, 0, 1, .invalidStart⟩) ∧
    (carryOut { Options.standard with file := some (.text "f") }
      ⟨⟨[(["f"], .file [0xFF])], []⟩, Layout.works, false, Graph.usualRoom, .nothing⟩).exit =
        5 := by
  have hRead : FormulaFile.read ⟨[(["f"], .file [0xFF])], []⟩ (.ofString "f") =
      .error (.decoding ⟨0xFF, 0, 1, .invalidStart⟩) := by
    have hFile : FileTree.read ⟨[(["f"], .file [0xFF])], []⟩ (Path.ofString "f").text =
        .ok [0xFF] := rfl
    have hDecode : Text.decode [0xFF] = .error ⟨0xFF, 0, 1, .invalidStart⟩ := by
      simp [Text.decode, Text.decodeBlocks, Text.decodeBlock, Text.utf8Head, Text.isCutSurrogate]
    simp only [FormulaFile.read, hFile, hDecode]
  have hOnly : OnlyFile { Options.standard with file := some (.text "f") } "f" := ⟨rfl, rfl, rfl⟩
  have hExit := exit_of_read_error
    (s := ⟨⟨[(["f"], .file [0xFF])], []⟩, Layout.works, false, Graph.usualRoom, .nothing⟩) rfl
    hOnly hRead
  exact ⟨hRead, hExit.trans rfl⟩

end Command

end TruthTable
