import TruthTable.FormulaFile
import TruthTable.Proofs.Lines
import TruthTable.Proofs.Trees
import TruthTable.Proofs.Utf8

/-!
# Formula files

A formula file is bytes, the bytes are a text, the text falls into lines, and
the lines that are left without their blank ends, comments apart, are the
formulas. Each step loses only what the next reading would lose again, so the
formulas can be written back in any of the three line formats.

Main results:

* `read_eq_ok_iff`, `exists_rewrite` — a file that is read can be written, and
  is then read as what was written.
* `formulas_written`      — formulas that are written line by line are the
  formulas of what was written.
* `formulas_append`       — a line feed between two texts keeps the formulas of
  both.
* `files_are_normalised`  — what a formula file gives, and that it can be given
  back.
-/

namespace TruthTable

-- ---------------------------------------------------------------------------
-- Reading and writing one path
-- ---------------------------------------------------------------------------

namespace FileTree

variable {t : FileTree} {path : String} {place : List String} {bytes : List UInt8}

/-- Reading looks at what stands at the path. -/
theorem read_eq_inspect (t : FileTree) (path : String) : t.read path =
    if hasNull path then .error .nullCharacter
    else match t.inspect path with
      | .ok (.file bytes) => .ok bytes
      | .ok .directory => .error (.refused .isDirectory path)
      | .ok (.link _) => .error (.refused .tooManyLinks path)
      | .error refusal => .error (.refused refusal path) := by
  unfold read
  cases hasNull path with
  | true => rfl
  | false =>
    cases t.inspect path with
    | error refusal => rfl
    | ok node => cases node <;> rfl

/-- A file that is found stands at the place where its path leads. -/
theorem leads_of_inspect (hNull : hasNull path = false) (h : t.inspect path = .ok (.file bytes)) :
    ∃ place, t.Leads path place ∧ t.at? place = some (.file bytes) := by
  cases hLocate : t.locate true path with
  | error refusal =>
    simp only [inspect, hLocate] at h
    cases h
  | ok place =>
    rw [inspect_of_locate hLocate] at h
    split at h
    · cases h
    · rename_i found hNode
      cases hSlash : endsInSlash path with
      | true =>
        simp only [hSlash] at h
        cases h
      | false =>
        simp only [hSlash] at h
        cases h
        exact ⟨place, ⟨hNull, hSlash, hLocate⟩, hNode⟩
    · cases h
    · cases h

/-- The bytes that are read stand at the place that the path leads to. -/
theorem read_eq_ok_iff : t.read path = .ok bytes ↔
    ∃ place, t.Leads path place ∧ t.at? place = some (.file bytes) := by
  constructor
  · intro h
    rw [read_eq_inspect] at h
    split at h
    · cases h
    · rename_i hNull
      split at h
      · rename_i found hInspect
        cases h
        exact leads_of_inspect (by simpa using hNull) hInspect
      · cases h
      · cases h
      · cases h
  · rintro ⟨place, hLeads, hFile⟩
    exact hLeads.read_eq hFile

/-- A file that can be read can be written, and then gives what was written. -/
theorem exists_rewrite (h : t.read path = .ok bytes) (new : List UInt8) :
    ∃ t', t.write path new = .ok t' ∧ t'.read path = .ok new := by
  obtain ⟨place, hLeads, hNode⟩ := read_eq_ok_iff.mp h
  have hFree : Free (t.at? place) := hNode ▸ .file bytes
  have hNew : (t.put place (.file new)).at? place = some (.file new) := by
    rw [at?_put hFree.ne_nil, if_pos rfl]
  have hStill := hLeads.mono (keeps_put hFree (.file new)) (by simp [hNew])
  exact ⟨_, hLeads.write_eq hFree.ne_directory new, hStill.read_eq hNew⟩

end FileTree

namespace FormulaFile

-- ---------------------------------------------------------------------------
-- The formulas of a text
-- ---------------------------------------------------------------------------

/-- A line holds a formula if it is not empty and no comment. -/
theorem isFormula_iff (line : List Char) :
    isFormula line = true ↔ line ≠ [] ∧ line.head? ≠ some '#' := by
  cases line with
  | nil => simp [isFormula]
  | cons c line => simp [isFormula]

/-- The formulas of lines: what is left of them without their blank ends, where
something is left and it is no comment. -/
def ofLines (lines : List (List Char)) : List String :=
  ((lines.map Text.strip).filter fun line => line ≠ [] ∧ line.head? ≠ some '#').map String.ofList

/-- The formulas of a text are those of its lines. -/
theorem formulas_eq (text : List Char) : formulas text = ofLines (Text.lines text) := by
  have hSame : isFormula = fun line => decide (line ≠ [] ∧ line.head? ≠ some '#') := by
    funext line
    rw [Bool.eq_iff_iff, isFormula_iff, decide_eq_true_iff]
  rw [formulas, ofLines, hSame]

theorem ofLines_append (ls ms : List (List Char)) :
    ofLines (ls ++ ms) = ofLines ls ++ ofLines ms := by
  simp only [ofLines, List.map_append, List.filter_append]

theorem ofLines_of_empty {ls : List (List Char)} (h : ∀ line ∈ ls, line = []) :
    ofLines ls = [] := by
  simp only [ofLines, List.map_eq_nil_iff, List.filter_eq_nil_iff, List.mem_map]
  rintro _ ⟨line, hLine, rfl⟩
  rw [h line hLine]
  decide

/-- A line feed between two texts keeps the formulas of both. -/
theorem formulas_append (a b : List Char) :
    formulas (a ++ '\n' :: b) = formulas a ++ formulas b := by
  obtain ⟨blank, hLines, hBlank⟩ := Text.lines_append a b
  rw [formulas_eq, hLines, ofLines_append, ofLines_append, ofLines_of_empty hBlank,
    List.nil_append, ← formulas_eq, ← formulas_eq]

/-- What a formula of a file looks like. -/
structure Tidy (s : String) : Prop where
  not_empty : s.toList ≠ []
  stripped : Text.strip s.toList = s.toList
  no_comment : s.toList.head? ≠ some '#'
  unbroken : Text.Unbroken s.toList

/-- The formulas of a text have no blank ends, stand on one line and are no
comments. -/
theorem tidy_of_mem_formulas {text : List Char} {s : String} (h : s ∈ formulas text) : Tidy s := by
  rw [formulas_eq, ofLines, List.mem_map] at h
  obtain ⟨line, hLine, rfl⟩ := h
  rw [List.mem_filter, List.mem_map, decide_eq_true_iff] at hLine
  obtain ⟨⟨whole, hWhole, rfl⟩, hSome, hComment⟩ := hLine
  have hUnbroken := (Text.unbroken_of_mem_lines hWhole).sublist (Text.strip_sublist whole)
  exact ⟨by rwa [String.toList_ofList], by rw [String.toList_ofList, Text.strip_strip],
    by rwa [String.toList_ofList], by rwa [String.toList_ofList]⟩

/-- Tidy formulas on lines of their own are found as they are. -/
theorem ofLines_of_tidy {found : List String} (h : ∀ s ∈ found, Tidy s) :
    ofLines (found.map String.toList) = found := by
  induction found with
  | nil => rfl
  | cons s found ih =>
    obtain ⟨hSome, hStripped, hComment, -⟩ := h s List.mem_cons_self
    have hRest := ih fun t ht => h t (List.mem_cons_of_mem _ ht)
    unfold ofLines at hRest ⊢
    rw [List.map_cons, List.map_cons, hStripped,
      List.filter_cons_of_pos (by rw [decide_eq_true_iff]; exact ⟨hSome, hComment⟩),
      List.map_cons, hRest,
      String.ofList_toList]

/-- Formulas that are written line by line are the formulas of what was
written. -/
theorem formulas_written (e : Text.LineEnd) (final : Bool) {found : List String}
    (hSome : found ≠ []) (h : ∀ s ∈ found, Tidy s) :
    formulas (Text.written e final (found.map String.toList)) = found := by
  have hLines : ∀ line ∈ found.map String.toList, line ≠ [] ∧ Text.Unbroken line := by
    intro line hLine
    obtain ⟨s, hs, rfl⟩ := List.mem_map.mp hLine
    exact ⟨(h s hs).not_empty, (h s hs).unbroken⟩
  rw [formulas_eq, Text.lines_written e final (by simpa using hSome) hLines, ofLines_of_tidy h]

-- ---------------------------------------------------------------------------
-- The formulas of a file
-- ---------------------------------------------------------------------------

variable {files : FileTree} {path : Path} {text : List Char}

/-- A file without formulas is of no use. -/
theorem read_of_no_formulas (hFile : files.read path.text = .ok (Text.encode text))
    (h : formulas text = []) :
    read files path = .error (.formulaFile (.noFormulas path.text)) := by
  simp only [read, hFile, Text.decode_eq_ok_iff.mpr rfl, h]

/-- A file with formulas is read as its formulas. -/
theorem read_of_formulas (hFile : files.read path.text = .ok (Text.encode text))
    (h : formulas text ≠ []) : read files path = .ok (formulas text) := by
  simp only [read, hFile, Text.decode_eq_ok_iff.mpr rfl]

/--
**Formula files are normalised without loss.** A text has one division into
lines, and its formulas are what is left of them in order. A file that holds the
text is read as its formulas, and refused as a formula file exactly when there
are none. No formula has blank ends, starts as a comment or holds a terminator,
so the file can be written with the formulas alone, in any of the three formats,
and is read as before. A line feed between two texts keeps the formulas of both.
-/
theorem files_are_normalised :
    (∀ text, (∃! lines, Text.Lined text lines) ∧
      ∀ lines, Text.Lined text lines → formulas text =
        ((lines.map Text.strip).filter fun line => line ≠ [] ∧ line.head? ≠ some '#').map
          String.ofList) ∧
    (∀ (files : FileTree) (path : Path) text,
      files.read path.text = .ok (Text.encode text) →
        (formulas text ≠ [] → read files path = .ok (formulas text)) ∧
        ((∃ cause, read files path = .error (.formulaFile cause)) ↔ formulas text = []) ∧
        (formulas text ≠ [] → ∀ (e : Text.LineEnd) (final : Bool), ∃ after,
          files.write path.text
            (Text.encode (Text.written e final ((formulas text).map String.toList))) = .ok after ∧
          read after path = .ok (formulas text))) ∧
    (∀ text, ∀ s ∈ formulas text, s.toList ≠ [] ∧ Text.strip s.toList = s.toList ∧
      s.toList.head? ≠ some '#' ∧ '\n' ∉ s.toList ∧ '\r' ∉ s.toList) ∧
    ∀ a b, formulas (a ++ '\n' :: b) = formulas a ++ formulas b := by
  refine ⟨fun text => ⟨?_, ?_⟩, fun files path text hFile => ⟨?_, ?_, ?_⟩, ?_, formulas_append⟩
  · exact ⟨_, Text.lined_iff.mpr rfl, fun lines h => Text.lined_iff.mp h⟩
  · intro lines hLines
    rw [Text.lined_iff.mp hLines]
    exact formulas_eq text
  · exact read_of_formulas hFile
  · constructor
    · rintro ⟨cause, hFault⟩
      by_contra hSome
      rw [read_of_formulas hFile hSome] at hFault
      cases hFault
    · intro hNone
      exact ⟨_, read_of_no_formulas hFile hNone⟩
  · intro hSome e final
    obtain ⟨after, hWrite, hRead⟩ := FileTree.exists_rewrite hFile
      (Text.encode (Text.written e final ((formulas text).map String.toList)))
    have hAgain := formulas_written e final hSome fun s hs => tidy_of_mem_formulas hs
    have hFormulas := read_of_formulas hRead (by rwa [hAgain])
    rw [hAgain] at hFormulas
    exact ⟨after, hWrite, hFormulas⟩
  · intro text s hs
    obtain ⟨hSome, hStripped, hComment, hUnbroken⟩ := tidy_of_mem_formulas hs
    exact ⟨hSome, hStripped, hComment, hUnbroken.1, hUnbroken.2⟩

/-- A comment, a formula between blank characters that end no line, an empty line
and a formula without terminator, written back with carriage returns. -/
theorem files_are_normalised_sample :
    let text := "# c\r\n\u2028p & q \r\n\rr".toList
    let files : FileTree := ⟨[(["f"], .file (Text.encode text))], []⟩
    let path := Path.ofString "f"
    files.read path.text = .ok (Text.encode text) ∧ read files path = .ok ["p & q", "r"] ∧
      ∃ after, files.write path.text (Text.encode "p & q\rr\r".toList) = .ok after ∧
        read after path = .ok ["p & q", "r"] := by
  have hFormulas : formulas "# c\r\n\u2028p & q \r\n\rr".toList = ["p & q", "r"] := by decide
  have hWritten : Text.written .carriageReturn true (["p & q", "r"].map String.toList) =
      "p & q\rr\r".toList := by decide
  have hFile : ∀ bytes, FileTree.read ⟨[(["f"], .file bytes)], []⟩ (Path.ofString "f").text =
      .ok bytes := fun bytes => rfl
  obtain ⟨hRead, -, hBack⟩ := files_are_normalised.2.1 _ _ _ (hFile (Text.encode _))
  rw [hFormulas] at hRead hBack
  have hAgain := hBack (by decide) .carriageReturn true
  rw [hWritten] at hAgain
  exact ⟨hFile _, hRead (by decide), hAgain⟩

end FormulaFile

end TruthTable
