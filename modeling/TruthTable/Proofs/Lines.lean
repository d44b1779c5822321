import Mathlib.Data.List.DropRight
import TruthTable.Text.Basic

/-!
# Lines and their ends

How a text falls into lines, said without a loop: `Lined text lines` puts the
text together from its lines and the terminators between them. A carriage
return with a line feed after it is one terminator, so a text can be put
together in one way only.

Main results:

* `lined_iff`      — the lines of a text are the only ones that it can be put
  together from.
* `lines_append`   — a line feed between two texts keeps the lines of both; at
  most an empty line comes up between them.
* `lines_written`  — lines that are written with one kind of terminator are the
  lines of what was written.
* `strip_strip`    — what is stripped has no blank ends left.
-/

namespace TruthTable.Text

-- ---------------------------------------------------------------------------
-- Terminators
-- ---------------------------------------------------------------------------

/-- What ends a line. -/
inductive LineEnd where
  | lineFeed
  | carriageReturn
  | both

/-- The characters of a terminator. -/
def LineEnd.chars : LineEnd → List Char
  | .lineFeed => ['\n']
  | .carriageReturn => ['\r']
  | .both => ['\r', '\n']

/-- The terminator ends where the text after it starts: a carriage return would
take a line feed along. -/
def LineEnd.Whole : LineEnd → List Char → Prop
  | .carriageReturn, rest => rest.head? ≠ some '\n'
  | _, _ => True

/-- No terminator stands in these characters. -/
def Unbroken (line : List Char) : Prop :=
  '\n' ∉ line ∧ '\r' ∉ line

theorem unbroken_nil : Unbroken [] :=
  ⟨List.not_mem_nil, List.not_mem_nil⟩

theorem unbroken_cons {c : Char} {line : List Char} :
    Unbroken (c :: line) ↔ (c ≠ '\n' ∧ c ≠ '\r') ∧ Unbroken line := by
  simp only [Unbroken, List.mem_cons, not_or, ne_comm (a := c)]
  tauto

/-- Characters without a terminator, one piece after the other. -/
theorem Unbroken.append {line more : List Char} (h : Unbroken line) (hMore : Unbroken more) :
    Unbroken (line ++ more) := by
  simp only [Unbroken, List.mem_append, not_or]
  exact ⟨⟨h.1, hMore.1⟩, h.2, hMore.2⟩

/-- What is left of characters without a terminator has none. -/
theorem Unbroken.sublist {line part : List Char} (h : Unbroken line) (hPart : part.Sublist line) :
    Unbroken part :=
  ⟨fun hc => h.1 (hPart.subset hc), fun hc => h.2 (hPart.subset hc)⟩

/-- The text is put together from these lines: each ends in a terminator, but
for the last one, which may end with the text if it is not empty. -/
inductive Lined : List Char → List (List Char) → Prop
  | nil : Lined [] []
  | last {line} : line ≠ [] → Unbroken line → Lined line [line]
  | ended {line rest lines} (e : LineEnd) : Unbroken line → e.Whole rest → Lined rest lines →
      Lined (line ++ (e.chars ++ rest)) (line :: lines)

-- ---------------------------------------------------------------------------
-- The lines of a text
-- ---------------------------------------------------------------------------

/-- Characters that end no line belong to the current one. -/
theorem linesFrom_unbroken {line : List Char} (h : Unbroken line) (current rest : List Char) :
    linesFrom current (line ++ rest) = linesFrom (line.reverse ++ current) rest := by
  induction line generalizing current with
  | nil => rfl
  | cons c line ih =>
    obtain ⟨⟨hFeed, hReturn⟩, hLine⟩ := unbroken_cons.mp h
    rw [List.cons_append, linesFrom.eq_5 _ _ _ (fun _ hc => absurd hc hReturn) hReturn hFeed,
      ih hLine, List.reverse_cons, List.append_assoc]
    rfl

/-- A terminator ends the current line. -/
theorem linesFrom_end {e : LineEnd} {rest : List Char} (h : e.Whole rest) (current : List Char) :
    linesFrom current (e.chars ++ rest) = current.reverse :: linesFrom [] rest := by
  cases e with
  | lineFeed => rfl
  | both => rfl
  | carriageReturn =>
    cases rest with
    | nil => rfl
    | cons c rest =>
      have hc : c ≠ '\n' := fun hEq => h (congrArg some hEq)
      show linesFrom current ('\r' :: c :: rest) = _
      rw [linesFrom.eq_3]
      rintro rest' hEq
      exact hc (List.cons.inj hEq).1

/-- A line with its terminator comes off at the front. -/
theorem lines_line {line rest : List Char} {e : LineEnd} (hLine : Unbroken line)
    (hWhole : e.Whole rest) : lines (line ++ (e.chars ++ rest)) = line :: lines rest := by
  rw [lines, linesFrom_unbroken hLine, linesFrom_end hWhole, List.append_nil,
    List.reverse_reverse]
  rfl

/-- A text without a terminator is one line, unless it is empty. -/
theorem lines_last {line : List Char} (hLine : Unbroken line) (hSome : line ≠ []) :
    lines line = [line] := by
  have hRead := linesFrom_unbroken hLine [] []
  rw [List.append_nil, List.append_nil] at hRead
  rw [lines, hRead, linesFrom, if_neg (by simpa using hSome), List.reverse_reverse]

/-- Whatever stands on the current line, a text is put together from its lines. -/
theorem lined_linesFrom (current cs : List Char) (h : Unbroken current.reverse) :
    Lined (current.reverse ++ cs) (linesFrom current cs) := by
  fun_induction linesFrom current cs with
  | case1 current hEmpty =>
    rw [List.isEmpty_iff.mp hEmpty]
    exact .nil
  | case2 current hSome =>
    rw [List.append_nil]
    exact .last (by simpa using hSome) h
  | case3 current rest ih => exact .ended .both h trivial (ih unbroken_nil)
  | case4 current rest hNext ih =>
    refine .ended .carriageReturn h ?_ (ih unbroken_nil)
    intro hHead
    obtain ⟨rest', hRest⟩ := List.head?_eq_some_iff.mp hHead
    exact hNext rest' hRest
  | case5 current rest ih => exact .ended .lineFeed h trivial (ih unbroken_nil)
  | case6 current c rest hBoth hReturn hFeed ih =>
    have hc : Unbroken [c] := unbroken_cons.mpr ⟨⟨hFeed, hReturn⟩, unbroken_nil⟩
    have hRest := ih (by rw [List.reverse_cons]; exact h.append hc)
    rwa [List.reverse_cons, List.append_assoc] at hRest

/-- **A text is put together from its lines, and from no others.** -/
theorem lined_iff {text : List Char} {ls : List (List Char)} : Lined text ls ↔ ls = lines text := by
  constructor
  · intro h
    induction h with
    | nil => rfl
    | last hSome hLine => exact (lines_last hLine hSome).symm
    | ended e hLine hWhole _ ih => rw [lines_line hLine hWhole, ih]
  · rintro rfl
    exact lined_linesFrom [] text unbroken_nil

/-- No line has a terminator in it. -/
theorem unbroken_of_mem_lines {text line : List Char} (h : line ∈ lines text) : Unbroken line := by
  have hLined : Lined text (lines text) := lined_iff.mpr rfl
  generalize lines text = ls at h hLined
  induction hLined with
  | nil => cases h
  | last hSome hLine => exact List.mem_singleton.mp h ▸ hLine
  | ended e hLine hWhole _ ih =>
    rcases List.mem_cons.mp h with rfl | h
    · exact hLine
    · exact ih h

-- ---------------------------------------------------------------------------
-- Texts one after the other
-- ---------------------------------------------------------------------------

/-- **A line feed between two texts keeps the lines of both.** Where the first
text ends in a terminator, an empty line comes up between them, unless that is a
carriage return, which takes the line feed along. -/
theorem lines_append (a b : List Char) : ∃ blank : List (List Char),
    lines (a ++ '\n' :: b) = lines a ++ (blank ++ lines b) ∧ ∀ line ∈ blank, line = [] := by
  have hLined : Lined a (lines a) := lined_iff.mpr rfl
  generalize lines a = ls at hLined
  induction hLined with
  | nil => exact ⟨[[]], lines_line (e := .lineFeed) unbroken_nil trivial, by simp⟩
  | last _ hLine => exact ⟨[], lines_line (e := .lineFeed) hLine trivial, nofun⟩
  | @ended line rest ls e hLine hWhole hRest ih =>
    rw [List.append_assoc, List.append_assoc]
    by_cases hJoined : e.Whole (rest ++ '\n' :: b)
    · obtain ⟨blank, hLines, hBlank⟩ := ih
      exact ⟨blank, by rw [lines_line hLine hJoined, hLines]; rfl, hBlank⟩
    · -- a carriage return at the end of the first text
      have hEnd : e = .carriageReturn ∧ rest = [] := by
        cases e with
        | lineFeed => exact absurd trivial hJoined
        | both => exact absurd trivial hJoined
        | carriageReturn =>
          cases rest with
          | nil => exact ⟨rfl, rfl⟩
          | cons c rest => exact absurd hWhole hJoined
      obtain ⟨rfl, rfl⟩ := hEnd
      rw [lined_iff.mp hRest]
      exact ⟨[], lines_line (e := .both) hLine trivial, nofun⟩

/-- Lines written one after the other with one kind of terminator between them,
and after the last one if asked for. -/
def written (e : LineEnd) (final : Bool) (ls : List (List Char)) : List Char :=
  e.chars.intercalate ls ++ if final then e.chars else []

/-- A terminator stands between a line and the next one. -/
theorem written_cons_cons (e : LineEnd) (final : Bool) (line next : List Char)
    (ls : List (List Char)) :
    written e final (line :: next :: ls) = line ++ (e.chars ++ written e final (next :: ls)) := by
  rw [written, List.intercalate_cons_cons, List.append_assoc, List.append_assoc]
  rfl

theorem head?_written (e : LineEnd) (final : Bool) {line : List Char} (ls : List (List Char))
    (hSome : line ≠ []) : (written e final (line :: ls)).head? = line.head? := by
  obtain ⟨c, cs, rfl⟩ := List.exists_cons_of_ne_nil hSome
  cases ls with
  | nil => simp [written]
  | cons next ls => rw [written_cons_cons]; rfl

/-- **What is written line by line has these lines.** -/
theorem lines_written (e : LineEnd) (final : Bool) {ls : List (List Char)} (hSome : ls ≠ [])
    (h : ∀ line ∈ ls, line ≠ [] ∧ Unbroken line) : lines (written e final ls) = ls := by
  induction ls with
  | nil => exact absurd rfl hSome
  | cons line ls ih =>
    obtain ⟨hLine, hUnbroken⟩ := h line List.mem_cons_self
    cases ls with
    | nil =>
      cases final with
      | false => simpa [written] using lines_last hUnbroken hLine
      | true =>
        have hWhole : e.Whole [] := by cases e <;> simp [LineEnd.Whole]
        simpa [written, show lines [] = [] from rfl] using lines_line hUnbroken hWhole
    | cons next ls =>
      obtain ⟨hNext, hNextUnbroken⟩ := h next (by simp)
      have hWhole : e.Whole (written e final (next :: ls)) := by
        cases e with
        | lineFeed => trivial
        | both => trivial
        | carriageReturn =>
          show (written .carriageReturn final (next :: ls)).head? ≠ some '\n'
          rw [head?_written _ _ _ hNext]
          exact fun hHead => hNextUnbroken.1 (List.mem_of_mem_head? hHead)
      rw [written_cons_cons, lines_line hUnbroken hWhole,
        ih (List.cons_ne_nil _ _) fun l hl => h l (List.mem_cons_of_mem _ hl)]

-- ---------------------------------------------------------------------------
-- Blank ends
-- ---------------------------------------------------------------------------

/-- Stripping only takes characters away. -/
theorem strip_sublist (cs : List Char) : (strip cs).Sublist cs :=
  (List.rdropWhile_prefix isBlank _).sublist.trans (List.dropWhile_sublist _)

/-- What is stripped does not start with a blank character. -/
theorem dropWhile_strip (cs : List Char) : (strip cs).dropWhile isBlank = strip cs := by
  cases hStrip : strip cs with
  | nil => rfl
  | cons c rest =>
    -- the front of what is left after dropping at the front
    have hPrefix : c :: rest <+: cs.dropWhile isBlank :=
      hStrip ▸ List.rdropWhile_prefix isBlank _
    obtain ⟨later, hLater⟩ := hPrefix
    have hHead := List.head_dropWhile_not isBlank (l := cs) (by rw [← hLater]; simp)
    simp only [← hLater, List.cons_append, List.head_cons] at hHead
    exact List.dropWhile_cons_of_neg (by simp [hHead])

/-- **Stripping again changes nothing.** -/
theorem strip_strip (cs : List Char) : strip (strip cs) = strip cs := by
  rw [strip, dropWhile_strip]
  exact List.rdropWhile_idempotent isBlank _

end TruthTable.Text
