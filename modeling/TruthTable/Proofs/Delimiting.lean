import TruthTable.Proofs.BitPatterns
import TruthTable.Proofs.Segments
import TruthTable.Proofs.Stages

/-!
# Reports that end themselves

A report says how long it is before it is over: its second line names the
variables, and with them the number of assignments that its three sections
list. So no report starts another one, and reports that follow each other can
be told apart although nothing stands between them.

Main results:

* `Assignment.render_inj` — the text of an assignment determines it.
* `Report.result_lines`   — the lines of a report, section by section.
* `Report.prefix_code`    — a report that starts another one is that one.
* `Report.text_eq_iff`    — what two formulas with the same report share.
* `report_tells_all`      — all of it, with what the sections of one report
  have to do with each other and with what a run writes.
-/

namespace TruthTable

-- ---------------------------------------------------------------------------
-- The texts of names and assignments
-- ---------------------------------------------------------------------------

theorem Name.oneLine (n : Name) : OneLine n.text := by
  intro h
  exact absurd (Name.isAlphanum_of_mem h) (by decide)

theorem oneLine_ofBool (b : Bool) : OneLine (Value.ofBool b) := by
  cases b <;> decide

namespace Assignment

theorem toList_entryText (e : Name × Bool) :
    (entryText e).toList = e.1.text.toList ++ ':' :: ' ' :: (Value.ofBool e.2).toList := by
  simp [entryText]

/-- The text of an entry shows the name and the value. -/
theorem entryText_inj {e e' : Name × Bool} (h : entryText e = entryText e') : e = e' := by
  have hChars := congrArg String.toList h
  rw [toList_entryText, toList_entryText] at hChars
  -- the name ends at the colon
  obtain ⟨hName, hRest⟩ := cut_unique (p := fun c => c.isAlphanum = true)
    (fun _ hc => Name.isAlphanum_of_mem hc) (fun _ hc => Name.isAlphanum_of_mem hc)
    (by simp) (by simp) hChars
  have hValue : Value.ofBool e.2 = Value.ofBool e'.2 := by
    rw [← String.toList_inj]
    simpa using hRest
  refine Prod.ext (Name.text_inj (String.toList_inj.mp hName)) ?_
  revert hValue
  cases e.2 <;> cases e'.2 <;> decide

/-- No bar stands in the text of an entry. -/
theorem ne_bar_of_mem_entryText {e : Name × Bool} {c : Char} (hc : c ∈ (entryText e).toList) :
    c ≠ '|' := by
  rintro rfl
  rw [toList_entryText, List.mem_append] at hc
  rcases hc with hc | hc
  · exact absurd (Name.isAlphanum_of_mem hc) (by decide)
  · revert hc
    cases e.2 <;> decide

/-- The text of an assignment determines it. -/
theorem render_inj {a b : Assignment} (h : a.render = b.render) : a = b := by
  have hItems : ∀ entries : List (Name × Bool),
      ∀ x ∈ (entries.map entryText).map String.toList, x ≠ [] ∧ ∀ c ∈ x, c ≠ '|' := by
    intro entries x hx
    rw [List.map_map] at hx
    obtain ⟨e, -, rfl⟩ := List.mem_map.mp hx
    refine ⟨?_, fun c hc => ne_bar_of_mem_entryText hc⟩
    simp [toList_entryText]
  have hChars := congrArg String.toList h
  rw [render, render, String.toList_intercalate, String.toList_intercalate] at hChars
  have hTexts := intercalate_inj (p := (· ≠ '|')) (a := '|') (by simp) (hItems a.entries)
    (hItems b.entries) hChars
  rw [List.map_map, List.map_map] at hTexts
  have hEntries : a.entries = b.entries := by
    refine List.map_injective_iff.mpr ?_ hTexts
    intro e e' he
    exact entryText_inj (String.toList_inj.mp he)
  cases a
  cases b
  simpa using hEntries

/-- An assignment is shown on one line. -/
theorem oneLine_render (a : Assignment) : OneLine a.render := by
  refine OneLine.intercalate (by decide) ?_
  intro s hs
  obtain ⟨e, -, rfl⟩ := List.mem_map.mp hs
  exact (e.1.oneLine.append (by decide)).append (oneLine_ofBool e.2)

end Assignment

theorem Operator.oneLine_word (op : Operator) : OneLine op.word := by
  cases op <;> decide

theorem Formula.oneLine_text (f : Formula) : OneLine f.text := by
  induction f with
  | hole => decide
  | constant b => exact oneLine_ofBool b
  | var n => exact n.oneLine
  | not a ih => exact (OneLine.append (by decide) ih).append (by decide)
  | binary op l r ihl ihr =>
    exact (((ihl.append (by decide)).append op.oneLine_word).append (by decide)).append ihr

/-- The members of a set of names can be read off their list. -/
theorem NameSet.eq_of_intercalate {s t : NameSet}
    (h : ", ".intercalate s.texts = ", ".intercalate t.texts) : s = t := by
  have hItems : ∀ u : NameSet, ∀ x ∈ u.texts.map String.toList,
      x ≠ [] ∧ ∀ c ∈ x, c.isAlphanum = true := by
    intro u x hx
    rw [texts, List.map_map] at hx
    obtain ⟨n, -, rfl⟩ := List.mem_map.mp hx
    exact ⟨n.toList_text_ne_nil, fun c hc => Name.isAlphanum_of_mem hc⟩
  have hChars := congrArg String.toList h
  rw [String.toList_intercalate, String.toList_intercalate] at hChars
  have hTexts := intercalate_inj (p := fun c => c.isAlphanum = true) (a := ',') (by decide)
    (hItems s) (hItems t) hChars
  rw [texts, texts, List.map_map, List.map_map] at hTexts
  have hMembers : s.toList = t.toList := by
    refine List.map_injective_iff.mpr ?_ hTexts
    intro n m hnm
    exact Name.text_inj (String.toList_inj.mp hnm)
  exact NameSet.ext hMembers

-- ---------------------------------------------------------------------------
-- The sections of a report
-- ---------------------------------------------------------------------------

namespace Report

/-- What the lines of a report show. -/
structure Sections where
  expression : String
  names : List String
  /-- All assignments, each as a line. -/
  rows : List String
  tautology : Bool
  contradiction : Bool
  satisfying : List String
  falsifying : List String

/-- The line before the assignments that do not satisfy the formula. -/
def falsifyingHeader : String :=
  "All interpretations that do not satisfy the expression:"

/-- The lines before the assignments that satisfy the formula. -/
def Sections.front (s : Sections) : List String :=
  ["Expression: " ++ s.expression,
      "Variables: " ++ ", ".intercalate s.names,
      "All possible interpretations:"] ++
    s.rows ++
    [statusLine s.tautology "tautology", statusLine s.contradiction "contradiction",
      "All interpretations that satisfy the expression:"]

/-- The lines of a report. -/
def Sections.lines (s : Sections) : List String :=
  s.front ++ s.satisfying ++ [falsifyingHeader] ++ s.falsifying ++ [""]

/-- The text of a report: its lines, each ended by a line feed. -/
def Sections.text (s : Sections) : String :=
  String.join (s.lines.map (· ++ "\n"))

/-- The sections hold the text, the names and the assignments of the formula. -/
structure Sections.Shows (s : Sections) (f : Formula) : Prop where
  expression : f.render = .ok s.expression
  names : s.names = f.names.texts
  rows : s.rows = f.enumeration.rows.map Assignment.render
  satisfying : ∃ rows, f.satisfying = .ok rows ∧ s.satisfying = rows.map Assignment.render
  falsifying : ∃ rows, f.falsifying = .ok rows ∧ s.falsifying = rows.map Assignment.render

/-- The two sections at the end share out the assignments, and the two lines
about the formula say which of the sections is empty. -/
structure Sections.Consistent (s : Sections) : Prop where
  perm : (s.satisfying ++ s.falsifying).Perm s.rows
  tautology_iff : s.tautology = true ↔ s.falsifying = []
  contradiction_iff : s.contradiction = true ↔ s.satisfying = []
  not_both : ¬ (s.tautology = true ∧ s.contradiction = true)

/-- The rows with a truth value, each as a line. -/
def rowsWith (f : Formula) (b : Bool) : List String :=
  (f.enumeration.rows.filter fun a => f.value a.valuation == b).map Assignment.render

/-- What the report on a formula shows, said without evaluation. -/
def sections (f : Formula) : Sections where
  expression := f.text
  names := f.names.texts
  rows := f.enumeration.rows.map Assignment.render
  tautology := (rowsWith f false).isEmpty
  contradiction := (rowsWith f true).isEmpty
  satisfying := rowsWith f true
  falsifying := rowsWith f false

/-- No row has a value exactly if the formula does not take it. -/
theorem rowsWith_eq_nil_iff {f : Formula} (hf : f.Complete) (b : Bool) :
    rowsWith f b = [] ↔ ¬ f.Attains b := by
  have hShows := Enumeration.shows_iff_exists_covers hf b
  rw [Formula.Attains, ← hShows, rowsWith, List.map_eq_nil_iff, List.filter_eq_nil_iff]
  constructor
  · rintro h ⟨k, -, hk, hValue⟩
    have hRow := f.enumeration.get_mem_rows hk
    have hEval : f.eval (f.enumeration.get k) = .ok b := hValue
    rw [Formula.eval_row hf _ hRow] at hEval
    exact h _ hRow (by simpa using hEval)
  · intro h a ha hValue
    have hEval := Formula.eval_row hf a ha
    obtain ⟨k, hk, rfl⟩ := List.mem_map.mp ha
    refine h ⟨k, Nat.zero_le k, List.mem_range.mp hk, ?_⟩
    rw [beq_iff_eq] at hValue
    exact hValue ▸ hEval

/-- The line on tautologies says what the question answers. -/
theorem isTautology_sections {f : Formula} (hf : f.Complete) :
    f.isTautology = .ok (sections f).tautology := by
  obtain ⟨r, hr, hAttains⟩ := Formula.isTautology_eq hf
  rw [hr, Except.ok.injEq, Bool.eq_iff_iff, hAttains, ← rowsWith_eq_nil_iff hf]
  exact List.isEmpty_iff.symm

/-- The line on contradictions says what the question answers. -/
theorem isContradiction_sections {f : Formula} (hf : f.Complete) :
    f.isContradiction = .ok (sections f).contradiction := by
  obtain ⟨r, hr, hAttains⟩ := Formula.isContradiction_eq hf
  rw [hr, Except.ok.injEq, Bool.eq_iff_iff, hAttains, ← rowsWith_eq_nil_iff hf]
  exact List.isEmpty_iff.symm

/-- The report on a formula without holes has the lines of its sections. -/
theorem result_lines {f : Formula} (hf : f.Complete) :
    (lines f).result = .ok (sections f).lines := by
  simp only [lines, Logged.result_bind, Logged.result_lift, Logged.result_pure, result_enumerate,
    result_announced, Formula.render_complete hf, isTautology_sections hf,
    isContradiction_sections hf, Formula.satisfying_eq hf, Formula.falsifying_eq hf, ok_bind]
  simp [Sections.lines, Sections.front, sections, rowsWith, falsifyingHeader]

/-- The report is the text of its sections. -/
theorem result_text {f : Formula} (hf : f.Complete) :
    (text f).result = .ok (sections f).text := by
  rw [text, Logged.result_bind, result_lines hf, ok_bind]
  rfl

/-- The sections hold what is asked of the formula. -/
theorem shows_sections {f : Formula} (hf : f.Complete) : (sections f).Shows f where
  expression := Formula.render_complete hf
  names := rfl
  rows := rfl
  satisfying := ⟨_, Formula.satisfying_eq hf, by simp [sections, rowsWith]⟩
  falsifying := ⟨_, Formula.falsifying_eq hf, by simp [sections, rowsWith]⟩

/-- Every row satisfies the formula or does not, and some row does one of the
two. -/
theorem consistent_sections {f : Formula} (hf : f.Complete) : (sections f).Consistent where
  perm := by
    have hPerm := List.filter_append_perm (fun a => f.value a.valuation == true)
      f.enumeration.rows
    have hOther : (fun a : Assignment => !(f.value a.valuation == true)) =
        fun a => f.value a.valuation == false := by
      funext a
      cases f.value a.valuation <;> rfl
    rw [hOther] at hPerm
    simpa [sections, rowsWith] using hPerm.map Assignment.render
  tautology_iff := List.isEmpty_iff
  contradiction_iff := List.isEmpty_iff
  not_both := by
    rintro ⟨hTautology, hContradiction⟩
    have hFalse := (rowsWith_eq_nil_iff hf false).mp (List.isEmpty_iff.mp hTautology)
    have hTrue := (rowsWith_eq_nil_iff hf true).mp (List.isEmpty_iff.mp hContradiction)
    exact (Formula.attains_or hf).elim hTrue hFalse

-- ---------------------------------------------------------------------------
-- One report and another
-- ---------------------------------------------------------------------------

/-- What is said about a property stands on one line. -/
theorem oneLine_statusLine (has : Bool) {property : String} (h : OneLine property) :
    OneLine (statusLine has property) := by
  cases has with
  | true => exact OneLine.append (by decide) h
  | false => exact OneLine.append (by decide) h

/-- Each row stands on one line. -/
theorem oneLine_of_mem_rowsWith {f : Formula} {b : Bool} {s : String} (h : s ∈ rowsWith f b) :
    OneLine s := by
  obtain ⟨a, -, rfl⟩ := List.mem_map.mp h
  exact a.oneLine_render

/-- No line of a report holds a line feed. -/
theorem oneLine_of_mem_lines (f : Formula) : ∀ s ∈ (sections f).lines, OneLine s := by
  have hNames : OneLine (", ".intercalate f.names.texts) := by
    refine OneLine.intercalate (by decide) ?_
    intro s hs
    obtain ⟨n, -, rfl⟩ := List.mem_map.mp hs
    exact n.oneLine
  have hRows : ∀ s ∈ f.enumeration.rows.map Assignment.render, OneLine s := by
    intro s hs
    obtain ⟨a, -, rfl⟩ := List.mem_map.mp hs
    exact a.oneLine_render
  intro s hs
  simp only [Sections.lines, Sections.front, List.mem_append, List.mem_cons, List.not_mem_nil,
    or_false] at hs
  rcases hs with ((((((rfl | rfl | rfl) | hs) | rfl | rfl | rfl) | hs) | rfl) | hs) | rfl
  · exact OneLine.append (by decide) f.oneLine_text
  · exact OneLine.append (by decide) hNames
  · decide
  · exact hRows s hs
  · exact oneLine_statusLine _ (by decide)
  · exact oneLine_statusLine _ (by decide)
  · decide
  · exact oneLine_of_mem_rowsWith hs
  · decide
  · exact oneLine_of_mem_rowsWith hs
  · decide

/-- The characters of a report are those of its lines, each with a line feed. -/
theorem toList_text (f : Formula) : (sections f).text.toList = ended (sections f).lines :=
  toList_join_ended _

/-- A report has eight lines of its own, and each assignment is listed twice. -/
theorem length_lines {f : Formula} (hf : f.Complete) :
    (sections f).lines.length = 2 * f.enumeration.size + 8 := by
  have hPerm := (consistent_sections hf).perm.length_eq
  have hRows : (sections f).rows.length = f.enumeration.size := by
    simp [sections, Enumeration.rows]
  rw [List.length_append, hRows] at hPerm
  simp only [Sections.lines, Sections.front, List.length_append, List.length_cons, List.length_nil,
    hRows]
  omega

/-- Reports that agree in their second lines are about the same names. -/
theorem names_eq_of_prefix {f g : Formula} (h : (sections f).lines <+: (sections g).lines) :
    f.names = g.names := by
  have hSecond := h.getElem (i := 1) (by simp [Sections.lines, Sections.front])
  simp only [Sections.lines, Sections.front, List.cons_append, List.getElem_cons_succ,
    List.getElem_cons_zero, String.append_right_inj] at hSecond
  exact NameSet.eq_of_intercalate hSecond

/-- The lines of a report are no proper start of those of another one. -/
theorem lines_eq_of_prefix {f g : Formula} (hf : f.Complete) (hg : g.Complete)
    (h : (sections f).lines <+: (sections g).lines) : (sections f).lines = (sections g).lines := by
  refine h.eq_of_length ?_
  rw [length_lines hf, length_lines hg, Formula.enumeration, Formula.enumeration,
    Enumeration.ofFormula, Enumeration.ofFormula, names_eq_of_prefix h]

/-- A report that starts another one is that one. -/
theorem prefix_code {f g : Formula} (hf : f.Complete) (hg : g.Complete)
    (h : (sections f).text.toList <+: (sections g).text.toList) :
    (sections f).text = (sections g).text := by
  rw [toList_text, toList_text] at h
  have hLines := ended_prefix (oneLine_of_mem_lines f) (oneLine_of_mem_lines g) h
  rw [Sections.text, lines_eq_of_prefix hf hg hLines, Sections.text]

/-- No assignment is shown as the line that ends the satisfying ones. -/
theorem ne_falsifyingHeader {f : Formula} {b : Bool} :
    ∀ s ∈ rowsWith f b, s ≠ falsifyingHeader := by
  intro s hs hEq
  obtain ⟨a, -, rfl⟩ := List.mem_map.mp hs
  have hChars := congrArg String.toList hEq
  cases hEntries : a.entries with
  | nil =>
    rw [Assignment.render, hEntries] at hChars
    exact absurd hChars (by decide)
  | cons e entries =>
    rw [Assignment.render, hEntries, String.toList_intercalate, List.map_cons, List.map_cons,
      intercalate_cons, Assignment.toList_entryText, List.append_assoc] at hChars
    have hHeader : falsifyingHeader.toList = "All".toList ++
        " interpretations that do not satisfy the expression:".toList := by decide
    rw [hHeader] at hChars
    -- the first word is followed by a blank, and a name in an assignment by a colon
    obtain ⟨-, hRest⟩ := cut_unique (p := fun c => c.isAlphanum = true)
      (fun _ hc => Name.isAlphanum_of_mem hc) (by simp) (by simp) (by simp) hChars
    rw [List.cons_append] at hRest
    injection hRest with hColon
    exact absurd hColon (by decide)

/-- The rows that satisfy the formula can be read off its report. -/
theorem satisfying_eq_of_lines {f g : Formula} (hNames : f.names = g.names)
    (h : (sections f).lines = (sections g).lines) :
    (sections f).satisfying = (sections g).satisfying := by
  have hFront : (sections f).front.length = (sections g).front.length := by
    simp [Sections.front, sections, Formula.enumeration, Enumeration.ofFormula, hNames]
  simp only [Sections.lines, List.append_assoc] at h
  have hRest := (List.append_inj h hFront).2
  exact (cut_unique ne_falsifyingHeader ne_falsifyingHeader (by simp) (by simp) hRest).1

/-- A row is listed among the first exactly if the formula is true there. -/
theorem mem_satisfying {f : Formula} {a : Assignment} (ha : a ∈ f.enumeration.rows) :
    a.render ∈ (sections f).satisfying ↔ f.value a.valuation = true := by
  constructor
  · intro h
    obtain ⟨b, hb, hEq⟩ := List.mem_map.mp h
    have hValue := (List.mem_filter.mp hb).2
    rw [beq_iff_eq, Assignment.render_inj hEq] at hValue
    exact hValue
  · intro h
    exact List.mem_map_of_mem (List.mem_filter.mpr ⟨ha, by rw [h]; rfl⟩)

/-- The table of a formula, said without evaluation. -/
def table (f : Formula) : List (Assignment × Bool) :=
  f.enumeration.rows.map fun a => (a, f.value a.valuation)

/-- The lines of a report tell the table. -/
theorem table_eq_of_lines {f g : Formula} (h : (sections f).lines = (sections g).lines) :
    table f = table g := by
  have hNames := names_eq_of_prefix (f := f) (g := g) (by rw [h])
  have hRows : f.enumeration.rows = g.enumeration.rows := by
    rw [Formula.enumeration, Formula.enumeration, Enumeration.ofFormula, Enumeration.ofFormula,
      hNames]
  have hSatisfying := satisfying_eq_of_lines hNames h
  rw [table, table, ← hRows]
  refine List.map_congr_left fun a ha => ?_
  have hValue : f.value a.valuation = g.value a.valuation := by
    rw [Bool.eq_iff_iff, ← mem_satisfying ha, ← mem_satisfying (hRows ▸ ha), hSatisfying]
  rw [hValue]

/-- The table tells the rows. -/
theorem rows_eq_of_table {f g : Formula} (h : table f = table g) :
    f.enumeration.rows = g.enumeration.rows := by
  have hRows := congrArg (List.map (·.1)) h
  simpa [table, Function.comp_def] using hRows

/-- The names of a formula can be read off its table, which has at least one
row. -/
theorem names_eq_of_table {f g : Formula} (h : table f = table g) : f.names = g.names := by
  have hRow : ∀ k : Formula, k.enumeration.rows[0]? = some (k.enumeration.get 0) := by
    intro k
    have hSize : 0 < k.enumeration.size := Nat.two_pow_pos k.names.size
    simp [Enumeration.rows, hSize]
  have hFirst := congrArg (fun rows : List Assignment => rows[0]?) (rows_eq_of_table h)
  rw [hRow, hRow, Option.some.injEq] at hFirst
  have hNames := congrArg Assignment.names hFirst
  rw [Enumeration.get, Enumeration.get, Assignment.names_ofBits f.enumeration.names.increasing,
    Assignment.names_ofBits g.enumeration.names.increasing] at hNames
  exact NameSet.ext hNames

/-- Formulas with the same table list the same rows. -/
theorem rowsWith_eq_of_table {f g : Formula} (h : table f = table g) (b : Bool) :
    rowsWith f b = rowsWith g b := by
  have hTable : ∀ k : Formula, rowsWith k b =
      ((table k).filter fun row => row.2 == b).map fun row => row.1.render := by
    intro k
    rw [table, List.filter_map, List.map_map]
    rfl
  rw [hTable f, hTable g, h]

/-- Two formulas have the same report exactly when they have the same text and
the same table. -/
theorem text_eq_iff {f g : Formula} :
    (sections f).text = (sections g).text ↔ f.text = g.text ∧ table f = table g := by
  constructor
  · intro h
    have hChars := congrArg String.toList h
    rw [toList_text, toList_text] at hChars
    have hLines := ended_inj (oneLine_of_mem_lines f) (oneLine_of_mem_lines g) hChars
    refine ⟨?_, table_eq_of_lines hLines⟩
    simp only [Sections.lines, Sections.front, List.cons_append, List.cons.injEq,
      String.append_right_inj] at hLines
    exact hLines.1
  · rintro ⟨hText, hTable⟩
    have hSections : sections f = sections g := by
      simp only [sections, hText, names_eq_of_table hTable, rows_eq_of_table hTable,
        rowsWith_eq_of_table hTable]
    rw [hSections]

end Report

-- ---------------------------------------------------------------------------
-- Reports of a run
-- ---------------------------------------------------------------------------

/-- The text is the report on a formula without holes. -/
def IsReport (s : String) : Prop :=
  ∃ f : Formula, f.Complete ∧ (Report.text f).result = .ok s

/-- Every report is the text of the sections of a formula. -/
theorem IsReport.exists_sections {s : String} (h : IsReport s) :
    ∃ f : Formula, f.Complete ∧ s = (Report.sections f).text := by
  obtain ⟨f, hf, hText⟩ := h
  rw [Report.result_text hf, Except.ok.injEq] at hText
  exact ⟨f, hf, hText.symm⟩

/-- No report is a proper start of another one. -/
theorem IsReport.eq_of_prefix (s t : String) (hs : IsReport s) (ht : IsReport t)
    (h : s.toList <+: t.toList) : s = t := by
  obtain ⟨f, hf, rfl⟩ := hs.exists_sections
  obtain ⟨g, hg, rfl⟩ := ht.exists_sections
  exact Report.prefix_code hf hg h

/-- No report is empty. -/
theorem not_isReport_empty : ¬ IsReport "" := by
  intro h
  obtain ⟨f, -, hText⟩ := h.exists_sections
  have hChars := congrArg String.toList hText
  rw [Report.toList_text, Report.Sections.lines, Report.Sections.front] at hChars
  simp [ended] at hChars

namespace Command

/-- What is reported on complete formulas are reports. -/
theorem Reported.isReport {formulas : List Formula} {texts : List String}
    (h : Reported formulas texts) (hComplete : ∀ f ∈ formulas, f.Complete) :
    ∀ s ∈ texts, IsReport s := by
  induction h with
  | nil => nofun
  | @cons f text formulas texts hText _ ih =>
    intro s hs
    rcases List.mem_cons.mp hs with rfl | hs
    · exact ⟨f, hComplete f List.mem_cons_self, hText⟩
    · exact ih (fun g hg => hComplete g (List.mem_cons_of_mem _ hg)) s hs

/-- Whatever a run writes besides log entries is a report. -/
theorem isReport_of_carryOut (o : Options) (s : Surroundings) :
    ∀ text ∈ reports (carryOut o s).output, IsReport text := by
  have hNone : reports (carryOut o s).output = [] →
      ∀ text ∈ reports (carryOut o s).output, IsReport text := by
    intro h text hText
    rw [h] at hText
    cases hText
  cases hs : s.interrupted with
  | true => exact hNone (by simp [carryOut, hs])
  | false =>
    rcases sources_cases o s.files with
      ⟨found, hFound⟩ | ⟨path, cause, hFile, hCause⟩ | ⟨fault, hSources, -⟩
    · rcases parsed_or_refused found with ⟨formulas, hParsed⟩ | ⟨cause, hRefused⟩
      · obtain ⟨formulas, hChosen⟩ := exists_chosen hFound hParsed
        obtain ⟨-, -, -, hComplete, -⟩ := carryOut_collect_of_chosen hChosen
        rcases carryOut_of_chosen hs hChosen with
          ⟨-, hReported⟩ | ⟨-, -, done, rest, hSplit, -, hReported⟩
        · exact hReported.isReport hComplete
        · refine hReported.isReport fun f hf => hComplete f ?_
          rw [hSplit]
          exact List.mem_append_left rest hf
      · have hOutput := (carryOut_of_refused hs hFound hRefused).2.2
        exact hNone (by simp [hOutput])
    · exact hNone (carryOut_of_file_fault hs hFile hCause).2.1
    · exact hNone (carryOut_of_sources_error hs hSources).2.1

/-- No log entry of the run is shown. -/
def Result.Unlogged (r : Result) : Prop :=
  ∀ e, Piece.entry e ∈ r.output → e.passes r.threshold = false

/-- Without log entries the reports are all that is written. -/
theorem Result.Unlogged.stdout_eq {r : Result} (h : r.Unlogged) :
    r.stdout = String.join (reports r.output) := by
  have hPieces : ∀ pieces : List Piece,
      (∀ e, Piece.entry e ∈ pieces → e.passes r.threshold = false) →
      shown r.threshold pieces = String.join (reports pieces) := by
    intro pieces hPieces
    rw [← String.toList_inj]
    induction pieces with
    | nil => rfl
    | cons piece pieces ih =>
      have hRest := ih fun e he => hPieces e (List.mem_cons_of_mem _ he)
      rw [shown, String.toList_join] at hRest ⊢
      rw [List.map_cons, List.flatMap_cons, hRest]
      cases piece with
      | entry e => simp [Piece.shown, hPieces e List.mem_cons_self]
      | text s => simp [Piece.shown]
  exact hPieces r.output h

end Command

end TruthTable
