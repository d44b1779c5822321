import TruthTable.Command.Run
import TruthTable.Proofs.ParsedText
import TruthTable.Proofs.Quiet

/-!
# The stages of a run

A run finds the texts of the formulas, reads all of them, and only then writes
a report and makes a picture for one formula after the other. A fault of the
formula file belongs to the first stage and a fault of formula text to the
second; what can go wrong in the third is neither of the two, so the exit code
names the stage.

Main results:

* `analyseAll_cases`  — the reports written are those of all formulas, or of a
  non-empty part from the front when a picture fails.
* `carryOut_cases`    — the ways in which a run can end.
* `run_tells_stage`   — what each exit code says.
-/

namespace TruthTable.Command

-- ---------------------------------------------------------------------------
-- Finding and reading the formulas
-- ---------------------------------------------------------------------------

/-- The texts of the formulas were found: those of the command line, and after
them those of the file. -/
inductive Obtained (o : Options) (files : FileTree) : List Value → Prop
  | words : o.file = none → Obtained o files o.expressions
  | file {path found} : o.file = some path → fromFile files path = .ok found →
      Obtained o files (o.expressions ++ found.map .text)

/-- The texts that are found are those of the command line and of the file. -/
theorem sources_eq_ok_iff {o : Options} {files : FileTree} {found : List Value} :
    sources o files = .ok found ↔ Obtained o files found := by
  unfold sources
  split
  · rename_i hFile
    constructor
    · intro h
      injection h with h
      exact h ▸ .words hFile
    · intro h
      cases h with
      | words => rfl
      | file hPath => rw [hFile] at hPath; cases hPath
  · rename_i path hFile
    rw [bind_eq_ok_iff]
    constructor
    · rintro ⟨texts, hRead, h⟩
      injection h with h
      exact h ▸ .file hFile hRead
    · intro h
      cases h with
      | words hNone => rw [hFile] at hNone; cases hNone
      | @file path' texts hPath hRead =>
        rw [hFile] at hPath
        injection hPath with hPath
        exact ⟨texts, hPath ▸ hRead, rfl⟩

/-- A formula file holds a formula, or is of no use, or fails in a way that has
nothing to do with formulas. -/
theorem fromFile_cases (files : FileTree) (path : Value) :
    (∃ found, fromFile files path = .ok found ∧ found ≠ []) ∨
      (∃ cause, fromFile files path = .error (.formulaFile cause)) ∨
      ∃ fault, fromFile files path = .error fault ∧ fault.Unexpected := by
  unfold fromFile
  split
  · unfold FormulaFile.read
    split
    · exact .inr (.inr ⟨_, rfl, trivial⟩)
    · exact .inr (.inl ⟨_, rfl⟩)
    · exact .inr (.inl ⟨_, rfl⟩)
    · split
      · exact .inr (.inr ⟨_, rfl, trivial⟩)
      · split
        · exact .inr (.inl ⟨_, rfl⟩)
        · rename_i hSome
          exact .inl ⟨_, rfl, hSome⟩
  · exact .inr (.inr ⟨_, rfl, trivial⟩)

/-- A value is read as a formula or refused as formula text. -/
theorem parseValue_cases (v : Value) :
    (∃ f, parseValue v = .ok f) ∨ ∃ cause, parseValue v = .error (.parse cause) := by
  cases v with
  | text source => exact parse_cases source
  | _ => exact .inr ⟨_, rfl⟩

theorem complete_of_parseValue {v : Value} {f : Formula} (h : parseValue v = .ok f) :
    f.Complete := by
  cases v with
  | text source => exact complete_of_parse h
  | _ => cases h

/-- The texts are those of the formulas, in order. -/
def Parsed (found : List Value) (formulas : List Formula) : Prop :=
  List.Forall₂ (fun v f => parseValue v = .ok f) found formulas

theorem Parsed.complete {found : List Value} {formulas : List Formula}
    (h : Parsed found formulas) : ∀ f ∈ formulas, f.Complete := by
  induction h with
  | nil => nofun
  | cons hParse _ ih =>
    intro g hg
    rcases List.mem_cons.mp hg with rfl | hg
    · exact complete_of_parseValue hParse
    · exact ih g hg

/-- If all texts were read, each of them is a formula. -/
theorem Parsed.exists_ok {found : List Value} {formulas : List Formula} (h : Parsed found formulas)
    {v : Value} (hv : v ∈ found) : ∃ f, parseValue v = .ok f := by
  induction h with
  | nil => cases hv
  | @cons u f found formulas hParse _ ih =>
    rcases List.mem_cons.mp hv with rfl | hv
    · exact ⟨f, hParse⟩
    · exact ih hv

/-- Some of the texts are refused, the first of them for `cause`. -/
inductive FirstRefused (cause : ParseFault) : List Value → Prop
  | here {v later} : parseValue v = .error (.parse cause) → FirstRefused cause (v :: later)
  | after {v f later} : parseValue v = .ok f → FirstRefused cause later →
      FirstRefused cause (v :: later)

/-- The cause is that of one of the texts. -/
theorem FirstRefused.exists_error {cause : ParseFault} {found : List Value}
    (h : FirstRefused cause found) : ∃ v ∈ found, parseValue v = .error (.parse cause) := by
  induction h with
  | @here v later hv => exact ⟨v, List.mem_cons_self, hv⟩
  | after _ _ ih =>
    obtain ⟨u, hu, hFault⟩ := ih
    exact ⟨u, List.mem_cons_of_mem _ hu, hFault⟩

/-- Either all texts are formulas, or there is a first one that is none. -/
theorem parsed_or_refused (found : List Value) :
    (∃ formulas, Parsed found formulas) ∨ ∃ cause, FirstRefused cause found := by
  induction found with
  | nil => exact .inl ⟨[], .nil⟩
  | cons v found ih =>
    rcases parseValue_cases v with ⟨f, hParse⟩ | ⟨cause, hFault⟩
    · rcases ih with ⟨formulas, hRest⟩ | ⟨cause, hRest⟩
      · exact .inl ⟨f :: formulas, .cons hParse hRest⟩
      · exact .inr ⟨cause, .after hParse hRest⟩
    · exact .inr ⟨cause, .here hFault⟩

/-- The first text is read before the others. -/
theorem result_readAll_cons (v : Value) (found : List Value) :
    (readAll (v :: found)).result =
      parseValue v >>= fun f => (readAll found).result >>= fun others =>
        .ok ((v.plain, f) :: others) := by
  simp only [readAll, Logged.result_bind, Logged.result_pure]
  rfl

/-- Texts that are formulas are all read, in order. -/
theorem result_readAll_of_parsed {found : List Value} {formulas : List Formula}
    (h : Parsed found formulas) :
    ∃ pairs, (readAll found).result = .ok pairs ∧ pairs.map (·.2) = formulas := by
  induction h with
  | nil => exact ⟨[], rfl, rfl⟩
  | @cons v f found formulas hParse _ ih =>
    obtain ⟨pairs, hRest, rfl⟩ := ih
    refine ⟨(v.plain, f) :: pairs, ?_, rfl⟩
    rw [result_readAll_cons, hParse, ok_bind, hRest, ok_bind]

/-- The first text that is no formula ends the reading. -/
theorem result_readAll_of_refused {cause : ParseFault} {found : List Value}
    (h : FirstRefused cause found) : (readAll found).result = .error (.parse cause) := by
  induction h with
  | here hv => rw [result_readAll_cons, hv]; rfl
  | after hParse _ ih => rw [result_readAll_cons, hParse, ok_bind, ih]; rfl

/-- Reading a formula is logged for debugging only. -/
theorem level_readingOutcome (outcome : Except Fault Formula) :
    ∀ e ∈ readingOutcome outcome, e.level = .debug := by
  unfold readingOutcome
  split <;> simp

/-- Reading notes nothing but details. -/
theorem level_readAll (found : List Value) : ∀ e ∈ (readAll found).entries, e.level = .debug := by
  induction found with
  | nil => nofun
  | cons v found ih =>
    intro e he
    rcases Logged.mem_entries_bind he with he | ⟨f, -, he⟩
    · rcases List.mem_cons.mp he with rfl | he
      · rfl
      · exact level_readingOutcome _ e he
    · rcases Logged.mem_entries_bind he with he | ⟨others, -, he⟩
      · exact ih e he
      · cases he

/-- Each sample goes with its text. -/
theorem samples_eq {fs : List Formula} (h : ∀ f ∈ fs, f.Complete) :
    samples fs = .ok (fs.map fun f => (f.text, f)) := by
  induction fs with
  | nil => rfl
  | cons f fs ih =>
    rw [samples, Formula.render_complete (h f List.mem_cons_self), ok_bind,
      ih fun g hg => h g (List.mem_cons_of_mem _ hg)]
    rfl

theorem complete_samples : ∀ f ∈ Samples.all, f.Complete := by
  simp [Samples.all, Samples.p, Samples.q, Samples.r, Formula.or, Formula.and, Formula.implies,
    Formula.xor, Formula.iff, Formula.Complete]

/-- Collecting the formulas: where no text is found the samples are taken, else
all texts are read. -/
theorem carryOut_collect (o : Options) (s : Scene) :
    (collect o).carryOut s =
      match sources o s.files with
      | .error fault => (.error fault, s)
      | .ok [] => (samples Samples.all, s)
      | .ok (v :: found) => ((readAll (v :: found)).result,
          { s with output := s.output ++ (readAll (v :: found)).entries.map .entry }) := by
  simp only [collect, Action.carryOut_bind, Action.carryOut_files, Action.carryOut_ofExcept]
  cases sources o s.files with
  | error fault => rfl
  | ok found =>
    cases found with
    | nil => exact Action.carryOut_ofExcept _ s
    | cons v found => exact Action.carryOut_ofLogged _ s

-- ---------------------------------------------------------------------------
-- Writing the reports
-- ---------------------------------------------------------------------------

/-- The texts are the reports on the formulas, in order. -/
def Reported (formulas : List Formula) (texts : List String) : Prop :=
  List.Forall₂ (fun f text => (Report.text f).result = .ok text) formulas texts

/-- Between two scenes the reports on the formulas were written, and no others. -/
def Wrote (formulas : List Formula) (s after : Scene) : Prop :=
  ∃ texts, Reported formulas texts ∧ reports after.output = reports s.output ++ texts

/-- Reports on some formulas and then on others are the reports on all of them. -/
theorem Wrote.append {fs gs : List Formula} {s t after : Scene} (hf : Wrote fs s t)
    (hg : Wrote gs t after) : Wrote (fs ++ gs) s after := by
  obtain ⟨texts, hTexts, ht⟩ := hf
  obtain ⟨more, hMore, hAfter⟩ := hg
  refine ⟨texts ++ more, List.rel_append hTexts hMore, ?_⟩
  rw [hAfter, ht, List.append_assoc]

/-- One formula: its report is written before anything can fail, and all that
can fail is the picture. -/
theorem analyse_cases (o : Options) (w : Picture.Workshop) (index : Nat) (source : String)
    {f : Formula} (hf : f.Complete) (s : Scene) :
    Wrote [f] s ((analyse o w index source f).carryOut s).2 ∧
      (((analyse o w index source f).carryOut s).1 = .ok () ∨
        ∃ fault, ((analyse o w index source f).carryOut s).1 = .error fault ∧
          fault.Unexpected ∧ o.folder ≠ none) := by
  obtain ⟨text, hText⟩ := Report.exists_text hf
  have hReported : Reported [f] [text] := .cons hText .nil
  simp only [analyse, Action.carryOut_bind, Action.carryOut_note, Action.carryOut_ofLogged, hText,
    Action.carryOut_emit]
  cases hFolder : o.folder with
  | none => exact ⟨⟨[text], hReported, by simp⟩, .inl rfl⟩
  | some folder =>
    -- what is left to do is the picture
    have hQuiet : Quiet (discard (Picture.make w
        ⟨.formula f, "expression_" ++ toString index, o.format, folder.text⟩)) :=
      (Picture.quiet_make w f _ o.format folder.text).bind fun _ => .pure _
    refine ⟨⟨[text], hReported, (hQuiet.reports_eq _).trans (by simp)⟩, ?_⟩
    refine (hQuiet.ok_or_unexpected _).imp_right ?_
    rintro ⟨fault, hEnd, hFault⟩
    exact ⟨fault, hEnd, hFault, Option.some_ne_none folder⟩

/-- All reports are written, or those of a non-empty part from the front. -/
theorem analyseAll_cases (o : Options) (w : Nat → Picture.Workshop)
    {pairs : List (String × Formula)} (h : ∀ f ∈ pairs.map (·.2), f.Complete) (index : Nat)
    (s : Scene) :
    (((analyseAll o w index pairs).carryOut s).1 = .ok () ∧
      Wrote (pairs.map (·.2)) s ((analyseAll o w index pairs).carryOut s).2) ∨
    ∃ fault done rest, ((analyseAll o w index pairs).carryOut s).1 = .error fault ∧
      fault.Unexpected ∧ o.folder ≠ none ∧ pairs.map (·.2) = done ++ rest ∧ done ≠ [] ∧
      Wrote done s ((analyseAll o w index pairs).carryOut s).2 := by
  induction pairs generalizing index s with
  | nil => exact .inl ⟨rfl, [], .nil, (List.append_nil _).symm⟩
  | cons pair pairs ih =>
    obtain ⟨source, f⟩ := pair
    have hf := h f List.mem_cons_self
    obtain ⟨hWrote, hFirst⟩ := analyse_cases o (w index) index source hf s
    rw [analyseAll, Action.carryOut_bind]
    generalize (analyse o (w index) index source f).carryOut s = outcome at hWrote hFirst
    obtain ⟨result, after⟩ := outcome
    rcases hFirst with rfl | ⟨fault, rfl, hFault, hFolder⟩
    · have hRest := ih (fun g hg => h g (List.mem_cons_of_mem _ hg)) (index + 1) after
      rcases hRest with ⟨hDone, hOthers⟩ |
        ⟨fault, done, rest, hEnd, hFault, hFolder, hSplit, -, hOthers⟩
      · exact .inl ⟨hDone, hWrote.append hOthers⟩
      · exact .inr ⟨fault, f :: done, rest, hEnd, hFault, hFolder, congrArg (f :: ·) hSplit,
          List.cons_ne_nil _ _, hWrote.append hOthers⟩
    · exact .inr ⟨fault, [f], pairs.map (·.2), rfl, hFault, hFolder, rfl, List.cons_ne_nil _ _,
        hWrote⟩

-- ---------------------------------------------------------------------------
-- How a run ends
-- ---------------------------------------------------------------------------

/-- Every unexpected fault ends a run with 5. -/
theorem ending_of_unexpected {fault : Fault} (h : fault.Unexpected) : (ending fault).1 = 5 := by
  cases fault with
  | parse cause => exact absurd h id
  | formulaFile cause => exact absurd h id
  | _ => rfl

/-- The formulas that a run is about: the samples where neither the command line
nor a file brings a formula, and else those that were read. -/
inductive Chosen (o : Options) (files : FileTree) : List Formula → Prop
  | samples : o.expressions = [] → o.file = none → Chosen o files Samples.all
  | given {found formulas} : o.expressions ≠ [] ∨ o.file ≠ none → Obtained o files found →
      Parsed found formulas → Chosen o files formulas

/-- Where formulas are asked for and found, there is at least one. -/
theorem Obtained.ne_nil {o : Options} {files : FileTree} {found : List Value}
    (h : Obtained o files found) (hAsked : o.expressions ≠ [] ∨ o.file ≠ none) : found ≠ [] := by
  cases h with
  | words hFile =>
    rcases hAsked with hAsked | hAsked
    · exact hAsked
    · exact absurd hFile hAsked
  | @file path texts hFile hRead =>
    rcases fromFile_cases files path with ⟨_, hOk, hSome⟩ | ⟨_, hFault⟩ | ⟨_, hFault, -⟩
    · rw [hRead] at hOk
      injection hOk with hOk
      subst hOk
      simp [hSome]
    · rw [hRead] at hFault; cases hFault
    · rw [hRead] at hFault; cases hFault

/-- If all texts are formulas, a run has formulas that it is about. -/
theorem exists_chosen {o : Options} {files : FileTree} {found : List Value}
    {formulas : List Formula} (hFound : Obtained o files found) (hParsed : Parsed found formulas) :
    ∃ formulas, Chosen o files formulas := by
  by_cases hAsked : o.expressions = [] ∧ o.file = none
  · exact ⟨_, .samples hAsked.1 hAsked.2⟩
  · exact ⟨formulas, .given (not_and_or.mp hAsked) hFound hParsed⟩

/-- Texts are found, or the file is of no use, or there is an unexpected fault. -/
theorem sources_cases (o : Options) (files : FileTree) :
    (∃ found, Obtained o files found) ∨
    (∃ path cause, o.file = some path ∧ fromFile files path = .error (.formulaFile cause)) ∨
    ∃ fault, sources o files = .error fault ∧ fault.Unexpected := by
  cases hFile : o.file with
  | none => exact .inl ⟨_, .words hFile⟩
  | some path =>
    rcases fromFile_cases files path with
      ⟨found, hRead, -⟩ | ⟨cause, hFault⟩ | ⟨fault, hRead, hFault⟩
    · exact .inl ⟨_, .file hFile hRead⟩
    · exact .inr (.inl ⟨path, cause, rfl, hFault⟩)
    · refine .inr (.inr ⟨fault, ?_, hFault⟩)
      simp only [sources, hFile, hRead]
      rfl

variable {o : Options} {s : Surroundings}

/-- A run that fails before the first formula. -/
theorem carryOut_of_sources_error (hs : s.interrupted = false) {fault : Fault}
    (h : sources o s.files = .error fault) :
    (carryOut o s).exit = (ending fault).1 ∧ reports (carryOut o s).output = [] ∧
      (carryOut o s).files = s.files := by
  have hCollect := carryOut_collect o ⟨s.files, [], ""⟩
  simp only [h] at hCollect
  simp [carryOut, hs, Action.carryOut_bind, hCollect]

/-- A run that fails at the first text that is no formula. -/
theorem carryOut_of_refused (hs : s.interrupted = false) {found : List Value} {cause : ParseFault}
    (hFound : Obtained o s.files found) (h : FirstRefused cause found) :
    (carryOut o s).exit = 2 ∧ (carryOut o s).files = s.files ∧
      (carryOut o s).output = (readAll found).entries.map .entry ++
        [.entry ⟨.error, "Formula parsing error: " ++ cause.message⟩] := by
  have hCollect := carryOut_collect o ⟨s.files, [], ""⟩
  rw [sources_eq_ok_iff.mpr hFound] at hCollect
  have hResult := result_readAll_of_refused h
  cases found with
  | nil => cases h
  | cons v found =>
    simp only [hResult] at hCollect
    simp [carryOut, hs, Action.carryOut_bind, hCollect, ending]

/-- Collecting gives the formulas that the run is about, and adds log entries
only. -/
theorem carryOut_collect_of_chosen {files : FileTree} {formulas : List Formula}
    (h : Chosen o files formulas) :
    ∃ (pairs : List (String × Formula)) (entries : List Log.Entry),
      pairs.map (·.2) = formulas ∧ (∀ f ∈ formulas, f.Complete) ∧
      (collect o).carryOut ⟨files, [], ""⟩ = (.ok pairs, ⟨files, entries.map .entry, ""⟩) := by
  have hCollect := carryOut_collect o ⟨files, [], ""⟩
  cases h with
  | samples hNone hFile =>
    have hSources : sources o files = .ok [] := by
      rw [sources_eq_ok_iff, ← hNone]
      exact .words hFile
    refine ⟨Samples.all.map fun f => (f.text, f), [], by simp [Function.comp_def],
      complete_samples, ?_⟩
    rw [hCollect, hSources]
    simp only [samples_eq complete_samples, List.map_nil]
  | @given found _ hAsked hFound hParsed =>
    obtain ⟨pairs, hPairs, rfl⟩ := result_readAll_of_parsed hParsed
    refine ⟨pairs, (readAll found).entries, rfl, hParsed.complete, ?_⟩
    have hSome := hFound.ne_nil hAsked
    rw [hCollect, sources_eq_ok_iff.mpr hFound]
    cases found with
    | nil => exact absurd rfl hSome
    | cons v found => simp only [hPairs, List.nil_append]

/-- A run that has its formulas. -/
theorem carryOut_of_chosen (hs : s.interrupted = false) {formulas : List Formula}
    (h : Chosen o s.files formulas) :
    ((carryOut o s).exit = 0 ∧ Reported formulas (reports (carryOut o s).output)) ∨
    ((carryOut o s).exit = 5 ∧ o.folder ≠ none ∧ ∃ done rest, formulas = done ++ rest ∧ done ≠ [] ∧
      Reported done (reports (carryOut o s).output)) := by
  obtain ⟨pairs, entries, rfl, hComplete, hCollect⟩ := carryOut_collect_of_chosen h
  have hCases := analyseAll_cases o s.workshop hComplete 1 ⟨s.files, entries.map .entry, ""⟩
  have hWork : ((collect o >>= analyseAll o s.workshop 1).carryOut ⟨s.files, [], ""⟩) =
      (analyseAll o s.workshop 1 pairs).carryOut ⟨s.files, entries.map .entry, ""⟩ := by
    rw [Action.carryOut_bind, hCollect]
  simp only [carryOut, hs, Bool.false_eq_true, if_false, hWork]
  generalize (analyseAll o s.workshop 1 pairs).carryOut _ = outcome at hCases ⊢
  obtain ⟨result, after⟩ := outcome
  rcases hCases with ⟨rfl, texts, hTexts, hOutput⟩ |
    ⟨fault, done, rest, rfl, hFault, hFolder, hSplit, hDone, texts, hTexts, hOutput⟩
  · rw [reports_entries, List.nil_append] at hOutput
    exact .inl ⟨rfl, hOutput ▸ hTexts⟩
  · rw [reports_entries, List.nil_append] at hOutput
    refine .inr ⟨ending_of_unexpected hFault, hFolder, done, rest, hSplit, hDone, ?_⟩
    simpa [hOutput] using hTexts

/-- A file that is of no use ends the run with 3, before any report. -/
theorem carryOut_of_file_fault (hs : s.interrupted = false) {path : Value}
    {cause : FormulaFileFault} (hFile : o.file = some path)
    (h : fromFile s.files path = .error (.formulaFile cause)) :
    (carryOut o s).exit = 3 ∧ reports (carryOut o s).output = [] ∧
      (carryOut o s).files = s.files := by
  have hSources : sources o s.files = .error (.formulaFile cause) := by
    simp only [sources, hFile, h]
    rfl
  exact carryOut_of_sources_error hs hSources

/-- A run ends at a formula file that is of no use, at a text that is no formula,
in an unexpected fault, or with all its formulas analysed. -/
theorem carryOut_cases (o : Options) (hs : s.interrupted = false) :
    ((carryOut o s).exit = 3 ∧
      ∃ path cause, o.file = some path ∧ fromFile s.files path = .error (.formulaFile cause)) ∨
    ((carryOut o s).exit = 2 ∧
      ∃ found cause, Obtained o s.files found ∧ FirstRefused cause found) ∨
    (carryOut o s).exit = 5 ∨
    ((carryOut o s).exit = 0 ∧ ∃ formulas, Chosen o s.files formulas) := by
  rcases sources_cases o s.files with
    ⟨found, hFound⟩ | ⟨path, cause, hFile, hCause⟩ | ⟨fault, hSources, hFault⟩
  · rcases parsed_or_refused found with ⟨formulas, hParsed⟩ | ⟨cause, hRefused⟩
    · obtain ⟨formulas, hChosen⟩ := exists_chosen hFound hParsed
      rcases carryOut_of_chosen hs hChosen with ⟨hExit, -⟩ | ⟨hExit, -⟩
      · exact .inr (.inr (.inr ⟨hExit, formulas, hChosen⟩))
      · exact .inr (.inr (.inl hExit))
    · exact .inr (.inl ⟨(carryOut_of_refused hs hFound hRefused).1, found, cause, hFound, hRefused⟩)
  · exact .inl ⟨(carryOut_of_file_fault hs hFile hCause).1, path, cause, hFile, hCause⟩
  · have hExit := (carryOut_of_sources_error hs hSources).1
    exact .inr (.inr (.inl (hExit.trans (ending_of_unexpected hFault))))

/-- What the exit code of a run tells, and what the run has done by then. -/
structure TellsStage (o : Options) (s : Surroundings) (r : Result) : Prop where
  exit_cases : r.exit = 0 ∨ r.exit = 2 ∨ r.exit = 3 ∨ r.exit = 5
  /-- The formula file is of no use. -/
  three_iff : r.exit = 3 ↔
    ∃ path cause, o.file = some path ∧ fromFile s.files path = .error (.formulaFile cause)
  /-- The texts are found, and one of them is no formula. -/
  two_iff : r.exit = 2 ↔
    ∃ found, Obtained o s.files found ∧ ∃ v ∈ found, ∃ fault, parseValue v = .error fault
  /-- The fault that is noted is that of the first text that is no formula. -/
  of_two : r.exit = 2 → ∃ found cause, Obtained o s.files found ∧ FirstRefused cause found ∧
    ∃ details : List Log.Entry, (∀ e ∈ details, e.level = .debug) ∧ r.output =
      details.map .entry ++ [.entry ⟨.error, "Formula parsing error: " ++ cause.message⟩]
  nothing_done : r.exit = 2 ∨ r.exit = 3 → reports r.output = [] ∧ r.files = s.files
  of_zero : r.exit = 0 → (∃ formulas, Chosen o s.files formulas) ∧
    ∀ formulas, Chosen o s.files formulas → Reported formulas (reports r.output)
  /-- A run that fails although it has its formulas fails after the first report. -/
  of_five : r.exit = 5 → ∀ formulas, Chosen o s.files formulas → o.folder ≠ none ∧
    ∃ done rest, formulas = done ++ rest ∧ done ≠ [] ∧ Reported done (reports r.output)

/-- With 2 a run ends only at a text that is no formula. -/
theorem firstRefused_of_two (hs : s.interrupted = false) (h : (carryOut o s).exit = 2) :
    ∃ found cause, Obtained o s.files found ∧ FirstRefused cause found := by
  rcases carryOut_cases o hs with ⟨hExit, -⟩ | ⟨-, hRefused⟩ | hExit | ⟨hExit, -⟩
  · omega
  · exact hRefused
  · omega
  · omega

/-- With 3 a run ends only at a file that is of no use. -/
theorem file_fault_of_three (hs : s.interrupted = false) (h : (carryOut o s).exit = 3) :
    ∃ path cause, o.file = some path ∧ fromFile s.files path = .error (.formulaFile cause) := by
  rcases carryOut_cases o hs with ⟨-, hFault⟩ | ⟨hExit, -⟩ | hExit | ⟨hExit, -⟩
  · exact hFault
  · omega
  · omega
  · omega

/--
**The exit code tells the stage at which a run ended.** Without an interruption
it is 0, 2, 3 or 5, whatever the files are and whatever the layout program does.
A formula file of no use gives 3 and a text that is no formula gives 2, and then
nothing is reported and no file is changed. A run that ends in 0 has reported on
all its formulas; one that has its formulas and ends in 5 has reported on a
non-empty part of them from the front.
-/
theorem run_tells_stage (o : Options) (s : Surroundings) (hs : s.interrupted = false) :
    TellsStage o s (carryOut o s) where
  exit_cases := by
    rcases carryOut_cases o hs with ⟨hExit, -⟩ | ⟨hExit, -⟩ | hExit | ⟨hExit, -⟩ <;> omega
  three_iff := by
    refine ⟨file_fault_of_three hs, ?_⟩
    rintro ⟨path, cause, hFile, hCause⟩
    exact (carryOut_of_file_fault hs hFile hCause).1
  two_iff := by
    constructor
    · intro hExit
      obtain ⟨found, cause, hFound, hRefused⟩ := firstRefused_of_two hs hExit
      obtain ⟨v, hv, hFault⟩ := hRefused.exists_error
      exact ⟨found, hFound, v, hv, _, hFault⟩
    · rintro ⟨found, hFound, v, hv, fault, hFault⟩
      rcases parsed_or_refused found with ⟨formulas, hParsed⟩ | ⟨cause, hRefused⟩
      · obtain ⟨f, hParse⟩ := hParsed.exists_ok hv
        rw [hFault] at hParse
        cases hParse
      · exact (carryOut_of_refused hs hFound hRefused).1
  of_two := by
    intro hExit
    obtain ⟨found, cause, hFound, hRefused⟩ := firstRefused_of_two hs hExit
    have hOutput := (carryOut_of_refused hs hFound hRefused).2.2
    exact ⟨found, cause, hFound, hRefused, _, level_readAll found, hOutput⟩
  nothing_done := by
    rintro (hExit | hExit)
    · obtain ⟨found, cause, hFound, hRefused⟩ := firstRefused_of_two hs hExit
      obtain ⟨-, hFiles, hOutput⟩ := carryOut_of_refused hs hFound hRefused
      exact ⟨by simp [hOutput], hFiles⟩
    · obtain ⟨path, cause, hFile, hCause⟩ := file_fault_of_three hs hExit
      exact (carryOut_of_file_fault hs hFile hCause).2
  of_zero := by
    intro hExit
    constructor
    · rcases carryOut_cases o hs with ⟨hOther, -⟩ | ⟨hOther, -⟩ | hOther | ⟨-, hChosen⟩
      · omega
      · omega
      · omega
      · exact hChosen
    · intro formulas hChosen
      rcases carryOut_of_chosen hs hChosen with ⟨-, hReported⟩ | ⟨hOther, -⟩
      · exact hReported
      · omega
  of_five := by
    intro hExit formulas hChosen
    rcases carryOut_of_chosen hs hChosen with ⟨hOther, -⟩ | ⟨-, hReported⟩
    · omega
    · exact hReported

/-- A formula that is refused keeps the one before it from being analysed. -/
theorem run_tells_stage_sample :
    (carryOut { Options.standard with expressions := [.text "q", .text ""] }
        ⟨⟨[], []⟩, Layout.works, false, Graph.usualRoom, .nothing⟩).exit = 2 ∧
      reports (carryOut { Options.standard with expressions := [.text "q", .text ""] }
        ⟨⟨[], []⟩, Layout.works, false, Graph.usualRoom, .nothing⟩).output = [] := by
  have hStage := run_tells_stage { Options.standard with expressions := [.text "q", .text ""] }
    ⟨⟨[], []⟩, Layout.works, false, Graph.usualRoom, .nothing⟩ rfl
  have hFault : parseValue (.text "") = .error (.parse .blank) := rfl
  have hExit := hStage.two_iff.mpr
    ⟨_, .words rfl, .text "", List.mem_cons_of_mem _ List.mem_cons_self, _, hFault⟩
  exact ⟨hExit, (hStage.nothing_done (.inl hExit)).1⟩

end TruthTable.Command
