import TruthTable.Proofs.FormulaFiles
import TruthTable.Proofs.Respelling
import TruthTable.Proofs.Scan
import TruthTable.Proofs.Stages

/-!
# Two kinds of white space

Stripping drops many characters that the lexer does not skip: those that are
blank and no separators. Such a character is no part of a lexeme either, so
wherever it stands it is an obstacle, while separators at the ends of a text
move its tokens and change nothing else. Hence a text and what is left of it
without its blank ends are never read as two formulas; all that can happen is
that the text as it stands is refused.

Main results:

* `splitFrom_append_gap` — separators at the end of a text leave no trace.
* `Printed.isSkipped`    — in a text that is split to its end, all that is blank
  is a separator.
* `parse_eq_ok_iff_strip` — when a text is read, in terms of the text without
  its blank ends.
* `collect_unstripped`   — the formulas of a file, given on the command line
  without being stripped.
* `exists_empty_iff`     — when a text is refused as empty.
* `blank_ends_change_no_formula` — all of it.
-/

namespace TruthTable

-- ---------------------------------------------------------------------------
-- Separators at the end of a text
-- ---------------------------------------------------------------------------

namespace Lexing

variable {gap : List Char}

/-- Separators at the end do not make a word longer. -/
theorem takeWhile_append_gap (h : ∀ c ∈ gap, isSkipped c = true) (rest : List Char) :
    (rest ++ gap).takeWhile Char.isAlphanum = rest.takeWhile Char.isAlphanum := by
  induction rest with
  | nil =>
    cases gap with
    | nil => rfl
    | cons c gap =>
      have hc := isAlphanum_of_isSkipped (h c List.mem_cons_self)
      exact List.takeWhile_cons_of_neg (by simp [hc])
  | cons c rest ih => rw [List.cons_append, List.takeWhile_cons, List.takeWhile_cons, ih]

/-- A separator neither continues a word nor completes a symbol. -/
theorem lexeme?_append_gap (h : ∀ c ∈ gap, isSkipped c = true) (c : Char) (rest : List Char) :
    lexeme? c (rest ++ gap) = lexeme? c rest := by
  cases gap with
  | nil => rw [List.append_nil]
  | cons d gap =>
    have hd := h d List.mem_cons_self
    have hSymbol : d ≠ '-' ∧ d ≠ '=' ∧ d ≠ '>' := by
      refine ⟨?_, ?_, ?_⟩ <;> rintro rfl <;> exact absurd hd (by decide)
    unfold lexeme?
    rw [takeWhile_append_gap h]
    split
    · rfl
    · -- a symbol has at most three characters
      match rest with
      | [] => grind
      | [e] => grind
      | e :: e' :: rest => grind

/-- No token goes beyond the end of the text. -/
theorem more_le_length {c : Char} {rest : List Char} {kind : TokenKind} {more : Nat}
    (h : lexeme? c rest = some (kind, more)) : more ≤ rest.length := by
  obtain ⟨x, hChars, hLength, -, -⟩ := lexeme?_eq_some h
  rw [hChars, List.length_cons, List.length_take] at hLength
  omega

/-- **Separators at the end of a text leave no trace.** -/
theorem splitFrom_append_gap (h : ∀ c ∈ gap, isSkipped c = true) (start : Nat) (cs : List Char) :
    splitFrom start (cs ++ gap) = splitFrom start cs := by
  fun_induction splitFrom start cs with
  | case1 start =>
    have hGap := splitFrom_gap h start []
    rw [List.append_nil] at hGap
    rw [List.nil_append, hGap, splitFrom]
  | case2 start c rest hSkipped ih => rw [List.cons_append, splitFrom_skip hSkipped, ih]
  | case3 start c rest hSkipped hLexeme =>
    rw [← lexeme?_append_gap h] at hLexeme
    exact splitFrom_obstacle (by simpa using hSkipped) hLexeme start
  | case4 start c rest hSkipped kind more hLexeme stop token others ih =>
    have hMore := more_le_length hLexeme
    rw [← lexeme?_append_gap h] at hLexeme
    rw [List.cons_append, splitFrom_token (by simpa using hSkipped) hLexeme,
      List.take_append_of_le_length hMore, List.drop_append_of_le_length hMore, ih]

end Lexing

-- ---------------------------------------------------------------------------
-- Blank characters
-- ---------------------------------------------------------------------------

/-- What stripping a text drops at its front and at its back. -/
structure Text.Dropped (cs front back : List Char) : Prop where
  text : cs = front ++ (Text.strip cs ++ back)
  blank : ∀ c ∈ front ++ back, Text.isBlank c = true

/-- Stripping drops blank characters at both ends, and nothing else. -/
theorem Text.exists_dropped (cs : List Char) : ∃ front back, Text.Dropped cs front back := by
  have hBack : Text.strip cs ++ (cs.dropWhile Text.isBlank).rtakeWhile Text.isBlank =
      cs.dropWhile Text.isBlank := List.rdropWhile_append_rtakeWhile
  refine ⟨cs.takeWhile Text.isBlank, (cs.dropWhile Text.isBlank).rtakeWhile Text.isBlank, ?_, ?_⟩
  · rw [hBack, List.takeWhile_append_dropWhile]
  · intro c hc
    rcases List.mem_append.mp hc with hc | hc
    · exact List.mem_takeWhile_imp hc
    · exact List.mem_rtakeWhile_imp hc

/-- No spelling has a blank character in it. -/
theorem Lexeme.isBlank_of_mem (x : Lexeme) : ∀ c ∈ x.chars, Text.isBlank c = false := by
  cases x with
  | word w =>
    intro c hc
    have hRange := toNat_of_isAlphanum (Name.isAlphanum_of_mem hc)
    simp [Text.isBlank]
    omega
  | symbol s =>
    have hAll : s.chars.all (!Text.isBlank ·) = true := by cases s <;> decide
    intro c hc
    simpa using List.all_eq_true.mp hAll c hc

/-- In a text that is split to its end, all that is blank is a separator. -/
theorem Wording.Printed.isSkipped {l : Wording} {cs : List Char} (h : Printed l cs) :
    ∀ c ∈ cs, Text.isBlank c = true → Lexing.isSkipped c = true := by
  obtain ⟨trailing, rfl, hTrailing⟩ := h.text
  have hGaps := h.spaced.gaps
  clear h
  induction l with
  | nil => exact fun c hc _ => hTrailing c hc
  | cons piece l ih =>
    obtain ⟨gap, x⟩ := piece
    obtain ⟨hGap, hRest⟩ := List.forall_mem_cons.mp hGaps
    intro c hc hBlank
    rw [chars, List.append_assoc, List.append_assoc] at hc
    rcases List.mem_append.mp hc with hc | hc
    · exact hGap c hc
    · rcases List.mem_append.mp hc with hc | hc
      · rw [x.isBlank_of_mem c hc] at hBlank
        cases hBlank
      · exact ih hRest c hc hBlank

-- ---------------------------------------------------------------------------
-- Reading a text without its blank ends
-- ---------------------------------------------------------------------------

/-- A text without its blank ends. -/
def stripped (source : String) : String :=
  String.ofList (Text.strip source.toList)

/-- The place where a text starts has no influence on what it is read as. -/
theorem derives_of_place {start start' : Nat} {cs : List Char} {f : Formula}
    (h : (Lexing.splitFrom start cs).obstacle = none ∧
      Derives .iff (Lexing.splitFrom start cs).tokens f) :
    (Lexing.splitFrom start' cs).obstacle = none ∧
      Derives .iff (Lexing.splitFrom start' cs).tokens f := by
  obtain ⟨l, hPrinted⟩ := Wording.exists_printed h.1
  obtain ⟨trailing, rfl, hTrailing⟩ := hPrinted.text
  rw [Wording.splitFrom_printed hPrinted.spaced hTrailing] at h ⊢
  have hSame : Wording.Respelled l l := List.forall₂_same.mpr fun _ _ => ⟨rfl, fun _ => rfl⟩
  exact ⟨rfl, h.2.alike (hSame.alike start start')⟩

/-- Separators at the ends of a text have no influence on what it is read as. -/
theorem parse_eq_ok_iff_of_gaps {source inner : String} {front back : List Char}
    (hText : source.toList = front ++ (inner.toList ++ back))
    (hFront : ∀ c ∈ front, Lexing.isSkipped c = true)
    (hBack : ∀ c ∈ back, Lexing.isSkipped c = true) (f : Formula) :
    parse source = .ok f ↔ parse inner = .ok f := by
  rw [parse_eq_ok_iff, parse_eq_ok_iff, hText, Lexing.ofText, Lexing.ofText,
    Lexing.splitFrom_gap hFront, Lexing.splitFrom_append_gap hBack]
  exact ⟨derives_of_place, derives_of_place⟩

/-- **Blank ends.** A text is read as `f` exactly when it is read as `f` without
its blank ends and these are separators. -/
theorem parse_eq_ok_iff_strip {source : String} {front back : List Char}
    (h : Text.Dropped source.toList front back) (f : Formula) :
    parse source = .ok f ↔
      parse (stripped source) = .ok f ∧ ∀ c ∈ front ++ back, Lexing.isSkipped c = true := by
  have hInner : source.toList = front ++ ((stripped source).toList ++ back) := by
    rw [stripped, String.toList_ofList]
    exact h.text
  constructor
  · intro hParse
    obtain ⟨l, hPrinted⟩ := Wording.exists_printed (parse_eq_ok_iff.mp hParse).1
    have hSkipped : ∀ c ∈ front ++ back, Lexing.isSkipped c = true := by
      intro c hc
      refine hPrinted.isSkipped c ?_ (h.blank c hc)
      rw [h.text]
      rcases List.mem_append.mp hc with hc | hc
      · exact List.mem_append_left _ hc
      · exact List.mem_append_right _ (List.mem_append_right _ hc)
    obtain ⟨hFront, hBack⟩ := List.forall_mem_append.mp hSkipped
    exact ⟨(parse_eq_ok_iff_of_gaps hInner hFront hBack f).mp hParse, hSkipped⟩
  · rintro ⟨hParse, hSkipped⟩
    obtain ⟨hFront, hBack⟩ := List.forall_mem_append.mp hSkipped
    exact (parse_eq_ok_iff_of_gaps hInner hFront hBack f).mpr hParse

/-- Four characters are separators. -/
theorem isSkipped_iff {c : Char} :
    Lexing.isSkipped c = true ↔ c ∈ [' ', '\t', '\r', '\n'] := by
  simp [Lexing.isSkipped, or_assoc]

/-- A text that is read is read without its blank ends as well. -/
theorem parse_stripped {source : String} {f : Formula} (h : parse source = .ok f) :
    parse (stripped source) = .ok f := by
  obtain ⟨front, back, hDropped⟩ := Text.exists_dropped source.toList
  exact ((parse_eq_ok_iff_strip hDropped f).mp h).1

-- ---------------------------------------------------------------------------
-- Lines of a file and texts of the command line
-- ---------------------------------------------------------------------------

/-- The lines of a text that hold formulas, as they stand. -/
def FormulaFile.rawLines (text : List Char) : List String :=
  ((Text.lines text).filter fun line => isFormula (Text.strip line)).map String.ofList

/-- The formulas of a file are its lines with a formula, without their blank
ends. -/
theorem FormulaFile.formulas_eq_rawLines (text : List Char) :
    formulas text = (rawLines text).map stripped := by
  simp [formulas, rawLines, stripped, List.filter_map, Function.comp_def]

namespace Command

variable {o : Options} {s : Scene}

/-- Where texts are found, collecting the formulas is reading the texts. -/
theorem fst_collect {found : List Value} (hFound : Obtained o s.files found)
    (hSome : found ≠ []) : ((collect o).carryOut s).1 = (readAll found).result := by
  rw [carryOut_collect, sources_eq_ok_iff.mpr hFound]
  cases found with
  | nil => exact absurd rfl hSome
  | cons v found => rfl

/-- Texts that are formulas are the same formulas without their blank ends. -/
theorem Parsed.strip {texts : List String} {formulas : List Formula}
    (h : Parsed (texts.map .text) formulas) :
    Parsed ((texts.map stripped).map .text) formulas := by
  unfold Parsed at h ⊢
  rw [List.forall₂_map_left_iff] at h ⊢
  rw [List.forall₂_map_left_iff]
  exact h.imp fun source f hParse => parse_stripped hParse

/-- **Unstripped texts.** Texts that come to the formulas of a file without their
blank ends are refused as formula text, or read as the file is read. -/
theorem collect_unstripped {o' : Options} {name : String} {text : List Char}
    {texts : List String} (hRead : s.files.read (Path.ofString name).text = .ok (Text.encode text))
    (hSome : FormulaFile.formulas text ≠ [])
    (hTexts : texts.map stripped = FormulaFile.formulas text)
    (hGiven : o.expressions = texts.map .text) (hNoFile : o.file = none)
    (hNone : o'.expressions = []) (hFile : o'.file = some (.text name)) :
    (∃ cause, ((collect o).carryOut s).1 = .error (.parse cause)) ∨
      ∃ given found, ((collect o).carryOut s).1 = .ok given ∧
        ((collect o').carryOut s).1 = .ok found ∧ given.map (·.2) = found.map (·.2) := by
  have hWords : Obtained o s.files (texts.map .text) := hGiven ▸ .words hNoFile
  have hFormulas : fromFile s.files (.text name) = .ok (texts.map stripped) := by
    rw [hTexts, fromFile]
    exact FormulaFile.read_of_formulas hRead hSome
  have hFound := Obtained.file hFile hFormulas
  rw [hNone, List.nil_append] at hFound
  rw [← hTexts] at hSome
  rw [fst_collect hWords (by simpa using hSome), fst_collect hFound (by simpa using hSome)]
  rcases parsed_or_refused (texts.map .text) with ⟨formulas, hParsed⟩ | ⟨cause, hRefused⟩
  · obtain ⟨given, hGivenRead, rfl⟩ := result_readAll_of_parsed hParsed
    obtain ⟨found, hFoundRead, hSame⟩ := result_readAll_of_parsed hParsed.strip
    exact .inr ⟨given, found, hGivenRead, hFoundRead, hSame.symm⟩
  · exact .inl ⟨cause, result_readAll_of_refused hRefused⟩

end Command

-- ---------------------------------------------------------------------------
-- Empty text
-- ---------------------------------------------------------------------------

/-- Reading with any way of splitting in place of the lexer's. -/
def parseWith (split : List Char → Lexing) (source : String) : Except Fault Formula :=
  match Text.strip source.toList with
  | [] => .error (.parse .blank)
  | _ :: _ => Parser.ofLexing (split source.toList)

theorem parse_eq_parseWith : parse = parseWith Lexing.ofText :=
  rfl

/-- No obstacle is announced as empty text is. -/
theorem FirstObstacle.words_ne {l : Lexing} {cause : ParseFault} {words : String}
    (h : FirstObstacle l cause words) : words ≠ "Input formula is empty." := by
  have hHead : words.toList.head? ≠ some 'I' := by
    cases h <;> simp [String.toList_append]
  rintro rfl
  exact hHead rfl

/-- A text is refused as empty exactly when nothing is left of it without its
blank ends. -/
theorem exists_empty_iff {source : String} :
    (∃ fault, parse source = .error fault ∧ fault.message = "Input formula is empty.") ↔
      Text.strip source.toList = [] := by
  constructor
  · rintro ⟨fault, hParse, hMessage⟩
    by_contra hText
    rw [parse_of_not_blank hText] at hParse
    have hProper := proper_ofText source.toList
    rcases Parser.complete_or_firstObstacle (Lexing.ofText source.toList) with
      ⟨hObstacle, hEnd⟩ | ⟨cause, words, hFirst⟩
    · obtain ⟨f, hOk⟩ := Parser.ofLexing_of_complete hProper hObstacle hEnd
      rw [hOk] at hParse
      cases hParse
    · rw [Parser.ofLexing_of_firstObstacle hProper hFirst] at hParse
      cases hParse
      rw [Fault.message_parse, hFirst.message_eq] at hMessage
      exact hFirst.words_ne hMessage
  · intro hText
    exact ⟨.parse .blank, by rw [parse, hText], rfl⟩

/--
**The two kinds of white space differ only by refusal.** A text is read as a
formula exactly when the text without its blank ends is read as this formula
and all that was dropped is a space, a tab, a carriage return or a line feed. So
the formulas of a file and the lines that they come from, or any other texts
that come to them without their blank ends, are never read as different
formulas: given on the command line, the unstripped texts are refused as formula
text, or read as the file is read. A text is refused as empty exactly when it is
blank, whatever its splitting would be and with nothing noted of tokens.
-/
theorem blank_ends_change_no_formula :
    (∀ source : String, (∃ front back, Text.Dropped source.toList front back) ∧
      ∀ front back, Text.Dropped source.toList front back → ∀ f,
        parse source = .ok f ↔
          parse (stripped source) = .ok f ∧ ∀ c ∈ front ++ back, c ∈ [' ', '\t', '\r', '\n']) ∧
    (∀ text, FormulaFile.formulas text = (FormulaFile.rawLines text).map stripped ∧
      ∀ formula ∈ FormulaFile.formulas text, ∀ source, stripped source = formula →
        (∃ f, parse source = .ok f ∧ parse formula = .ok f) ∨
          ∃ cause, parse source = .error (.parse cause)) ∧
    (∀ (s : Scene) (name : String) (text : List Char) (texts : List String)
        (o o' : Command.Options),
      s.files.read (Path.ofString name).text = .ok (Text.encode text) →
      FormulaFile.formulas text ≠ [] → texts.map stripped = FormulaFile.formulas text →
      o.expressions = texts.map .text → o.file = none →
      o'.expressions = [] → o'.file = some (.text name) →
      (∃ cause, ((Command.collect o).carryOut s).1 = .error (.parse cause)) ∨
        ∃ given found, ((Command.collect o).carryOut s).1 = .ok given ∧
          ((Command.collect o').carryOut s).1 = .ok found ∧
          given.map (·.2) = found.map (·.2)) ∧
    parse = parseWith Lexing.ofText ∧
    ∀ source : String,
      ((∃ fault, parse source = .error fault ∧ fault.message = "Input formula is empty.") ↔
        Text.strip source.toList = []) ∧
      (Text.strip source.toList = [] →
        (∀ split, parseWith split source = .error (.parse .blank)) ∧
        (readFormula (.text source)).entries =
          [⟨.debug, "Parsing formula: " ++ Text.quoted source⟩]) := by
  refine ⟨fun source => ⟨Text.exists_dropped _, ?_⟩,
    fun text => ⟨FormulaFile.formulas_eq_rawLines text, ?_⟩, ?_, parse_eq_parseWith,
    fun source => ⟨exists_empty_iff, fun hText => ⟨?_, ?_⟩⟩⟩
  · intro front back hDropped f
    simp only [← isSkipped_iff]
    exact parse_eq_ok_iff_strip hDropped f
  · rintro _ - source rfl
    rcases parse_cases source with ⟨f, hParse⟩ | hRefused
    · exact .inl ⟨f, hParse, parse_stripped hParse⟩
    · exact .inr hRefused
  · intro s name text texts o o' hRead hSome hTexts hGiven hNoFile hNone hFile
    exact Command.collect_unstripped hRead hSome hTexts hGiven hNoFile hNone hFile
  · intro split
    rw [parseWith, hText]
  · have hParse : parseValue (.text source) = .error (.parse .blank) := by
      rw [parseValue, parse, hText]
    rw [readFormula, hParse]
    rfl

/-- A space before `p` and an em space after it: stripped, the text is read as
`p`, and as it stands it is refused, also where the first comes from a file. -/
theorem blank_ends_change_no_formula_sample :
    let text := " p\u2003\n".toList
    let scene : Scene := ⟨⟨[(["f"], .file (Text.encode text))], []⟩, [], ""⟩
    let given : Command.Options := { Command.Options.standard with
      expressions := [.text " p\u2003"] }
    let filed : Command.Options := { Command.Options.standard with file := some (.text "f") }
    (∃ p : Name, p.text = "p" ∧ parse "p" = .ok (.var p)) ∧ (∀ f, parse " p\u2003" ≠ .ok f) ∧
      ((∃ cause, ((Command.collect given).carryOut scene).1 = .error (.parse cause)) ∨
        ∃ xs ys, ((Command.collect given).carryOut scene).1 = .ok xs ∧
          ((Command.collect filed).carryOut scene).1 = .ok ys ∧ xs.map (·.2) = ys.map (·.2)) ∧
      Text.strip "\u2003".toList = [] ∧
      ∃ fault, parse "\u2003" = .error fault ∧ fault.message = "Input formula is empty." := by
  intro text scene given filed
  obtain ⟨hStrip, -, hCollect, -, hEmpty⟩ := blank_ends_change_no_formula
  have hDropped : Text.Dropped " p\u2003".toList [' '] ['\u2003'] :=
    ⟨by decide, List.all_eq_true.mp (by decide)⟩
  have hBlank : Text.strip "\u2003".toList = [] := by decide
  have hFile : ∀ bytes, FileTree.read ⟨[(["f"], .file bytes)], []⟩ (Path.ofString "f").text =
      .ok bytes := fun bytes => rfl
  have hFormulas : FormulaFile.formulas text = ["p"] := by decide
  have hTexts : [" p\u2003"].map stripped = FormulaFile.formulas text := by
    rw [hFormulas]
    decide
  have hName := (parse_eq_var_iff "p").mpr ⟨by decide, by decide⟩
  refine ⟨hName, fun f hParse => ?_, ?_, hBlank, (hEmpty "\u2003").1.mpr hBlank⟩
  · have hSkipped := (((hStrip _).2 _ _ hDropped f).mp hParse).2 '\u2003' (by decide)
    exact absurd hSkipped (by decide)
  · exact hCollect scene "f" text _ given filed (hFile _) (by simp [hFormulas]) hTexts
      rfl rfl rfl rfl

end TruthTable
