import TruthTable.Proofs.Drawing
import TruthTable.Proofs.Rendering
import TruthTable.Proofs.Stages

/-!
# What a run does to the files

With a folder for pictures a run makes a picture for each formula. The files of
one formula stand at two places of the folder that no other formula uses, so
what is left of them at the end is what was there when the run went on to the
next formula.

Main results:

* `analyse_pictured`       — one formula of a run.
* `analyseAll_pictured`    — the formulas of a run, one after the other.
* `run_leaves_pictures`    — all that a run leaves behind among the files.
* `carryOut_of_link`, `exit_of_deep` — a drawing with the path of a link, and a
  formula that there is no room for.
-/

namespace TruthTable

-- ---------------------------------------------------------------------------
-- The names of drawings and pictures
-- ---------------------------------------------------------------------------

namespace Command

open FileTree Picture

variable {format : String}

/-- The name of the drawing of a formula. -/
def drawingName (index : Nat) : String :=
  "expression_" ++ toString index

/-- The name of the picture of a formula. -/
def pictureName (index : Nat) (format : String) : String :=
  drawingName index ++ "." ++ format

theorem toList_drawingName (index : Nat) :
    (drawingName index).toList = "expression_".toList ++ (toString index).toList := by
  rw [drawingName, String.toList_append]

theorem toList_pictureName (index : Nat) (format : String) :
    (pictureName index format).toList =
      "expression_".toList ++ ((toString index).toList ++ '.' :: format.toList) := by
  simp [pictureName, drawingName]

/-- Each drawing has a name of its own. -/
theorem drawingName_inj {i j : Nat} (h : drawingName i = drawingName j) : i = j := by
  have hChars := congrArg String.toList h
  rw [toList_drawingName, toList_drawingName] at hChars
  have hDigits := List.append_cancel_left hChars
  rw [← List.append_nil (toString i).toList, ← List.append_nil (toString j).toList] at hDigits
  exact (number_unique (by simp) (by simp) hDigits).1

/-- Each picture has a name of its own. -/
theorem pictureName_inj {i j : Nat} (h : pictureName i format = pictureName j format) : i = j := by
  have hChars := congrArg String.toList h
  rw [toList_pictureName, toList_pictureName] at hChars
  have hDot : ∀ c ∈ ('.' :: format.toList).head?, ¬ c.isDigit = true := by simp
  exact (number_unique hDot hDot (List.append_cancel_left hChars)).1

/-- No drawing has the name of a picture: a dot comes after the number. -/
theorem drawingName_ne_pictureName (i j : Nat) : drawingName i ≠ pictureName j format := by
  intro h
  have hChars := congrArg String.toList h
  rw [toList_drawingName, toList_pictureName] at hChars
  have hDigits := List.append_cancel_left hChars
  rw [← List.append_nil (toString i).toList] at hDigits
  have hDot : ∀ c ∈ ('.' :: format.toList).head?, ¬ c.isDigit = true := by simp
  have hRest := (number_unique (by simp) hDot hDigits).2
  cases hRest

/-- A name with the common start can be that of a file if it is short enough and
neither a slash nor a null character comes after the start. -/
theorem fileName_of_chars {x : String} {rest : List Char}
    (hx : x.toList = "expression_".toList ++ rest) (hRest : ∀ c ∈ rest, c ≠ '/' ∧ c ≠ Char.ofNat 0)
    (hSize : x.utf8ByteSize ≤ longestName) : FileName x where
  ne_empty := by
    rintro rfl
    simp at hx
  ne_dot := by
    rintro rfl
    simp at hx
  no_slash := by
    rw [hx, List.mem_append, not_or]
    exact ⟨by decide, fun h => (hRest _ h).1 rfl⟩
  ne_up := by
    rintro rfl
    simp at hx
  size_le := hSize
  no_null := by
    rw [hasNull, hx, List.contains_eq_mem, decide_eq_false_iff_not, List.mem_append, not_or]
    exact ⟨by decide, fun h => (hRest _ h).2 rfl⟩

/-- A digit is neither a slash nor a null character. -/
theorem digit_ne {i : Nat} {c : Char} (hc : c ∈ (toString i).toList) :
    c ≠ '/' ∧ c ≠ Char.ofNat 0 := by
  have hDigit := isDigit_of_mem_toString hc
  constructor
  · rintro rfl
    exact absurd hDigit (by decide)
  · rintro rfl
    exact absurd hDigit (by decide)

/-- The path of the picture is not too long, so neither is that of the drawing. -/
structure Short (p : Path) (format : String) (index : Nat) : Prop where
  name_le : (pictureName index format).utf8ByteSize ≤ longestName
  path_le : (joinPath p.text (pictureName index format)).utf8ByteSize ≤ longestPath

variable {p : Path} {index : Nat}

/-- The name and the path of the picture can be those of a file. -/
theorem Short.fits_picture (h : Short p format index) (hFormat : format ∈ formatChoices) :
    Fits p (pictureName index format) where
  toFileName := by
    refine fileName_of_chars (toList_pictureName index format) ?_ h.name_le
    intro c hc
    rcases List.mem_append.mp hc with hc | hc
    · exact digit_ne hc
    · have hAll : ∀ format ∈ formatChoices, ∀ c ∈ '.' :: format.toList,
          c ≠ '/' ∧ c ≠ Char.ofNat 0 := by simp [formatChoices]
      exact hAll format hFormat c hc
  path_le := h.path_le

/-- The name and the path of the drawing can be those of a file. -/
theorem Short.fits_drawing (h : Short p format index) (hFormat : format ∈ formatChoices) :
    Fits p (drawingName index) := by
  have hPicture := h.fits_picture hFormat
  have hName : FileName (drawingName index) := by
    refine fileName_of_chars (toList_drawingName index) (fun c hc => digit_ne hc) ?_
    refine le_trans ?_ h.name_le
    simp only [pictureName, String.utf8ByteSize_append]
    omega
  have hAppend : pictureName index format = drawingName index ++ ("." ++ format) :=
    String.append_assoc
  rw [hAppend] at hPicture
  have hPath := size_joinPath_le p.text ("." ++ format) hName.toComponent hPicture.toComponent
  exact ⟨hName, hPath.trans hPicture.path_le⟩

/-- Every format that the command line offers is taken. -/
theorem format_eq (hFormat : format ∈ formatChoices) :
    Graph.format? (.text format) = .ok format := by
  have hAll : format = "png" ∨ format = "svg" ∨ format = "pdf" := by
    simpa [formatChoices] using hFormat
  rcases hAll with rfl | rfl | rfl <;> rfl

-- ---------------------------------------------------------------------------
-- The formulas of a run
-- ---------------------------------------------------------------------------

variable {place q : List String} {w : Nat → Workshop}
  {render : Nat → String → List UInt8 → List UInt8} {before middle after : FileTree}

/-- What is left of formulas that are counted from `first` on, and that nothing
else in the folder is touched. -/
structure Pictured (w : Nat → Workshop) (render : Nat → String → List UInt8 → List UInt8)
    (format : String) (place : List String) (first : Nat) (formulas : List Formula)
    (before after : FileTree) : Prop where
  filed : Filed place before after
  others : ∀ q, (∀ i, first ≤ i → i < first + formulas.length →
    q ≠ place ++ [drawingName i] ∧ q ≠ place ++ [pictureName i format]) →
    after.at? q = before.at? q
  shown : ∀ f i, (f, i) ∈ formulas.zipIdx first →
    ∃ drawing, Graph.draw (w i).room (.formula f) (.text format) = .ok drawing ∧
      Shown (w i).layout (render i) format (bytes drawing.source) (place ++ [drawingName i])
        (place ++ [pictureName i format]) before after

/-- The places of one formula are not those of another one. -/
theorem places_apart {i j : Nat} (h : i ≠ j) :
    (place ++ [drawingName i] ≠ place ++ [drawingName j] ∧
      place ++ [drawingName i] ≠ place ++ [pictureName j format]) ∧
    (place ++ [pictureName i format] ≠ place ++ [drawingName j] ∧
      place ++ [pictureName i format] ≠ place ++ [pictureName j format]) := by
  have hDrawing : drawingName i ≠ drawingName j := fun hEq => h (drawingName_inj hEq)
  have hPicture : pictureName i format ≠ pictureName j format := fun hEq => h (pictureName_inj hEq)
  simp [hDrawing, hPicture, drawingName_ne_pictureName, (drawingName_ne_pictureName j i).symm]

/-- For no formulas nothing is left. -/
theorem Pictured.nil (first : Nat) (t : FileTree) :
    Pictured w render format place first [] t t where
  filed := .refl place t
  others := fun _ _ => rfl
  shown := nofun

/-- What is left of a formula is still there after those that follow it. -/
theorem Pictured.cons {first : Nat} {f : Formula} {formulas : List Formula}
    (h : Pictured w render format place first [f] before middle)
    (h' : Pictured w render format place (first + 1) formulas middle after) :
    Pictured w render format place first (f :: formulas) before after where
  filed := h.filed.trans h'.filed
  others := by
    intro q hq
    rw [List.length_cons] at hq
    have hLater := h'.others q fun i hi hi' => hq i (by omega) (by omega)
    have hFirst := h.others q fun i hi hi' => hq i hi (by simp at hi'; omega)
    exact hLater.trans hFirst
  shown := by
    intro g i hg
    rw [List.zipIdx_cons, List.mem_cons] at hg
    rcases hg with hg | hg
    · obtain ⟨rfl, rfl⟩ := Prod.mk.inj hg
      obtain ⟨drawing, hDraw, hShown⟩ := h.shown g i (by simp)
      -- the formulas that follow leave both places of the first one alone
      have hDrawing := h'.others (place ++ [drawingName i]) fun j hj _ =>
        (places_apart (by omega)).1
      have hPicture := h'.others (place ++ [pictureName i format]) fun j hj _ =>
        (places_apart (by omega)).2
      refine ⟨drawing, hDraw, ?_, ?_⟩
      · rw [hDrawing, hPicture]
        exact hShown.rendered
      · rw [hDrawing, hPicture]
        exact hShown.kept
    · obtain ⟨drawing, hDraw, hShown⟩ := h'.shown g i hg
      -- and the first one left the place of a later picture as it was
      have hLater := List.le_snd_of_mem_zipIdx hg
      have hPicture := h.others (place ++ [pictureName i format]) fun j hj hj' =>
        (places_apart (by simp at hj' hLater; omega)).2
      refine ⟨drawing, hDraw, hShown.rendered, ?_⟩
      rw [← hPicture]
      exact hShown.kept

/-- Nothing stands in the way of the picture of a formula. -/
structure Ready (w : Nat → Workshop) (render : Nat → String → List UInt8 → List UInt8)
    (p : Path) (format : String) (place : List String) (t : FileTree) (index : Nat) : Prop where
  short : Short p format index
  drawing_free : Free (t.at? (place ++ [drawingName index]))
  picture_free : Free (t.at? (place ++ [pictureName index format]))
  allows : (w index).denials.Allows (joinPath p.text (drawingName index))
  layout_cases : (w index).layout.Renders (render index) ∨ (w index).layout.Fails

/-- Changing files leaves the way free. -/
theorem Ready.filed (h : Ready w render p format place before index)
    (hFiled : Filed place before after) : Ready w render p format place after index where
  short := h.short
  drawing_free := hFiled.free h.drawing_free
  picture_free := hFiled.free h.picture_free
  allows := h.allows
  layout_cases := h.layout_cases

section Run

variable {o : Options} (hFolderOption : o.folder = some p) (hp : p.Proper)
  (hFormatOption : o.format = .text format) (hFormat : format ∈ formatChoices)
include hFolderOption hp hFormatOption hFormat

omit hp hFormat in
/-- A formula is reported on before its picture is made. -/
theorem carryOut_analyse_eq {f : Formula} (hf : f.Complete) (shop : Workshop) (index : Nat)
    (source : String) (s : Scene) :
    ∃ s₁ : Scene, s₁.files = s.files ∧ (analyse o shop index source f).carryOut s =
      (make shop ⟨.formula f, drawingName index, .text format, p.text⟩ >>= fun _ =>
        (pure () : Action Unit)).carryOut s₁ := by
  obtain ⟨text, hText⟩ := Report.exists_text hf
  refine ⟨{ s with output := s.output ++
    [.entry ⟨.info, "=== Analysing: " ++ source ++ " ==="⟩] ++
      (Report.text f).entries.map .entry ++ [.text text] }, rfl, ?_⟩
  simp only [analyse, Action.carryOut_bind, Action.carryOut_note, Action.carryOut_ofLogged, hText,
    Action.carryOut_emit, hFolderOption, hFormatOption]
  exact Action.carryOut_bind _ _ _

/-- One formula of a run, once the folder is there. -/
theorem analyse_pictured {t₀ t : FileTree} {index : Nat} {f : Formula} {s : Scene}
    (source : String) (hf : f.Complete) (hRoom : f.depth ≤ (w index).room)
    (hPrepares : Prepares (w index).denials p t₀ t) (ht : t.Closed) (hFolder : t.IsFolder p place)
    (hReady : Ready w render p format place t index) (hs : s.files = t₀) :
    ∃ s', (analyse o (w index) index source f).carryOut s = (.ok (), s') ∧
      Pictured w render format place index [f] t s'.files := by
  have hDraw := Graph.draw_eq hf hRoom (format_eq hFormat)
  obtain ⟨s₁, hFiles, hAnalyse⟩ :=
    carryOut_analyse_eq hFolderOption hFormatOption hf (w index) index source s
  obtain ⟨result, s', hMake, hLeaves⟩ := carryOut_make (.formula f) (.text format)
    ht hp hFolder (hReady.short.fits_drawing hFormat) hReady.allows hPrepares (hFiles.trans hs)
    (hReady.short.fits_picture hFormat) hDraw rfl hReady.drawing_free hReady.picture_free
    hReady.layout_cases
  refine ⟨s', ?_, hLeaves.filed, ?_, ?_⟩
  · rw [hAnalyse, Action.carryOut_bind, hMake]
    rfl
  · intro q hq
    have hHere := hq index le_rfl (by simp)
    exact hLeaves.others q hHere.1 hHere.2
  · intro g i hg
    simp only [List.zipIdx_cons, List.zipIdx_nil, List.mem_singleton, Prod.mk.injEq] at hg
    obtain ⟨rfl, rfl⟩ := hg
    exact ⟨_, hDraw, hLeaves.shown⟩

/-- The formulas of a run, one after the other. The first of them finds the
folder prepared, or has it prepared. -/
theorem analyseAll_pictured {pairs : List (String × Formula)} {t₀ t : FileTree} {first : Nat}
    {s : Scene} (hComplete : ∀ f ∈ pairs.map (·.2), f.Complete)
    (hRoom : ∀ f ∈ pairs.map (·.2), ∀ i, f.depth ≤ (w i).room)
    (hPrepares : Prepares (w first).denials p t₀ t) (hNil : pairs = [] → t₀ = t) (ht : t.Closed)
    (hFolder : t.IsFolder p place)
    (hReady : ∀ i, first ≤ i → i < first + pairs.length → Ready w render p format place t i)
    (hs : s.files = t₀) :
    ∃ s', (analyseAll o w first pairs).carryOut s = (.ok (), s') ∧
      Pictured w render format place first (pairs.map (·.2)) t s'.files := by
  induction pairs generalizing t₀ t first s with
  | nil =>
    refine ⟨s, rfl, ?_⟩
    rw [hs, hNil rfl]
    exact .nil first t
  | cons pair pairs ih =>
    obtain ⟨source, f⟩ := pair
    rw [List.length_cons] at hReady
    obtain ⟨s₁, hAnalyse, hFirst⟩ := analyse_pictured hFolderOption hp hFormatOption hFormat source
      (hComplete f List.mem_cons_self) (hRoom f List.mem_cons_self first) hPrepares ht hFolder
      (hReady first le_rfl (by omega)) hs
    have hClosed := hFirst.filed.closed ht hFolder.there
    have hStill := hFirst.filed.isFolder hFolder
    -- the next formula finds the folder there
    have hNext : ∀ i, first + 1 ≤ i → i < first + 1 + pairs.length →
        Ready w render p format place s₁.files i :=
      fun i hi hi' => (hReady i (by omega) (by omega)).filed hFirst.filed
    obtain ⟨s', hRest, hLater⟩ := ih (fun g hg => hComplete g (List.mem_cons_of_mem _ hg))
      (fun g hg => hRoom g (List.mem_cons_of_mem _ hg))
      (prepares_of_exists _ (hStill.exists_text hp)) (fun _ => rfl) hClosed hStill hNext rfl
    refine ⟨s', ?_, hFirst.cons hLater⟩
    rw [analyseAll, Action.carryOut_bind, hAnalyse]
    exact hRest

end Run

/-- A run is about some formula. -/
theorem Chosen.ne_nil {o : Options} {files : FileTree} {formulas : List Formula}
    (h : Chosen o files formulas) : formulas ≠ [] := by
  cases h with
  | samples => simp [Samples.all]
  | given hAsked hFound hParsed =>
    rintro rfl
    cases hParsed
    exact hFound.ne_nil hAsked rfl

/-- The folder is a directory, or can be made. -/
def Usable (t : FileTree) (d : Denials) (p : Path) : Prop :=
  t.isDirectory p.text = true ∨
    t.exists? p.text = false ∧ (t.makeDirectories d p.text.toList false).2 = .ok ()

/-- A folder that can be used is there once it was prepared, with what it held
before. -/
theorem Usable.exists_prepared {t : FileTree} {d : Denials} (ht : t.Closed) (hp : p.Proper)
    (h : Usable t d p) :
    ∃ made place, Prepares d p t made ∧ made.Closed ∧ made.IsFolder p place ∧ t.Grown made p ∧
      (∀ x, made.at? (place ++ [x]) = t.at? (place ++ [x])) ∧
      ∀ x, Fits p x → t.Clear (joinPath p.text x) → Free (made.at? (place ++ [x])) := by
  rcases h with hDirectory | ⟨hNone, hMakes⟩
  · obtain ⟨place, hFolder⟩ := (isDirectory_text_iff hp).mp hDirectory
    exact ⟨t, place, prepares_of_exists d (hFolder.exists_text hp), ht, hFolder, .refl t p,
      fun _ => rfl, fun x hx hClear => hFolder.free_joinPath hp hx hClear⟩
  · obtain ⟨hClosed, hGrown, hFresh⟩ := made_makeDirectories ht hp
    obtain ⟨place, hFolder, hEmpty⟩ := hFresh hMakes
    refine ⟨_, place, prepares_of_makes hNone hMakes, hClosed, hFolder, hGrown, ?_, ?_⟩
    · intro x
      rcases hGrown.at?_cases (place ++ [x]) with hSame | ⟨-, hNew, -⟩
      · exact hSame
      · rw [hEmpty] at hNew
        cases hNew
    · intro x _ _
      rw [hEmpty]
      exact .nothing

/-- What a run with a folder for pictures leaves behind among the files. The
folder stands at `place`. -/
structure LeavesPictures (s : Surroundings) (p : Path) (format : String)
    (render : Nat → String → List UInt8 → List UInt8) (formulas : List Formula)
    (after : FileTree) (place : List String) : Prop where
  folder : after.IsFolder p place
  leads : ∀ i, 1 ≤ i → i ≤ formulas.length →
    after.Leads (joinPath p.text (drawingName i)) (place ++ [drawingName i]) ∧
      after.Leads (joinPath p.text (pictureName i format)) (place ++ [pictureName i format])
  /-- The picture or the drawing of each formula. -/
  shown : ∀ f i, (f, i) ∈ formulas.zipIdx 1 →
    ∃ drawing, Graph.draw s.room (.formula f) (.text format) = .ok drawing ∧
      Shown (s.layout i) (render i) format (bytes drawing.source) (place ++ [drawingName i])
        (place ++ [pictureName i format]) s.files after
  /-- Anywhere else nothing is changed, but the folder and those above it are
  made where nothing stood. -/
  others : ∀ q, (∀ i, 1 ≤ i → i ≤ formulas.length →
    q ≠ place ++ [drawingName i] ∧ q ≠ place ++ [pictureName i format]) →
    after.at? q = s.files.at? q ∨
      s.files.at? q = none ∧ after.at? q = some .directory ∧ after.OnWay p q
  /-- The path of the folder and those above it lead to directories. -/
  way : ∀ parts, parts <+: p.parts →
    ∃ q, after.follow true mostLinks (after.origin p) parts = .ok q ∧ after.at? q = some .directory
  home_eq : after.home = s.files.home
  /-- No two formulas use the same place. -/
  apart : ∀ i j, (drawingName i = drawingName j → i = j) ∧
    (pictureName i format = pictureName j format → i = j) ∧ drawingName i ≠ pictureName j format

/-- A run whose formulas can all be analysed ends in 0. -/
theorem carryOut_of_analyseAll {o : Options} {s : Surroundings} {pairs : List (String × Formula)}
    {entries : List Log.Entry} {after : Scene} (hs : s.interrupted = false)
    (hCollect : (collect o).carryOut ⟨s.files, [], ""⟩ =
      (.ok pairs, ⟨s.files, entries.map .entry, ""⟩))
    (h : (analyseAll o s.workshop 1 pairs).carryOut ⟨s.files, entries.map .entry, ""⟩ =
      (.ok (), after)) :
    (carryOut o s).exit = 0 ∧ (carryOut o s).files = after.files := by
  have hWork : ((collect o >>= analyseAll o s.workshop 1).carryOut ⟨s.files, [], ""⟩) =
      (.ok (), after) := by
    rw [Action.carryOut_bind, hCollect]
    exact h
  simp [carryOut, hs, hWork]

theorem parseValue_variable : parseValue (.text "p") = .ok (.var ⟨"p", rfl⟩) := by
  obtain ⟨n, hn, hParse⟩ := (parse_eq_var_iff "p").mpr ⟨by decide, by decide⟩
  rw [Name.text_inj (m := ⟨"p", rfl⟩) hn] at hParse
  exact hParse

/-- A single variable is asked for. -/
theorem chosen_variable {o : Options} {files : FileTree} (hWords : o.expressions = [.text "p"])
    (hFile : o.file = none) : Chosen o files [.var ⟨"p", rfl⟩] := by
  have hFound : Obtained o files o.expressions := .words hFile
  rw [hWords] at hFound
  exact .given (.inl (by simp [hWords])) hFound (.cons parseValue_variable .nil)

section Spoiled

variable {o : Options} {s : Surroundings} {f : Formula} {formulas : List Formula}

/-- A drawing with the path of a link is written where the link leads. -/
theorem carryOut_of_link (hs : s.interrupted = false) (ht : s.files.Closed)
    (hChosen : Chosen o s.files [f]) (hFolderOption : o.folder = some p) (hp : p.Proper)
    (hFormatOption : o.format = .text format) (hFormat : format ∈ formatChoices)
    (hFolder : s.files.IsFolder p place) (hRoom : f.depth ≤ s.room) (hx : Fits p (drawingName 1))
    (hAllows : s.denials.Allows (joinPath p.text (drawingName 1)))
    (hLeads : s.files.Leads (joinPath p.text (drawingName 1)) q) (hFree : Free (s.files.at? q))
    (hFails : (s.layout 1).Fails) :
    (carryOut o s).exit = 0 ∧ ∃ source, (carryOut o s).files = s.files.put q (.file source) := by
  obtain ⟨pairs, entries, hPairs, hComplete, hCollect⟩ := carryOut_collect_of_chosen hChosen
  obtain ⟨⟨source, g⟩, rfl, rfl⟩ := List.map_eq_singleton_iff.mp hPairs
  have hDraw := Graph.draw_eq (hComplete g List.mem_cons_self) hRoom (format_eq hFormat)
  obtain ⟨s₁, hFiles, hAnalyse⟩ := carryOut_analyse_eq hFolderOption hFormatOption
    (hComplete g List.mem_cons_self) (s.workshop 1) 1 source ⟨s.files, entries.map .entry, ""⟩
  obtain ⟨result, s', hMake, hSaved⟩ := carryOut_make_of_fails (w := s.workshop 1) (.formula g)
    (.text format) ht hp hFolder hx hAllows (prepares_of_exists _ (hFolder.exists_text hp)) hFiles
    hDraw hLeads hFree hFails
  have hRun : (analyseAll o s.workshop 1 [(source, g)]).carryOut
      ⟨s.files, entries.map .entry, ""⟩ = (.ok (), s') := by
    rw [analyseAll, Action.carryOut_bind, hAnalyse, Action.carryOut_bind, hMake]
    rfl
  obtain ⟨hExit, hEnd⟩ := carryOut_of_analyseAll hs hCollect hRun
  exact ⟨hExit, _, hEnd.trans hSaved⟩

/-- A run ends in 5 when there is no room to draw its first formula, although the
folder is there. -/
theorem exit_of_deep (hs : s.interrupted = false) (hChosen : Chosen o s.files (f :: formulas))
    (hFolderOption : o.folder = some p) (hFormatOption : o.format = .text format)
    (hFormat : format ∈ formatChoices) (hThere : s.files.exists? p.text = true)
    (hDeep : s.room < f.depth) : (carryOut o s).exit = 5 := by
  obtain ⟨pairs, entries, hPairs, hComplete, hCollect⟩ := carryOut_collect_of_chosen hChosen
  obtain ⟨⟨source, g⟩, others, rfl, rfl, -⟩ := List.map_eq_cons_iff.mp hPairs
  have hf := hComplete g List.mem_cons_self
  obtain ⟨s₁, hFiles, hAnalyse⟩ := carryOut_analyse_eq hFolderOption hFormatOption hf
    (s.workshop 1) 1 source ⟨s.files, entries.map .entry, ""⟩
  obtain ⟨s₂, hPrepare, -⟩ := prepares_of_exists s.denials hThere s₁ hFiles
  have hSave := carryOut_save_of_draw_error (w := s.workshop 1)
    (r := ⟨.formula g, drawingName 1, .text format, p.text⟩) hPrepare
    (Graph.draw_of_deep hf hDeep (format_eq hFormat))
  have hWork : (collect o >>= analyseAll o s.workshop 1).carryOut ⟨s.files, [], ""⟩ =
      (.error .tooDeep, s₂) := by
    rw [Action.carryOut_bind, hCollect]
    simp only [analyseAll]
    rw [Action.carryOut_bind, hAnalyse, make_eq, Action.carryOut_bind, Action.carryOut_bind, hSave]
  simp [carryOut, hs, hWork, ending]

end Spoiled

/-- A variable under negations is read back from its text. -/
theorem parse_deepen (n : Nat) :
    parse (Formula.deepen n (.var ⟨"p", rfl⟩)).text = .ok (.deepen n (.var ⟨"p", rfl⟩)) := by
  have hRead : (Formula.deepen n (.var ⟨"p", rfl⟩)).KeywordFree ∧
      (Formula.deepen n (.var ⟨"p", rfl⟩)).Readable ∧
      (Formula.deepen n (.var ⟨"p", rfl⟩)).isBinary = false := by
    induction n with
    | zero =>
      refine ⟨?_, trivial, rfl⟩
      intro name hName
      rw [Formula.mem_names] at hName
      obtain rfl := List.mem_singleton.mp hName
      decide
    | succ n ih => exact ⟨Formula.keywordFree_not.mpr ih.1, ⟨ih.2.2, ih.2.1⟩, rfl⟩
  have hVariable : (Formula.var ⟨"p", rfl⟩).Complete := trivial
  rw [Formula.parse_text (Formula.complete_deepen hVariable n) hRead.1,
    Formula.reread_of_readable hRead.2.1]

/-- A folder and nothing else. -/
def folderTree : FileTree :=
  ⟨[(["trees"], .directory)], []⟩

theorem closed_folderTree : folderTree.Closed := by
  have hNothing : Free (FileTree.at? ⟨[], []⟩ ["trees"]) := .nothing
  exact closed_empty.put hNothing .directory rfl

/-- A folder with a link in the place of the first drawing. -/
def linkedTree : FileTree :=
  ⟨[(["trees", "expression_1"], .link "../x"), (["trees"], .directory)], []⟩

theorem closed_linkedTree : linkedTree.Closed := by
  have hNothing : Free (folderTree.at? ["trees", "expression_1"]) := .nothing
  exact closed_folderTree.put hNothing (.link "../x") rfl

end Command

end TruthTable
