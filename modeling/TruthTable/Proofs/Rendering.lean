import TruthTable.Picture
import TruthTable.Proofs.Directories

/-!
# Making one picture

Making a picture prepares the folder, saves the drawing, and then depends on
the layout program. A program that works makes the picture beside the drawing,
which is removed; where the program is missing or fails the drawing stays.
Either way nothing changes but the two files, as long as the system does not
refuse to write or remove the drawing and no link stands in its place.

Main results:

* `carryOut_save`              — the drawing is saved where its path leads.
* `carryOut_finish_of_renders`, `carryOut_finish_of_fails` — what becomes of it.
* `carryOut_make_of_fails`     — the drawing is left where its path leads, at
  the end of a link if one stands there.
* `carryOut_make`              — what making one picture does to the files.
-/

namespace TruthTable

-- ---------------------------------------------------------------------------
-- The layout program
-- ---------------------------------------------------------------------------

namespace Layout

/-- The program makes the picture of a drawing beside it, and changes nothing
else. -/
inductive Renders (render : String → List UInt8 → List UInt8) : Layout → Prop
  | intro {outcome : Outcome} {words : String} : outcome.trouble = none →
      outcome.complaint = .ok words →
      (∀ (files : FileTree) (path format : String) (drawing : List UInt8),
        files.read path = .ok drawing →
        outcome.files ((Path.ofString path).text ++ "." ++ format) format files =
          files.write ((Path.ofString path).text ++ "." ++ format) (render format drawing)) →
      Renders render (.runs outcome)

/-- The program is missing, or it ends in trouble and changes nothing. -/
inductive Fails : Layout → Prop
  | missing : Fails .missing
  | broken {outcome : Outcome} {words : String} {trouble : Trouble} :
      outcome.trouble = some trouble → outcome.complaint = .ok words →
      (∀ picture format files, outcome.files picture format files = .ok files) →
      Fails (.runs outcome)

/-- A program that makes the picture does not fail. -/
theorem Renders.not_fails {l : Layout} {render : String → List UInt8 → List UInt8}
    (h : l.Renders render) : ¬ l.Fails := by
  intro hFails
  cases h with
  | intro hNone =>
    cases hFails with
    | broken hTrouble =>
      rw [hNone] at hTrouble
      cases hTrouble

/-- The layout program that works makes pictures. -/
theorem renders_works :
    works.Renders fun format _ => Picture.bytes ("rendered as " ++ format ++ "\n") := by
  unfold works
  refine .intro rfl rfl ?_
  intro files path format drawing _
  dsimp only

end Layout

-- ---------------------------------------------------------------------------
-- One picture
-- ---------------------------------------------------------------------------

/-- A change that succeeds. -/
theorem Action.carryOut_change_of_ok {f : FileTree → Except PathFault FileTree} {s : Scene}
    {after : FileTree} (h : f s.files = .ok after) :
    (Action.change f).carryOut s = (.ok (), { s with files := after }) := by
  rw [Action.carryOut_change, h]

/-- The system refuses nothing that is done with the file at the path. -/
def Denials.Allows (d : Denials) (path : String) : Prop :=
  ∀ (files : FileTree) (change : Change), d files change path = none

/-- A change to a file that the system does not refuse. -/
theorem Denials.Allows.check_eq {d : Denials} {path : String} (h : d.Allows path) (t : FileTree)
    (change : Change) (outcome : Except PathFault FileTree) :
    d.check t change path outcome = outcome := by
  cases outcome with
  | error fault => rfl
  | ok after =>
    rw [Denials.check, ok_bind, h t change]
    rfl

namespace Picture

open FileTree

variable {p : Path} {place q : List String} {x y format : String} {t : FileTree} {l : Layout}
  {w : Workshop} {d : Denials} {render : String → List UInt8 → List UInt8}

/-- The folder is there after it was prepared. -/
def Prepares (d : Denials) (p : Path) (before after : FileTree) : Prop :=
  ∀ s : Scene, s.files = before →
    ∃ s₁ : Scene, (prepareFolder d p.text).carryOut s = (.ok (), s₁) ∧ s₁.files = after

/-- A folder that exists is left as it is. -/
theorem prepares_of_exists (d : Denials) (h : t.exists? p.text = true) : Prepares d p t t := by
  rintro s rfl
  refine ⟨s, ?_, rfl⟩
  simp [prepareFolder, Action.carryOut_bind, h]

/-- A folder that does not exist is made. -/
theorem prepares_of_makes (hNone : t.exists? p.text = false)
    (hMakes : (t.makeDirectories d p.text.toList false).2 = .ok ()) :
    Prepares d p t (t.makeDirectories d p.text.toList false).1 := by
  rintro s rfl
  generalize hMade : s.files.makeDirectories d p.text.toList false = made at hMakes
  obtain ⟨made, outcome⟩ := made
  obtain rfl : outcome = .ok () := hMakes
  have hMake : (Action.makeDirectories d p.text false).carryOut s =
      (.ok (), { s with files := made }) := by
    rw [Action.carryOut_makeDirectories, hMade]
  simp [prepareFolder, Action.carryOut_bind, hNone, hMake]

/-- What is left of a formula at the places of its drawing and its picture. -/
structure Shown (l : Layout) (render : String → List UInt8 → List UInt8) (format : String)
    (source : List UInt8) (drawing picture : List String) (before after : FileTree) : Prop where
  rendered : l.Renders render →
    after.at? picture = some (.file (render format source)) ∧ after.at? drawing = none
  kept : l.Fails →
    after.at? drawing = some (.file source) ∧ after.at? picture = before.at? picture

/-- What making one picture does to the files: the names of the drawing and of
the picture are `x` and `y`. -/
structure Leaves (l : Layout) (render : String → List UInt8 → List UInt8) (format : String)
    (source : List UInt8) (place : List String) (x y : String) (before after : FileTree) :
    Prop where
  filed : Filed place before after
  others : ∀ q, q ≠ place ++ [x] → q ≠ place ++ [y] → after.at? q = before.at? q
  shown : Shown l render format source (place ++ [x]) (place ++ [y]) before after

/-- Where there is no picture the drawing is all that is new. -/
theorem leaves_of_fails (hFails : l.Fails) (hxy : x ≠ y)
    (hDrawing : Free (t.at? (place ++ [x]))) (source : List UInt8) :
    Leaves l render format source place x y t (t.put (place ++ [x]) (.file source)) where
  filed := filed_put hDrawing source
  others := fun q hq _ => by simp [at?_put, hq]
  shown := by
    refine ⟨fun hRenders => absurd hFails hRenders.not_fails, fun _ => ?_⟩
    simp [at?_put, hxy.symm]

/-- Where there is a picture it is all that is new. -/
theorem leaves_of_renders (hRenders : l.Renders render) (hxy : x ≠ y)
    (hDrawing : Free (t.at? (place ++ [x]))) (hPicture : Free (t.at? (place ++ [y])))
    (source : List UInt8) :
    Leaves l render format source place x y t
      (((t.put (place ++ [x]) (.file source)).put (place ++ [y])
        (.file (render format source))).erase (place ++ [x])) where
  filed := by
    have hSaved := filed_put hDrawing source
    have hMade := filed_put (hSaved.free hPicture) (render format source)
    exact hSaved.trans (hMade.trans (filed_erase (hMade.free (hSaved.free hDrawing))))
  others := fun q hq hq' => by simp [at?_put, at?_erase, hq, hq']
  shown := by
    refine ⟨fun _ => ?_, fun hFails => absurd hFails hRenders.not_fails⟩
    simp [at?_put, at?_erase, hxy.symm]

/-- The name of the picture is longer than that of the drawing. -/
theorem drawing_ne_picture : x ≠ x ++ "." ++ format := by
  intro h
  have hLength := congrArg (fun s => s.toList.length) h
  simp only [String.toList_append, List.length_append] at hLength
  have hDot : ".".toList.length = 1 := rfl
  omega

/-- The picture is made below the folder, beside the drawing. -/
theorem picture_eq (hp : p.Proper) (hx : Component x) (subject : Argument) (v : Value) :
    Request.picture ⟨subject, x, v, p.text⟩ format = (p.below (x ++ "." ++ format)).text := by
  rw [Request.picture, Request.path, Path.ofString_joinPath hp hx, String.append_assoc,
    Path.text_below_append, String.append_assoc]

/-- A drawing in a folder that is there is saved where its path leads. -/
theorem carryOut_saveDrawing {s : Scene} (ht : s.files.Closed) (hp : p.Proper)
    (hFolder : s.files.IsFolder p place) (hx : Component x)
    (hLeads : s.files.Leads (joinPath p.text x) q) (hFree : Free (s.files.at? q))
    (hAllows : d.Allows (joinPath p.text x)) (drawing : Graph.Drawing) :
    (saveDrawing d (joinPath p.text x) drawing).carryOut s =
      (.ok (), { s with files := s.files.put q (.file (bytes drawing.source)) }) := by
  have hAbove : (String.ofList (splitLast (joinPath p.text x).toList).1) = p.text := by
    rw [Path.splitLast_joinPath hp hx, String.ofList_toList]
  have hMake : (Action.makeDirectories d p.text true).carryOut s = (.ok (), s) := by
    rw [Action.carryOut_makeDirectories, makeDirectories_of_isFolder ht hp hFolder]
  have hEmpty : p.text.isEmpty = false := by simpa using Path.text_ne_empty hp
  -- opening the file empties it, and filling it replaces the empty file
  have hOpen := hLeads.write_eq hFree.ne_directory []
  have hThere : (s.files.put q (.file [])).at? q = some (.file []) := by
    rw [at?_put hFree.ne_nil, if_pos rfl]
  have hStill := hLeads.mono (keeps_put hFree (.file [])) (by simp [hThere])
  have hFill := hStill.write_eq (by simp [hThere]) (bytes drawing.source)
  rw [put_put] at hFill
  simp [saveDrawing, hAbove, hEmpty, hAllows.check_eq, Action.carryOut_bind, hMake,
    Action.carryOut_change, hOpen, hFill]

/-- A layout program that fails leaves the files and tells why. -/
theorem carryOut_layOut_of_fails (h : l.Fails) (r : Request) (format : String) (s : Scene) :
    ∃ why s', (layOut l r format).carryOut s = (.ok (some why), s') ∧ s'.files = s.files := by
  cases h with
  | missing => exact ⟨missingProgram, s, rfl, rfl⟩
  | @broken outcome words trouble hTrouble hWords hSame =>
    have hChange := Action.carryOut_change_of_ok (hSame (r.picture format) format s.files)
    refine ⟨brokenRun r.path format words trouble, { s with errors := s.errors ++ words }, ?_, rfl⟩
    simp only [layOut, Action.carryOut_bind, hChange, hWords, Action.carryOut_complain, hTrouble,
      Option.map_some, Action.carryOut_pure]

/-- A layout program that works writes the picture of the drawing that it reads. -/
theorem carryOut_layOut_of_renders (h : l.Renders render) {r : Request} {s : Scene}
    {source : List UInt8} {after : FileTree} (hRead : s.files.read r.path = .ok source)
    (hWrite : s.files.write (r.picture format) (render format source) = .ok after) :
    ∃ s', (layOut l r format).carryOut s = (.ok none, s') ∧ s'.files = after := by
  cases h with
  | @intro outcome words hNone hWords hFiles =>
    have hChange := Action.carryOut_change_of_ok
      ((hFiles s.files r.path format source hRead).trans hWrite)
    refine ⟨{ s with files := after, errors := s.errors ++ words }, ?_, rfl⟩
    simp only [layOut, Request.picture, Action.carryOut_bind, hChange, hWords,
      Action.carryOut_complain, hNone, Option.map_none, Action.carryOut_pure]

/-- Making a picture up to the call of the layout program. -/
def save (w : Workshop) (r : Request) : Action Graph.Drawing := do
  prepareFolder w.denials r.folder
  let drawing ← Action.ofExcept (Graph.draw w.room r.subject r.format)
  saveDrawing w.denials r.path drawing
  return drawing

/-- Making a picture once the drawing is saved. -/
def finish (w : Workshop) (r : Request) (format : String) : Action (Option String) := do
  match ← layOut w.layout r format with
  | some why =>
    Action.note .warning (warning r why)
    return none
  | none =>
    Action.change fun files => w.denials.check files .remove r.path (files.remove r.path)
    Action.note .info ("Expression tree saved to " ++ r.picture format)
    return some (r.picture format)

/-- Making a picture has two parts: the drawing is saved, then laid out. -/
theorem make_eq (w : Workshop) (r : Request) :
    make w r = save w r >>= fun drawing => finish w r drawing.format := by
  symm
  simp only [save, bind_assoc, pure_bind]
  rfl

/-- A picture that the layout program does not make leaves its drawing. -/
theorem carryOut_finish_of_fails (h : w.layout.Fails) (r : Request) (format : String) (s : Scene) :
    ∃ result s', (finish w r format).carryOut s = (.ok result, s') ∧ s'.files = s.files := by
  obtain ⟨why, s₁, hLayOut, hFiles⟩ := carryOut_layOut_of_fails h r format s
  refine ⟨none, { s₁ with output := s₁.output ++ [.entry ⟨.warning, warning r why⟩] }, ?_, hFiles⟩
  rw [finish, Action.carryOut_bind, hLayOut]
  rfl

/-- A formula that cannot be drawn ends the making of its picture, once the
folder is prepared. -/
theorem carryOut_save_of_draw_error {s s₁ : Scene} {r : Request} {fault : Fault}
    (hPrepare : (prepareFolder w.denials r.folder).carryOut s = (.ok (), s₁))
    (hDraw : Graph.draw w.room r.subject r.format = .error fault) :
    (save w r).carryOut s = (.error fault, s₁) := by
  simp only [save, Action.carryOut_bind, hPrepare, hDraw, Action.carryOut_ofExcept]

section Make

variable (subject : Argument) (v : Value)
  (ht : t.Closed) (hp : p.Proper) (hFolder : t.IsFolder p place) (hx : Fits p x)
  (hAllows : w.denials.Allows (joinPath p.text x))
include ht hp hFolder hx hAllows

/-- The drawing is saved where its path leads, once the folder is there. -/
theorem carryOut_save {t₀ : FileTree} {s : Scene} {drawing : Graph.Drawing}
    (hPrepares : Prepares w.denials p t₀ t) (hs : s.files = t₀)
    (hDraw : Graph.draw w.room subject v = .ok drawing)
    (hLeads : t.Leads (joinPath p.text x) q) (hFree : Free (t.at? q)) :
    ∃ s', (save w ⟨subject, x, v, p.text⟩).carryOut s = (.ok drawing, s') ∧
      s'.files = t.put q (.file (bytes drawing.source)) := by
  obtain ⟨s₁, hPrepare, rfl⟩ := hPrepares s hs
  have hSave := carryOut_saveDrawing ht hp hFolder hx.toComponent hLeads hFree hAllows drawing
  refine ⟨{ s₁ with files := s₁.files.put q (.file (bytes drawing.source)) }, ?_, rfl⟩
  rw [save, Action.carryOut_bind, hPrepare]
  simp only [Action.carryOut_bind, hDraw, Action.carryOut_ofExcept, Request.path, hSave,
    Action.carryOut_pure]

omit ht in
/-- A picture that the layout program makes takes the place of its drawing. -/
theorem carryOut_finish_of_renders (h : w.layout.Renders render)
    (hy : Fits p (x ++ "." ++ format)) {s : Scene} (hs : s.files = t) {source : List UInt8}
    (hDrawing : t.at? (place ++ [x]) = some (.file source))
    (hPicture : Free (t.at? (place ++ [x ++ "." ++ format]))) :
    ∃ result s', (finish w ⟨subject, x, v, p.text⟩ format).carryOut s = (.ok result, s') ∧
      s'.files = (t.put (place ++ [x ++ "." ++ format])
        (.file (render format source))).erase (place ++ [x]) := by
  subst hs
  have hRead := (hFolder.leads_joinPath hp hx (by simp [hDrawing])).read_eq hDrawing
  have hWrite := (hFolder.leads_below hp hy hPicture.ne_link).write_eq hPicture.ne_directory
    (render format source)
  rw [← picture_eq hp hx.toComponent subject v] at hWrite
  obtain ⟨s₁, hLayOut, hFiles⟩ :=
    carryOut_layOut_of_renders (r := ⟨subject, x, v, p.text⟩) h hRead hWrite
  -- the picture is written beside the drawing, which is still there to be removed
  have hFiled := filed_put hPicture (render format source)
  rw [← hFiles] at hFiled ⊢
  have hThere : s₁.files.at? (place ++ [x]) = some (.file source) := by
    have hOther : place ++ [x] ≠ place ++ [x ++ "." ++ format] := by simpa using drawing_ne_picture
    rw [hFiles, at?_put (List.concat_ne_nil _ _), if_neg hOther, hDrawing]
  have hStill := hFiled.isFolder hFolder
  have hRemove := (hStill.leads_joinPath hp hx (by simp [hThere])).remove_eq
    (hStill.locate_joinPath hp hx nofun) hThere
  refine ⟨some (Request.picture ⟨subject, x, v, p.text⟩ format),
    ⟨s₁.files.erase (place ++ [x]), s₁.output ++ [.entry ⟨.info, "Expression tree saved to " ++
      Request.picture ⟨subject, x, v, p.text⟩ format⟩], s₁.errors⟩, ?_, rfl⟩
  rw [finish, Action.carryOut_bind, hLayOut]
  simp only [Request.path, Action.carryOut_bind, hAllows.check_eq, Action.carryOut_change, hRemove,
    Action.carryOut_note, Action.carryOut_pure]

/-- Making a picture that the layout program does not make: the drawing is written
where its path leads. -/
theorem carryOut_make_of_fails {t₀ : FileTree} {s : Scene} {drawing : Graph.Drawing}
    (hPrepares : Prepares w.denials p t₀ t) (hs : s.files = t₀)
    (hDraw : Graph.draw w.room subject v = .ok drawing)
    (hLeads : t.Leads (joinPath p.text x) q) (hFree : Free (t.at? q)) (hFails : w.layout.Fails) :
    ∃ result s', (make w ⟨subject, x, v, p.text⟩).carryOut s = (.ok result, s') ∧
      s'.files = t.put q (.file (bytes drawing.source)) := by
  obtain ⟨s₁, hSave, hSaved⟩ :=
    carryOut_save subject v ht hp hFolder hx hAllows hPrepares hs hDraw hLeads hFree
  obtain ⟨result, s', hFinish, hFiles⟩ :=
    carryOut_finish_of_fails hFails ⟨subject, x, v, p.text⟩ drawing.format s₁
  refine ⟨result, s', ?_, hFiles.trans hSaved⟩
  rw [make_eq, Action.carryOut_bind, hSave]
  exact hFinish

/-- Making a picture that the layout program makes: it stands beside the place of
the drawing, which is removed. -/
theorem carryOut_make_of_renders {t₀ : FileTree} {s : Scene} {drawing : Graph.Drawing}
    (hPrepares : Prepares w.denials p t₀ t) (hs : s.files = t₀)
    (hy : Fits p (x ++ "." ++ drawing.format))
    (hDraw : Graph.draw w.room subject v = .ok drawing)
    (hDrawing : Free (t.at? (place ++ [x])))
    (hPicture : Free (t.at? (place ++ [x ++ "." ++ drawing.format])))
    (hRenders : w.layout.Renders render) :
    ∃ result s', (make w ⟨subject, x, v, p.text⟩).carryOut s = (.ok result, s') ∧
      s'.files = ((t.put (place ++ [x]) (.file (bytes drawing.source))).put
        (place ++ [x ++ "." ++ drawing.format])
        (.file (render drawing.format (bytes drawing.source)))).erase (place ++ [x]) := by
  obtain ⟨s₁, hSave, hSaved⟩ := carryOut_save subject v ht hp hFolder hx hAllows hPrepares hs hDraw
    (hFolder.leads_joinPath hp hx hDrawing.ne_link) hDrawing
  have hFiled := filed_put hDrawing (bytes drawing.source)
  have hThere : (t.put (place ++ [x]) (.file (bytes drawing.source))).at? (place ++ [x]) =
      some (.file (bytes drawing.source)) := by simp [at?_put]
  obtain ⟨result, s', hFinish, hFiles⟩ := carryOut_finish_of_renders subject v hp
    (hFiled.isFolder hFolder) hx hAllows hRenders hy hSaved hThere (hFiled.free hPicture)
  refine ⟨result, s', ?_, hFiles⟩
  rw [make_eq, Action.carryOut_bind, hSave]
  exact hFinish

/-- **Making one picture ends well once the folder is there.** -/
theorem carryOut_make {t₀ : FileTree} {s : Scene} {drawing : Graph.Drawing}
    (hPrepares : Prepares w.denials p t₀ t) (hs : s.files = t₀) (hy : Fits p (x ++ "." ++ format))
    (hDraw : Graph.draw w.room subject v = .ok drawing) (hFormat : drawing.format = format)
    (hDrawing : Free (t.at? (place ++ [x])))
    (hPicture : Free (t.at? (place ++ [x ++ "." ++ format])))
    (hLayout : w.layout.Renders render ∨ w.layout.Fails) :
    ∃ result s', (make w ⟨subject, x, v, p.text⟩).carryOut s = (.ok result, s') ∧
      Leaves w.layout render format (bytes drawing.source) place x (x ++ "." ++ format) t
        s'.files := by
  subst hFormat
  rcases hLayout with hRenders | hFails
  · obtain ⟨result, s', hMake, hFiles⟩ := carryOut_make_of_renders subject v ht hp hFolder hx
      hAllows hPrepares hs hy hDraw hDrawing hPicture hRenders
    exact ⟨result, s', hMake, hFiles ▸
      leaves_of_renders hRenders drawing_ne_picture hDrawing hPicture _⟩
  · obtain ⟨result, s', hMake, hFiles⟩ := carryOut_make_of_fails subject v ht hp hFolder hx
      hAllows hPrepares hs hDraw (hFolder.leads_joinPath hp hx hDrawing.ne_link) hDrawing hFails
    exact ⟨result, s', hMake, hFiles ▸ leaves_of_fails hFails drawing_ne_picture hDrawing _⟩

end Make

end Picture

end TruthTable
