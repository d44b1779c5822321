import TruthTable.Picture
import TruthTable.Proofs.Report

/-!
# Actions that write no report

Standard output holds log entries and reports. Making a picture adds entries
only, and where it fails the fault has nothing to do with formula text or
formula files; both hold of every step that a picture takes, and of steps in
sequence.

Main results:

* `Quiet.bind`          — two quiet actions in sequence are quiet.
* `Picture.quiet_make`  — making a picture is quiet, whatever the layout program
  does.
-/

namespace TruthTable

-- ---------------------------------------------------------------------------
-- Reports among the pieces of output
-- ---------------------------------------------------------------------------

/-- A text that is written in any case. Log entries are none. -/
@[simp]
def Piece.report? : Piece → Option String
  | .entry _ => none
  | .text s => some s

/-- The texts among the pieces of output. -/
abbrev reports (pieces : List Piece) : List String :=
  pieces.filterMap Piece.report?

@[simp]
theorem reports_entry (e : Log.Entry) (rest : List Piece) :
    reports (.entry e :: rest) = reports rest := rfl

@[simp]
theorem reports_text (s : String) (rest : List Piece) :
    reports (.text s :: rest) = s :: reports rest := rfl

/-- Log entries hold no report. -/
@[simp]
theorem reports_entries (entries : List Log.Entry) : reports (entries.map .entry) = [] := by
  simp

-- ---------------------------------------------------------------------------
-- Unexpected faults
-- ---------------------------------------------------------------------------

/-- Neither a fault of formula text nor one of a formula file. -/
def Fault.Unexpected : Fault → Prop
  | .parse _ => False
  | .formulaFile _ => False
  | _ => True

/-- Whatever fault the computation ends in, it is an unexpected one. -/
def Surprising {α : Type} (x : Except Fault α) : Prop :=
  ∀ fault, x = .error fault → fault.Unexpected

theorem surprising_ok {α : Type} (a : α) : Surprising (.ok a) :=
  nofun

theorem surprising_error {α : Type} {fault : Fault} (h : fault.Unexpected) :
    Surprising (.error fault : Except Fault α) := by
  intro other hOther
  injection hOther with hOther
  exact hOther ▸ h

/-- If no part of a sequence ends in an expected fault, the sequence does not. -/
theorem Surprising.bind {α β : Type} {x : Except Fault α} {k : α → Except Fault β}
    (hx : Surprising x) (hk : ∀ a, Surprising (k a)) : Surprising (x >>= k) := by
  cases x with
  | ok a => exact hk a
  | error fault => exact surprising_error (hx fault rfl)

namespace Formula

/-- A fold ends only in faults that its step ends in. -/
theorem surprising_foldRec {α : Type} {step : Layer α → Except Fault α}
    (h : ∀ layer, Surprising (step layer)) (f : Formula) : Surprising (f.foldRec step) := by
  induction f with
  | hole => exact h _
  | constant b => exact h _
  | var n => exact h _
  | not a ih => exact ih.bind fun _ => h _
  | binary op l r ihl ihr => exact ihl.bind fun _ => ihr.bind fun _ => h _

/-- Holes are all that keeps a formula from being rendered. -/
theorem surprising_render (f : Formula) : Surprising f.render := by
  rw [render, fold_eq_foldRec]
  refine surprising_foldRec (fun layer => ?_) f
  cases layer with
  | hole => exact surprising_error trivial
  | _ => exact surprising_ok _

end Formula

namespace Graph

/-- Holes and want of room are all that keeps a formula from being drawn. -/
theorem surprising_statements (f : Formula) (room next : Nat) :
    Surprising (statements room next f) := by
  induction f generalizing room next with
  | hole => cases room <;> exact surprising_error trivial
  | constant b =>
    cases room with
    | zero => exact surprising_error trivial
    | succ room => exact surprising_ok _
  | var n =>
    cases room with
    | zero => exact surprising_error trivial
    | succ room => exact surprising_ok _
  | not a ih =>
    cases room with
    | zero => exact surprising_error trivial
    | succ room => exact (ih _ _).bind fun _ => surprising_ok _
  | binary op l r ihl ihr =>
    cases room with
    | zero => exact surprising_error trivial
    | succ room =>
      exact (ihl _ _).bind fun _ => (ihr _ _).bind fun _ => surprising_ok _

/-- A format that cannot be used is an unexpected fault. -/
theorem surprising_format (v : Value) : Surprising (format? v) := by
  unfold format?
  split
  · exact surprising_ok _
  · dsimp only
    split
    · exact surprising_ok _
    · exact surprising_error trivial
  · exact surprising_error trivial

/-- Drawing a formula fails only in unexpected ways. -/
theorem surprising_draw (room : Nat) (f : Formula) (format : Value) :
    Surprising (draw room (.formula f) format) := by
  refine f.surprising_render.bind fun _ => (surprising_format format).bind fun _ => ?_
  refine (surprising_ok f).bind fun _ => ?_
  exact (surprising_statements _ room 0).bind fun _ => surprising_ok _

end Graph

-- ---------------------------------------------------------------------------
-- Actions that write no report
-- ---------------------------------------------------------------------------

/-- The action writes no report, and whatever fault it ends in is unexpected. -/
structure Quiet {α : Type} (x : Action α) : Prop where
  reports_eq : ∀ s : Scene, reports (x.carryOut s).2.output = reports s.output
  surprising : ∀ s : Scene, Surprising (x.carryOut s).1

namespace Quiet

theorem pure {α : Type} (a : α) : Quiet (Pure.pure a : Action α) :=
  ⟨fun _ => rfl, fun _ => surprising_ok a⟩

/-- Two quiet actions in sequence are quiet. -/
theorem bind {α β : Type} {x : Action α} {k : α → Action β} (hx : Quiet x)
    (hk : ∀ a, Quiet (k a)) : Quiet (x >>= k) := by
  have hStep : ∀ s, reports ((x >>= k).carryOut s).2.output = reports s.output ∧
      Surprising ((x >>= k).carryOut s).1 := by
    intro s
    have hReports := hx.reports_eq s
    have hFault := hx.surprising s
    rw [Action.carryOut_bind]
    generalize x.carryOut s = outcome at hReports hFault
    obtain ⟨result, after⟩ := outcome
    cases result with
    | ok a => exact ⟨((hk a).reports_eq after).trans hReports, (hk a).surprising after⟩
    | error fault => exact ⟨hReports, surprising_error (hFault fault rfl)⟩
  exact ⟨fun s => (hStep s).1, fun s => (hStep s).2⟩

theorem throw {α : Type} {fault : Fault} (h : fault.Unexpected) :
    Quiet (MonadExcept.throw fault : Action α) :=
  ⟨fun _ => rfl, fun _ => surprising_error h⟩

theorem files : Quiet Action.files :=
  ⟨fun _ => rfl, fun s => surprising_ok s.files⟩

theorem note (level : Log.Level) (message : String) : Quiet (Action.note level message) :=
  ⟨fun s => by simp, fun _ => surprising_ok ()⟩

theorem complain (text : String) : Quiet (Action.complain text) :=
  ⟨fun _ => rfl, fun _ => surprising_ok ()⟩

theorem ofExcept {α : Type} {x : Except Fault α} (h : Surprising x) :
    Quiet (Action.ofExcept x) :=
  ⟨fun s => by simp, fun s => by simpa using h⟩

/-- A change of the files writes nothing, and its faults are unexpected. -/
theorem change (f : FileTree → Except PathFault FileTree) : Quiet (Action.change f) := by
  constructor
  · intro s
    rw [Action.carryOut_change]
    split <;> rfl
  · intro s
    rw [Action.carryOut_change]
    split
    · exact surprising_ok ()
    · exact surprising_error trivial

/-- Making directories writes nothing, and its faults are unexpected. -/
theorem makeDirectories (d : Denials) (path : String) (mayExist : Bool) :
    Quiet (Action.makeDirectories d path mayExist) := by
  constructor
  · intro s
    rw [Action.carryOut_makeDirectories]
    split <;> rfl
  · intro s
    rw [Action.carryOut_makeDirectories]
    split
    · exact surprising_ok ()
    · exact surprising_error trivial

/-- A quiet action succeeds or ends in an unexpected fault. -/
theorem ok_or_unexpected {x : Action Unit} (h : Quiet x) (s : Scene) :
    (x.carryOut s).1 = .ok () ∨ ∃ fault, (x.carryOut s).1 = .error fault ∧ fault.Unexpected := by
  cases hEnd : (x.carryOut s).1 with
  | ok _ => exact .inl rfl
  | error fault => exact .inr ⟨fault, rfl, h.surprising s fault hEnd⟩

end Quiet

namespace Picture

/-- Making the folder ready writes no report. -/
theorem quiet_prepareFolder (d : Denials) (folder : String) :
    Quiet (prepareFolder d folder) := by
  refine Quiet.files.bind fun files => ?_
  split
  · exact .pure _
  · exact (Quiet.makeDirectories _ _ _).bind fun _ => .note _ _

/-- Saving a drawing writes no report. -/
theorem quiet_saveDrawing (d : Denials) (path : String) (drawing : Graph.Drawing) :
    Quiet (saveDrawing d path drawing) := by
  have hWrite := (Quiet.change fun files => d.check files .openFile path (files.write path [])).bind
    fun _ => .change fun files =>
      d.check files .fillFile path (files.write path (bytes drawing.source))
  unfold saveDrawing
  dsimp only
  split
  · exact (Quiet.makeDirectories _ _ _).bind fun _ => hWrite
  · exact hWrite

/-- The layout program adds to the files and to standard error only. -/
theorem quiet_layOut (layout : Layout) (r : Request) (format : String) :
    Quiet (layOut layout r format) := by
  cases layout with
  | missing => exact .pure _
  | runs outcome =>
    refine (Quiet.change _).bind fun _ => ?_
    cases outcome.complaint with
    | error fault => exact .throw trivial
    | ok complaint => exact (Quiet.complain _).bind fun _ => .pure _

/-- Making a picture writes no report, whatever the layout program does. -/
theorem quiet_make (w : Workshop) (f : Formula) (name : String) (format : Value)
    (folder : String) : Quiet (make w ⟨.formula f, name, format, folder⟩) := by
  refine (quiet_prepareFolder _ _).bind fun _ => ?_
  refine (Quiet.ofExcept (Graph.surprising_draw w.room f format)).bind fun drawing => ?_
  refine (quiet_saveDrawing _ _ drawing).bind fun _ => ?_
  refine (quiet_layOut w.layout _ _).bind fun why => ?_
  cases why with
  | some why => exact (Quiet.note _ _).bind fun _ => .pure _
  | none => exact (Quiet.change _).bind fun _ => (Quiet.note _ _).bind fun _ => .pure _

end Picture

end TruthTable
