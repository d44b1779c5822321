import Mathlib.Data.List.Basic
import TruthTable.Command.Run
import TruthTable.Proofs.Loggers

/-!
# Verbosity hides log entries and does nothing else

The flags for verbosity set the level of the shared logger, which decides of
each entry whether it is written. No step of a run looks at the flags, so two
runs that differ in nothing else do the same and note the same entries, and
what they write differs by details only: entries of the two lowest levels.

Main results:

* `Log.Registry.log_configure` — what the logger writes after the flags were
  handed to it.
* `carryOut_flags`             — the flags set the threshold of the result.
* `verbosity_only_hides`       — what two runs with different flags share, and
  how the texts that they write differ.
-/

namespace TruthTable

-- ---------------------------------------------------------------------------
-- The shared logger
-- ---------------------------------------------------------------------------

namespace Log.Registry

/-- Setting the level of the shared logger leaves its scribe the shared one. -/
theorem getShared_configure (r : Registry) (verbose debug : Bool) (asked : String) :
    (r.configure verbose debug).getShared asked =
      (r.configure verbose debug, (r.getShared standardName).2) := by
  have hShared : (r.configure verbose debug).shared = some (r.getShared standardName).2 := by
    show ((r.getShared standardName).1.setLevel _ _).shared = _
    rw [shared_setLevel, shared_getShared]
  exact getShared_of_shared hShared asked

/-- After the flags were handed to it, the shared logger writes the entries that
reach their level, whatever was set before. -/
theorem log_configure (r : Registry) (verbose debug : Bool) (asked : String) (e : Entry) :
    (r.configure verbose debug).log ((r.configure verbose debug).getShared asked).2 e =
      if e.passes (flagLevel verbose debug) then e.line else "" := by
  have hName := nameOf?_getShared r standardName
  have hConfigured : (r.configure verbose debug).nameOf? (r.getShared standardName).2 = some _ :=
    (extends_setLevel _ _ _).nameOf hName
  have hLevel : (r.configure verbose debug).level? _ = some (flagLevel verbose debug) :=
    (level?_setLevel hName _ _).trans (if_pos rfl)
  rw [getShared_configure, log, lines_eq hConfigured hLevel]
  split
  · exact String.empty_append
  · rfl

end Log.Registry

-- ---------------------------------------------------------------------------
-- Pieces that are written
-- ---------------------------------------------------------------------------

namespace Piece

/-- The piece is written under a threshold. -/
def passes (threshold : Log.Level) : Piece → Bool
  | .entry e => e.passes threshold
  | .text _ => true

/-- What is written for a piece, if it is. -/
def line : Piece → String
  | .entry e => e.line
  | .text s => s

/-- What is written for a piece when the shared logger decides on the entries. -/
def loggedBy (r : Log.Registry) : Piece → String
  | .entry e => r.log (r.getShared Log.Registry.standardName).2 e
  | .text s => s

/-- No detail: a report, a warning or an error. -/
def weighty : Piece → Bool
  | .entry e => decide (e.level ≠ .debug ∧ e.level ≠ .info)
  | .text _ => true

/-- Under the highest of the three thresholds no details are written. -/
theorem passes_warning (p : Piece) : p.passes .warning = p.weighty := by
  cases p with
  | text s => rfl
  | entry e =>
    rw [passes, weighty, Log.Entry.passes]
    cases e.level <;> rfl

theorem passes_debug (p : Piece) : p.passes .debug = true := by
  cases p with
  | text s => rfl
  | entry e =>
    rw [passes, Log.Entry.passes]
    cases e.level <;> rfl

/-- Whatever the flags are, no report, warning or error is held back. -/
theorem passes_of_weighty {p : Piece} (h : p.weighty = true) (verbose debug : Bool) :
    p.passes (Log.Registry.flagLevel verbose debug) = true := by
  cases p with
  | text s => rfl
  | entry e =>
    rw [weighty] at h
    rw [passes, Log.Entry.passes]
    revert h
    cases verbose <;> cases debug <;> cases e.level <;> decide

theorem shown_eq_loggedBy (r : Log.Registry) (verbose debug : Bool) (p : Piece) :
    p.shown (Log.Registry.flagLevel verbose debug) = p.loggedBy (r.configure verbose debug) := by
  cases p with
  | text s => rfl
  | entry e => exact (Log.Registry.log_configure r verbose debug _ e).symm

end Piece

/-- Pieces that are not written leave no trace in the text. -/
theorem shown_eq_join (threshold : Log.Level) (pieces : List Piece) :
    shown threshold pieces = String.join ((pieces.filter (·.passes threshold)).map Piece.line) := by
  rw [← String.toList_inj, shown, String.toList_join, String.toList_join]
  induction pieces with
  | nil => rfl
  | cons p pieces ih =>
    rw [List.map_cons, List.flatMap_cons, ih]
    cases hp : p.passes threshold with
    | true =>
      have hShown : p.shown threshold = p.line := by
        cases p with
        | text s => rfl
        | entry e => exact if_pos hp
      rw [List.filter_cons_of_pos hp, List.map_cons, List.flatMap_cons, hShown]
    | false =>
      have hShown : p.shown threshold = "" := by
        cases p with
        | text s => cases hp
        | entry e => exact if_neg (by simpa [Piece.passes] using hp)
      rw [List.filter_cons_of_neg (by simp [hp]), hShown]
      rfl

-- ---------------------------------------------------------------------------
-- Two runs
-- ---------------------------------------------------------------------------

namespace Command

/-- No step of the analysis looks at the flags. -/
theorem analyseAll_flags (o : Options) (verbose debug : Bool) (w : Nat → Picture.Workshop)
    (index : Nat) (pairs : List (String × Formula)) :
    analyseAll { o with verbose, debug } w index pairs = analyseAll o w index pairs := by
  induction pairs generalizing index with
  | nil => rfl
  | cons pair pairs ih =>
    obtain ⟨source, f⟩ := pair
    rw [analyseAll, analyseAll, ih]
    rfl

/-- The flags set the threshold of the result and nothing else in it. -/
theorem carryOut_flags (o : Options) (s : Surroundings) (verbose debug : Bool) :
    carryOut { o with verbose, debug } s =
      { carryOut o s with threshold := Log.Registry.flagLevel verbose debug } := by
  have hCollect : collect { o with verbose, debug } = collect o := rfl
  cases hs : s.interrupted with
  | true => simp only [carryOut, hs, if_true]
  | false =>
    simp only [carryOut, hs, Bool.false_eq_true, if_false, hCollect, analyseAll_flags]
    split <;> rfl

/-- The pieces that the run writes, in order. -/
def Result.written (r : Result) : List Piece :=
  r.output.filter (·.passes r.threshold)

theorem Result.stdout_eq (r : Result) : r.stdout = String.join (r.written.map Piece.line) :=
  shown_eq_join r.threshold r.output

/-- The result of a run with the given flags. -/
def flagged (o : Options) (s : Surroundings) (verbose debug : Bool) : Result :=
  carryOut { o with verbose, debug } s

theorem weighty_written (o : Options) (s : Surroundings) (verbose debug : Bool) :
    (flagged o s verbose debug).written.filter Piece.weighty =
      (carryOut o s).output.filter Piece.weighty := by
  rw [flagged, carryOut_flags, Result.written, List.filter_filter]
  refine List.filter_congr fun p _ => ?_
  cases hp : p.weighty with
  | true => exact Piece.passes_of_weighty hp verbose debug
  | false => rfl

/--
**Verbosity hides log entries and does nothing else.** Two runs that differ in
the flags for verbosity end with the same exit code and the same files. What a
run writes to standard output is what the shared logger lets pass of its entries
after the flags were handed to it, with the reports in between. Reports,
warnings and errors are the same in both runs and in the same order, and a run
without flags writes what a run with `--debug` writes except for the entries of
the levels `debug` and `info`, of which a run with `--debug` writes all.
-/
theorem verbosity_only_hides (o : Options) (s : Surroundings) (v d v' d' : Bool) :
    (flagged o s v d).exit = (flagged o s v' d').exit ∧
    (flagged o s v d).files = (flagged o s v' d').files ∧
    (flagged o s v d).errors = (flagged o s v' d').errors ∧
    (flagged o s v d).output = (flagged o s v' d').output ∧
    (∀ r : Log.Registry, (flagged o s v d).stdout =
      String.join ((flagged o s v d).output.map (Piece.loggedBy (r.configure v d)))) ∧
    (flagged o s v d).stdout = String.join ((flagged o s v d).written.map Piece.line) ∧
    (flagged o s v d).written.filter Piece.weighty =
      (flagged o s v' d').written.filter Piece.weighty ∧
    (flagged o s v true).written = (flagged o s v true).output ∧
    (flagged o s false false).written = (flagged o s v true).written.filter Piece.weighty := by
  have hResult : ∀ v d, flagged o s v d =
      { carryOut o s with threshold := Log.Registry.flagLevel v d } := carryOut_flags o s
  have hAll : (flagged o s v true).written = (flagged o s v true).output := by
    rw [hResult, Result.written]
    exact List.filter_eq_self.mpr fun p _ => p.passes_debug
  refine ⟨?_, ?_, ?_, ?_, ?_, Result.stdout_eq _, ?_, hAll, ?_⟩
  · rw [hResult, hResult]
  · rw [hResult, hResult]
  · rw [hResult, hResult]
  · rw [hResult, hResult]
  · intro r
    rw [hResult, Result.stdout, shown]
    exact congrArg String.join (List.map_congr_left fun p _ => p.shown_eq_loggedBy r v d)
  · rw [weighty_written, weighty_written]
  · rw [hAll, hResult, hResult, Result.written]
    exact List.filter_congr fun p _ => p.passes_warning

end Command

end TruthTable
