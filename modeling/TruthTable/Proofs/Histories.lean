import Mathlib.Data.List.Dedup
import TruthTable.Proofs.BitPatterns
import TruthTable.Session

/-!
# Assignments and their histories

The history of an assignment is what was entered for it, the latest entry
first. An assignment made from a bit pattern starts with the entries of the
pattern, a copy with the history of what it was copied from; an addition that
is refused leaves no entry. However a session goes on, every assignment gives a
name the value of the latest entry for it in its own history.

Main results:

* `Assignment.Recalls.tells` — what reads an assignment answers from its history.
* `effect_after`             — what a step does to assignments, registers and
  histories, guards included.
* `Recount.Faithful.after`, `Recount.Faithful.afterAll` — assignments recall
  their histories, kept by a step and hence along a session.
* `assignments_follow_histories` — all of it, for every session.
-/

namespace TruthTable

/-- What was entered for an assignment, the latest entry first. -/
abbrev History := List (Name × Bool)

-- ---------------------------------------------------------------------------
-- One assignment and its history
-- ---------------------------------------------------------------------------

/-- The entry that an addition asks for, if its arguments are fit. -/
def addition? : Value → Value → Option (Name × Bool)
  | .text s, .bool b => (Name.ofString? s).map (·, b)
  | _, _ => none

/-- A name and a truth value ask for an entry. -/
theorem addition?_text (n : Name) (b : Bool) :
    addition? (.text n.text) (.bool b) = some (n, b) := by
  rw [addition?, Name.ofString?_text, Option.map_some]

namespace Assignment

variable {a : Assignment} {h : History}

/-- An addition is given the text of a name and a truth value, or it is refused. -/
theorem add?_cases (a : Assignment) (name value : Value) :
    (∃ (n : Name) (b : Bool), name = .text n.text ∧ value = .bool b) ∨
    ∃ cause, a.add? name value = .error (.argument cause) := by
  rcases Name.ofValue?_cases name with ⟨n, rfl, hName⟩ | ⟨-, cause, hRefused⟩
  · rw [add?, hName, ok_bind]
    split
    · exact .inl ⟨n, _, rfl, rfl⟩
    · exact .inr ⟨_, rfl⟩
  · exact .inr ⟨cause, by rw [add?, hRefused]; rfl⟩

/-- The values of the assignment are the latest entries of the history. -/
def Recalls (a : Assignment) (h : History) : Prop :=
  ∀ n, a.get? n = h.lookup n

/-- An entry goes to the front of the history. -/
theorem Recalls.insert (hRecalls : a.Recalls h) (n : Name) (b : Bool) :
    (a.insert n b).Recalls ((n, b) :: h) := by
  intro m
  rw [get?_insert, Table.lookup_cons_eq, hRecalls m]

/-- Entries in a row go to the front of the history one by one. -/
theorem recalls_enter (entries : List (Name × Bool)) :
    (empty.enter entries).Recalls entries.reverse := by
  intro n
  rw [get?_enter]
  exact Option.or_none

/-- The operations that read an assignment answer from the history: a name has
the value of its latest entry, and every other argument is refused. -/
structure Tells (a : Assignment) (h : History) : Prop where
  /-- Entries come in the order of their names, which are distinct. -/
  entries_increasing : a.entries.Pairwise (·.1 < ·.1)
  names_increasing : a.names.Pairwise (· < ·)
  names_valid : ∀ n ∈ a.names, isName n.text = true
  mem_entries : ∀ n b, (n, b) ∈ a.entries ↔ h.lookup n = some b
  mem_names : ∀ n, n ∈ a.names ↔ n ∈ h.map (·.1)
  size_eq : a.size = (h.map (·.1)).dedup.length
  valueOf_entered : ∀ n b, h.lookup n = some b → a.valueOf? (.text n.text) = .ok b
  valueOf_missing : ∀ n, h.lookup n = none →
    a.valueOf? (.text n.text) = .error (.argument (.unknownName n))
  contains_eq : ∀ n, a.contains? (.text n.text) = .ok (h.lookup n).isSome
  /-- What is not the text of a name is refused. -/
  refused : ∀ v, (∀ n : Name, v ≠ .text n.text) → ∃ cause,
    a.valueOf? v = .error (.argument cause) ∧ a.contains? v = .error (.argument cause)

/-- The names are those that something was entered for. -/
theorem Recalls.mem_names_iff (hRecalls : a.Recalls h) (n : Name) :
    n ∈ a.names ↔ n ∈ h.map (·.1) := by
  rw [Assignment.mem_names_iff, hRecalls n, Table.isSome_lookup_iff]

/-- The size is the number of names that something was entered for. -/
theorem Recalls.size_eq (hRecalls : a.Recalls h) : a.size = (h.map (·.1)).dedup.length := by
  have hPerm : a.names.Perm (h.map (·.1)).dedup := by
    rw [List.perm_ext_iff_of_nodup a.nodup_names (List.nodup_dedup _)]
    intro n
    rw [List.mem_dedup, hRecalls.mem_names_iff]
  rw [← hPerm.length_eq, names, List.length_map, size]

/-- An assignment that recalls its history tells it. -/
theorem Recalls.tells (hRecalls : a.Recalls h) : a.Tells h where
  entries_increasing := a.increasing
  names_increasing := a.names_pairwise
  names_valid := fun n _ => n.valid
  mem_entries := fun n b => by rw [← get?_eq_some_iff, hRecalls n]
  mem_names := hRecalls.mem_names_iff
  size_eq := hRecalls.size_eq
  valueOf_entered := by
    intro n b hLatest
    rw [valueOf?, n.ofValue?_text, ok_bind, hRecalls n, hLatest]
    rfl
  valueOf_missing := by
    intro n hNone
    rw [valueOf?, n.ofValue?_text, ok_bind, hRecalls n, hNone]
    rfl
  contains_eq := by
    intro n
    rw [contains?, n.ofValue?_text, ok_bind, hRecalls n]
    rfl
  refused := by
    intro v hNot
    rcases Name.ofValue?_cases v with ⟨n, hText, -⟩ | ⟨-, cause, hRefused⟩
    · exact absurd hText (hNot n)
    · exact ⟨cause, by rw [valueOf?, hRefused]; rfl, by rw [contains?, hRefused]; rfl⟩

end Assignment

-- ---------------------------------------------------------------------------
-- Registers
-- ---------------------------------------------------------------------------

namespace Session

variable {s : State} {register : String} {cell : Nat} {a : Assignment}

theorem cell_eq_ok_iff :
    s.cell register = .ok cell ↔ s.assignments.lookup register = some cell := by
  unfold State.cell
  cases s.assignments.lookup register with
  | some found => rw [Except.ok.injEq, Option.some.injEq]
  | none => simp

theorem assignment_eq_ok_iff : s.assignment register = .ok a ↔
    ∃ cell, s.assignments.lookup register = some cell ∧ s.store.get? cell = some a := by
  rw [State.assignment, bind_eq_ok_iff]
  refine exists_congr fun cell => ?_
  rw [cell_eq_ok_iff]
  refine and_congr_right fun _ => ?_
  cases s.store.get? cell with
  | some found => simp [pure, Except.pure]
  | none => simp [throw, throwThe, MonadExceptOf.throw]

/-- An addition to the assignment in a register. -/
theorem step_add (hCell : s.assignments.lookup register = some cell)
    (hOld : s.store.get? cell = some a) (name value : Value) :
    step s (.add register name value) = match a.add? name value with
      | .ok a' => ({ s with store := s.store.replace cell a' }, pure (.state a'))
      | .error fault => look s (.error fault) := by
  unfold step
  simp only [cell_eq_ok_iff.mpr hCell, assignment_eq_ok_iff.mpr ⟨cell, hCell, hOld⟩, ok_bind]
  cases a.add? name value with
  | ok a' => rfl
  | error fault => rfl

/-- A register without an assignment refuses an addition. -/
theorem step_add_of_error {fault : Fault} (h : s.assignment register = .error fault)
    (name value : Value) : ∃ cause, step s (.add register name value) = look s (.error cause) := by
  cases hCell : s.cell register with
  | ok cell => exact ⟨fault, by simp only [step, hCell, h]; rfl⟩
  | error cause => exact ⟨cause, by simp only [step, hCell]; rfl⟩

/-- A register answers for an assignment: reading changes nothing, a copy can be
made, and an entry is added if its arguments are fit. -/
structure Serves (s : State) (register : String) (a : Assignment) : Prop where
  valueOf : ∀ v, step s (.valueOf register v) = look s (.flag <$> a.valueOf? v)
  contains : ∀ v, step s (.contains register v) = look s (.flag <$> a.contains? v)
  names : step s (.names register) = look s (.ok (.names a.names))
  entries : step s (.entries register) = look s (.ok (.entries a.entries))
  size : step s (.size register) = look s (.ok (.number a.size))
  clone : ∀ target, (step s (.clone target register)).2.result = .ok (.state a)
  add : ∀ (n : Name) b, (step s (.add register (.text n.text) (.bool b))).2.result =
    .ok (.state (a.insert n b))
  add_refused : ∀ name value, (∀ (n : Name) b, ¬ (name = .text n.text ∧ value = .bool b)) →
    ∃ cause, (step s (.add register name value)).2.result = .error (.argument cause)

/-- A register answers for the assignment in its cell. -/
theorem serves_of_held (hCell : s.assignments.lookup register = some cell)
    (hOld : s.store.get? cell = some a) : Serves s register a := by
  have hSource := assignment_eq_ok_iff.mpr ⟨cell, hCell, hOld⟩
  refine ⟨?_, ?_, ?_, ?_, ?_, ?_, ?_, ?_⟩
  · intro v
    simp only [step, hSource, ok_bind, bind_pure_comp]
  · intro v
    simp only [step, hSource, ok_bind, bind_pure_comp]
  · simp only [step, hSource, ok_bind]
    rfl
  · simp only [step, hSource, ok_bind]
    rfl
  · simp only [step, hSource, ok_bind]
    rfl
  · intro target
    simp only [step, hSource]
    rfl
  · intro n b
    rw [step_add hCell hOld, a.add?_text]
    rfl
  · intro name value hUnfit
    rcases a.add?_cases name value with ⟨n, b, hFit⟩ | ⟨cause, hRefused⟩
    · exact absurd hFit (hUnfit n b)
    · exact ⟨cause, by rw [step_add hCell hOld, hRefused]; rfl⟩

-- ---------------------------------------------------------------------------
-- Recording steps
-- ---------------------------------------------------------------------------

/-- The entries that a bit pattern asks for, the first name first. -/
def patternEntries (names bits : Value) : List (Name × Bool) :=
  match Assignment.sequence? names, bits with
  | .ok vs, .int k =>
    Assignment.bitEntries (vs.filterMap fun v => (Name.ofValue? v).toOption) k.toNat
  | _, _ => []

/-- A pattern that is taken asks for the entries of its names. -/
theorem patternEntries_eq {names : Value} {ns : List Name}
    (hNames : Assignment.sequence? names = .ok (Assignment.textValues ns)) (k : Nat) :
    patternEntries names (.int k) = Assignment.bitEntries ns k := by
  have hRead : (Assignment.textValues ns).filterMap (fun v => (Name.ofValue? v).toOption) = ns := by
    rw [Assignment.textValues, List.filterMap_map, List.filterMap_eq_map_iff_forall_eq_some.mpr]
    · exact List.map_id ns
    · intro n _
      show (Name.ofValue? (.text n.text)).toOption = _
      rw [n.ofValue?_text]
      rfl
  unfold patternEntries
  simp only [hNames]
  rw [hRead, Int.toNat_natCast]

/-- The histories after a step that succeeds, one for each cell. -/
def Step.record (s : State) (histories : List History) : Step → List History
  | .create _ => histories ++ [[]]
  | .ofBits _ sequence bits => histories ++ [(patternEntries sequence bits).reverse]
  | .clone _ source =>
    histories ++ [((s.assignments.lookup source).bind (histories[·]?)).getD []]
  | .add register name value =>
    match s.assignments.lookup register, addition? name value with
    | some cell, some e => histories.modify cell (e :: ·)
    | _, _ => histories
  | .next enumeration _ =>
    match s.cursors.lookup enumeration with
    | some ⟨e, k⟩ =>
      if k < e.size then histories ++ [(Assignment.bitEntries e.names.toList k).reverse]
      else histories
    | none => histories
  | _ => histories

/-- A session and the histories of its assignments, one for each cell. -/
structure Recount where
  state : State
  histories : List History

namespace Recount

/-- Nothing has happened yet. -/
def start (threshold : Log.Level) : Recount :=
  ⟨.start threshold, []⟩

/-- Carries out a step and records it, unless it fails. -/
def after (c : Recount) (x : Step) : Recount where
  state := (step c.state x).1
  histories :=
    match (step c.state x).2.result with
    | .ok _ => x.record c.state c.histories
    | .error _ => c.histories

/-- What a step does to assignments, to their registers and to histories. -/
inductive Effect (c : Recount) (x : Step) (c' : Recount) : Prop
  /-- Nothing at all. -/
  | nothing (hStore : c'.state.store = c.state.store)
      (hRegisters : c'.state.assignments = c.state.assignments)
      (hHistories : c'.histories = c.histories)
  /-- Another register gets the cell of a register. -/
  | share (target source : String) (cell : Nat) (reply : Reply)
      (hOk : (step c.state x).2.result = .ok reply)
      (hCell : c.state.assignments.lookup source = some cell)
      (hStore : c'.state.store = c.state.store)
      (hRegisters : c'.state.assignments = Table.put c.state.assignments target cell)
      (hHistories : c'.histories = c.histories)
  /-- A new cell, whose assignment recalls its history, or is copied with its history. -/
  | hold (register : String) (a : Assignment) (past : History) (reply : Reply)
      (hOk : (step c.state x).2.result = .ok reply)
      (hStore : c'.state.store = (c.state.store.create a).1)
      (hRegisters : c'.state.assignments =
        Table.put c.state.assignments register (c.state.store.create a).2)
      (hHistories : c'.histories = c.histories ++ [past])
      (hNew : a.Recalls past ∨ ∃ cell, c.state.store.get? cell = some a ∧
        past = (c.histories[cell]?).getD [])
  /-- An entry for the assignment in the cell of a register. -/
  | write (register : String) (cell : Nat) (a : Assignment) (n : Name) (b : Bool) (reply : Reply)
      (hOk : (step c.state x).2.result = .ok reply)
      (hStep : x = .add register (.text n.text) (.bool b))
      (hCell : c.state.assignments.lookup register = some cell)
      (hOld : c.state.store.get? cell = some a)
      (hStore : c'.state.store = c.state.store.replace cell (a.insert n b))
      (hRegisters : c'.state.assignments = c.state.assignments)
      (hHistories : c'.histories = c.histories.modify cell ((n, b) :: ·))

variable {c : Recount} {x : Step}

/-- A step that succeeds is recorded. -/
theorem histories_after_of_ok {reply : Reply} (h : (step c.state x).2.result = .ok reply) :
    (c.after x).histories = x.record c.state c.histories := by
  unfold after
  rw [h]

/-- A step that records nothing keeps the histories. -/
theorem histories_after_of_silent (h : x.record c.state c.histories = c.histories) :
    (c.after x).histories = c.histories := by
  unfold after
  split
  · exact h
  · rfl

/-- A step that only finds a fault has no effect. -/
theorem effect_of_refused (fault : Fault) (h : step c.state x = look c.state (.error fault)) :
    c.Effect x (c.after x) := by
  unfold after
  rw [h]
  exact .nothing rfl rfl rfl

/-- A step that puts an assignment into a register makes a new cell. -/
theorem effect_of_held {register : String} {a : Assignment} {cursors : List (String × Cursor)}
    (h : step c.state x = ({ c.state.hold register a with cursors }, pure (.state a)))
    {past : History} (hRecord : x.record c.state c.histories = c.histories ++ [past])
    (hNew : a.Recalls past ∨ ∃ cell, c.state.store.get? cell = some a ∧
      past = (c.histories[cell]?).getD []) : c.Effect x (c.after x) := by
  have hOk : (step c.state x).2.result = .ok (.state a) := by
    rw [h]
    rfl
  have hHistories := (histories_after_of_ok hOk).trans hRecord
  refine .hold register a past _ hOk ?_ ?_ hHistories hNew
  · simp only [after, h]
    rfl
  · simp only [after, h]
    rfl

-- ---------------------------------------------------------------------------
-- What a step does
-- ---------------------------------------------------------------------------

theorem effect_ofBits (c : Recount) (register : String) (names bits : Value) :
    c.Effect (.ofBits register names bits) (c.after (.ofBits register names bits)) := by
  cases hBits : Assignment.ofBits? names bits with
  | error fault => exact effect_of_refused fault (by simp only [step, hBits])
  | ok a =>
    refine effect_of_held (by simp only [step, hBits]; rfl) rfl (.inl ?_)
    obtain ⟨ns, k, hNames, rfl, -, -, rfl⟩ := Assignment.ofBits?_eq_ok_iff.mp hBits
    rw [patternEntries_eq hNames]
    exact Assignment.recalls_enter _

theorem effect_clone (c : Recount) (target source : String) :
    c.Effect (.clone target source) (c.after (.clone target source)) := by
  cases hSource : c.state.assignment source with
  | error fault => exact effect_of_refused fault (by simp only [step, hSource])
  | ok a =>
    obtain ⟨cell, hCell, hOld⟩ := assignment_eq_ok_iff.mp hSource
    refine effect_of_held (by simp only [step, hSource]; rfl) rfl (.inr ⟨cell, hOld, ?_⟩)
    rw [hCell, Option.bind_some]

theorem effect_alias (c : Recount) (target source : String) :
    c.Effect (.alias target source) (c.after (.alias target source)) := by
  cases hCell : c.state.cell source with
  | error fault => exact effect_of_refused fault (by simp only [step, hCell])
  | ok cell =>
    cases hSource : c.state.assignment source with
    | error fault => exact effect_of_refused fault (by simp only [step, hCell, hSource])
    | ok a =>
      have hStep : step c.state (.alias target source) =
          ({ c.state with assignments := Table.put c.state.assignments target cell },
            pure (.state a)) := by
        simp only [step, hCell, hSource]
      refine .share target source cell (.state a) ?_ (cell_eq_ok_iff.mp hCell) ?_ ?_
        (histories_after_of_silent rfl)
      · rw [hStep, Logged.result_pure]
      · simp only [after, hStep]
      · simp only [after, hStep]

theorem effect_add (c : Recount) (register : String) (name value : Value) :
    c.Effect (.add register name value) (c.after (.add register name value)) := by
  cases hSource : c.state.assignment register with
  | error fault =>
    obtain ⟨cause, hStep⟩ := step_add_of_error hSource name value
    exact effect_of_refused cause hStep
  | ok a =>
    obtain ⟨cell, hCell, hOld⟩ := assignment_eq_ok_iff.mp hSource
    have hStep := step_add hCell hOld name value
    rcases a.add?_cases name value with ⟨n, b, rfl, rfl⟩ | ⟨cause, hRefused⟩
    · rw [a.add?_text] at hStep
      have hOk : (step c.state (.add register (.text n.text) (.bool b))).2.result =
          .ok (.state (a.insert n b)) := by
        rw [hStep, Logged.result_pure]
      refine .write register cell a n b _ hOk rfl hCell hOld ?_ ?_ ?_
      · simp only [after, hStep]
      · simp only [after, hStep]
      · rw [histories_after_of_ok hOk]
        simp only [Step.record, hCell, addition?_text]
    · exact effect_of_refused (.argument cause) (by rw [hStep, hRefused])

theorem effect_next (c : Recount) (enumeration target : String) :
    c.Effect (.next enumeration target) (c.after (.next enumeration target)) := by
  cases hCursor : c.state.cursors.lookup enumeration with
  | none =>
    exact effect_of_refused (.unknownRegister enumeration) (by simp only [step, hCursor])
  | some cursor =>
    obtain ⟨e, k⟩ := cursor
    by_cases hk : k < e.size
    · refine effect_of_held (by simp only [step, hCursor, if_pos hk]; rfl)
        (by simp only [Step.record, hCursor, if_pos hk]; rfl) (.inl ?_)
      rw [Enumeration.get, Assignment.ofBits_eq_enter e.names.nodup]
      exact Assignment.recalls_enter _
    · -- the enumeration has come to its end
      have hSilent : (Step.next enumeration target).record c.state c.histories = c.histories := by
        simp only [Step.record, hCursor, if_neg hk]
      refine .nothing ?_ ?_ (histories_after_of_silent hSilent)
      · simp only [after, step, hCursor, if_neg hk]
        rfl
      · simp only [after, step, hCursor, if_neg hk]
        rfl

/-- A step that changes only formulas or cursors has no effect on assignments. -/
theorem effect_of_same
    (h : (step c.state x).1.store = c.state.store ∧
      (step c.state x).1.assignments = c.state.assignments)
    (hSilent : x.record c.state c.histories = c.histories) : c.Effect x (c.after x) :=
  .nothing h.1 h.2 (histories_after_of_silent hSilent)

/-- **What a step does to assignments.** -/
theorem effect_after (c : Recount) (x : Step) : c.Effect x (c.after x) := by
  cases x with
  | create register => exact effect_of_held rfl rfl (.inl fun n => rfl)
  | ofBits register names bits => exact effect_ofBits c register names bits
  | clone target source => exact effect_clone c target source
  | «alias» target source => exact effect_alias c target source
  | add register name value => exact effect_add c register name value
  | next enumeration target => exact effect_next c enumeration target
  | define register formula =>
    refine effect_of_same ?_ rfl
    simp only [step]
    split <;> exact ⟨rfl, rfl⟩
  | enumerate register formula =>
    refine effect_of_same ?_ rfl
    simp only [step]
    split <;> exact ⟨rfl, rfl⟩
  | _ => exact effect_of_same ⟨rfl, rfl⟩ rfl

-- ---------------------------------------------------------------------------
-- Sessions
-- ---------------------------------------------------------------------------

variable {c' : Recount}

/-- Every cell has a history, which its assignment recalls, and registers hold
cells that exist. -/
structure Faithful (c : Recount) : Prop where
  length_eq : c.histories.length = c.state.store.cells.length
  recalls : ∀ {cell a past}, c.state.store.get? cell = some a → c.histories[cell]? = some past →
    a.Recalls past
  held : ∀ {register cell}, c.state.assignments.lookup register = some cell →
    ∃ a, c.state.store.get? cell = some a

/-- At the start there are neither cells nor histories. -/
theorem faithful_start (threshold : Log.Level) : (start threshold).Faithful :=
  ⟨rfl, fun hCell => (nomatch hCell), fun hRegister => (nomatch hRegister)⟩

/-- Every cell has a history, and its assignment recalls it. -/
theorem Faithful.exists_history (hc : c.Faithful) {cell : Nat} {a : Assignment}
    (h : c.state.store.get? cell = some a) :
    ∃ past, c.histories[cell]? = some past ∧ a.Recalls past := by
  obtain ⟨hLt, -⟩ := List.getElem?_eq_some_iff.mp h
  obtain ⟨past, hPast⟩ : ∃ past, c.histories[cell]? = some past :=
    ⟨_, List.getElem?_eq_getElem (by rwa [hc.length_eq])⟩
  exact ⟨past, hPast, hc.recalls h hPast⟩

/-- Registers may change as long as they hold cells that exist. -/
theorem Faithful.rename (hc : c.Faithful) (hStore : c'.state.store = c.state.store)
    (hHistories : c'.histories = c.histories)
    (hHeld : ∀ {register cell}, c'.state.assignments.lookup register = some cell →
      ∃ other, c.state.assignments.lookup other = some cell) : c'.Faithful where
  length_eq := by rw [hHistories, hStore, hc.length_eq]
  recalls := by
    rw [hHistories, hStore]
    exact hc.recalls
  held := by
    intro register cell hRegister
    obtain ⟨other, hOther⟩ := hHeld hRegister
    rw [hStore]
    exact hc.held hOther

/-- A new cell comes with a history that its assignment recalls. -/
theorem Faithful.hold (hc : c.Faithful) {register : String} {a : Assignment} {past : History}
    (hStore : c'.state.store = (c.state.store.create a).1)
    (hRegisters : c'.state.assignments =
      Table.put c.state.assignments register (c.state.store.create a).2)
    (hHistories : c'.histories = c.histories ++ [past]) (hNew : a.Recalls past) :
    c'.Faithful where
  length_eq := by
    rw [hHistories, hStore]
    simp [AssignmentStore.create, hc.length_eq]
  recalls := by
    intro cell b past' hCell hPast
    rw [hStore, AssignmentStore.get?_create] at hCell
    rw [hHistories] at hPast
    split at hCell
    · rename_i hLast
      rw [hLast, ← hc.length_eq, List.getElem?_concat_length] at hPast
      injection hCell with hCell
      injection hPast with hPast
      rwa [← hCell, ← hPast]
    · obtain ⟨old, hOld, hRecalls⟩ := hc.exists_history hCell
      obtain ⟨hLt, -⟩ := List.getElem?_eq_some_iff.mp hOld
      rw [List.getElem?_append_left hLt] at hPast
      exact hc.recalls hCell hPast
  held := by
    intro r cell hRegister
    rw [hRegisters, Table.lookup_put] at hRegister
    rw [hStore, AssignmentStore.get?_create]
    split
    · exact ⟨a, rfl⟩
    · rename_i hOld
      split at hRegister
      · injection hRegister with hRegister
        exact absurd hRegister.symm hOld
      · exact hc.held hRegister

/-- An entry for an assignment is entered in the history of its cell. -/
theorem Faithful.write (hc : c.Faithful) {cell : Nat} {a : Assignment} {n : Name} {b : Bool}
    (hOld : c.state.store.get? cell = some a)
    (hStore : c'.state.store = c.state.store.replace cell (a.insert n b))
    (hRegisters : c'.state.assignments = c.state.assignments)
    (hHistories : c'.histories = c.histories.modify cell ((n, b) :: ·)) : c'.Faithful where
  length_eq := by
    rw [hHistories, hStore]
    simp [AssignmentStore.replace, hc.length_eq]
  recalls := by
    intro other a' past' hCell hPast
    rw [hStore, AssignmentStore.get?_replace hOld] at hCell
    rw [hHistories, List.getElem?_modify] at hPast
    obtain ⟨past, hBefore, rfl⟩ := Option.map_eq_some_iff.mp hPast
    split at hCell
    · rename_i hSame
      injection hCell with hCell
      rw [if_pos hSame.symm, ← hCell]
      rw [hSame] at hBefore
      exact (hc.recalls hOld hBefore).insert n b
    · rename_i hOther
      rw [if_neg (Ne.symm hOther)]
      exact hc.recalls hCell hBefore
  held := by
    intro register other hRegister
    rw [hRegisters] at hRegister
    rw [hStore, AssignmentStore.get?_replace hOld]
    split
    · exact ⟨_, rfl⟩
    · exact hc.held hRegister

/-- **One step keeps histories faithful.** -/
theorem Faithful.after (hc : c.Faithful) (x : Step) : (c.after x).Faithful := by
  rcases effect_after c x with ⟨hStore, hRegisters, hHistories⟩ |
    ⟨target, source, cell, reply, -, hCell, hStore, hRegisters, hHistories⟩ |
    ⟨register, a, past, reply, -, hStore, hRegisters, hHistories, hNew⟩ |
    ⟨register, cell, a, n, b, reply, -, -, hCell, hOld, hStore, hRegisters, hHistories⟩
  · refine hc.rename hStore hHistories fun {register cell} hRegister => ⟨register, ?_⟩
    rwa [hRegisters] at hRegister
  · refine hc.rename hStore hHistories fun {register other} hRegister => ?_
    rw [hRegisters, Table.lookup_put] at hRegister
    split at hRegister
    · injection hRegister with hRegister
      exact ⟨source, hRegister ▸ hCell⟩
    · exact ⟨register, hRegister⟩
  · refine hc.hold hStore hRegisters hHistories ?_
    rcases hNew with hNew | ⟨cell, hOld, rfl⟩
    · exact hNew
    · obtain ⟨past, hPast, hRecalls⟩ := hc.exists_history hOld
      rwa [hPast]
  · exact hc.write hOld hStore hRegisters hHistories

/-- Carries out steps one after the other. -/
def afterAll (c : Recount) (steps : List Step) : Recount :=
  steps.foldl after c

/-- Along a session histories stay faithful. -/
theorem Faithful.afterAll (hc : c.Faithful) (steps : List Step) : (c.afterAll steps).Faithful := by
  induction steps generalizing c with
  | nil => exact hc
  | cons x steps ih => exact ih (hc.after x)

/-- A session that goes on answers the next step in the state it has come to. -/
theorem run_concat (c : Recount) (steps : List Step) (x : Step) :
    run c.state (steps ++ [x]) = run c.state steps ++
      [((step (c.afterAll steps).state x).2.result,
        Log.written (c.afterAll steps).state.threshold
          (step (c.afterAll steps).state x).2.entries)] := by
  induction steps generalizing c with
  | nil => rfl
  | cons y steps ih =>
    show _ :: run (c.after y).state (steps ++ [x]) = _
    rw [ih]
    rfl

/-- A step that fails changes neither assignments nor their registers. -/
theorem unchanged_of_error {fault : Fault} (h : (step c.state x).2.result = .error fault) :
    (step c.state x).1.store = c.state.store ∧
      (step c.state x).1.assignments = c.state.assignments := by
  rcases effect_after c x with ⟨hStore, hRegisters, -⟩ | ⟨_, _, _, reply, hOk⟩ |
    ⟨_, _, _, reply, hOk⟩ | ⟨_, _, _, _, _, reply, hOk⟩
  · exact ⟨hStore, hRegisters⟩
  all_goals
    rw [h] at hOk
    cases hOk

/-- A step changes no assignment but the one that it adds an entry to. -/
theorem get?_step_of_other {cell : Nat} {a : Assignment} (h : c.state.store.get? cell = some a)
    (hOther : ∀ register name value, x = .add register name value →
      c.state.assignments.lookup register ≠ some cell) :
    (step c.state x).1.store.get? cell = some a := by
  show (c.after x).state.store.get? cell = some a
  rcases effect_after c x with ⟨hStore, -, -⟩ | ⟨_, _, _, _, -, -, hStore, -, -⟩ |
    ⟨_, _, _, _, -, hStore, -, -, -⟩ |
    ⟨register, target, _, n, b, _, -, hStep, hCell, hOld, hStore, -, -⟩
  · rwa [hStore]
  · rwa [hStore]
  · obtain ⟨hLt, -⟩ := List.getElem?_eq_some_iff.mp h
    rw [hStore, AssignmentStore.get?_create, if_neg (by omega), h]
  · rw [hStore, AssignmentStore.get?_replace hOld, if_neg ?_, h]
    rintro rfl
    exact hOther register _ _ hStep hCell

end Recount

/--
**Assignments follow their histories.** Let `s` be the state that a session has
come to by any steps, which is the state in which it answers the next one. Every
assignment has a history and tells just that: a name has the value of its
latest entry, and names and entries come in increasing order without
repetition. Registers answer for the assignments that they hold; an addition
succeeds exactly when it is given the text of a name and a truth value. A step
that fails changes neither the assignments nor which register holds which, and
no step changes an assignment other than the one that it adds an entry to.
-/
theorem assignments_follow_histories (threshold : Log.Level) (steps : List Step) :
    let c := (Recount.start threshold).afterAll steps
    let s := c.state
    (∀ x, run (.start threshold) (steps ++ [x]) = run (.start threshold) steps ++
      [((step s x).2.result, Log.written s.threshold (step s x).2.entries)]) ∧
    (c.histories.length = s.store.cells.length ∧ ∀ cell a past, s.store.get? cell = some a →
      c.histories[cell]? = some past → a.Tells past) ∧
    (∀ register cell, s.assignments.lookup register = some cell →
      ∃ a past, s.store.get? cell = some a ∧ c.histories[cell]? = some past ∧
        Serves s register a) ∧
    (∀ x fault, (step s x).2.result = .error fault →
      (step s x).1.store = s.store ∧ (step s x).1.assignments = s.assignments) ∧
    ∀ x cell a, s.store.get? cell = some a →
      (∀ register name value, x = .add register name value →
        s.assignments.lookup register ≠ some cell) →
      (step s x).1.store.get? cell = some a := by
  intro c s
  have hFaithful : c.Faithful := (Recount.faithful_start threshold).afterAll steps
  refine ⟨Recount.run_concat (.start threshold) steps, ⟨hFaithful.length_eq, ?_⟩, ?_, ?_, ?_⟩
  · intro cell a past hCell hPast
    exact (hFaithful.recalls hCell hPast).tells
  · intro register cell hRegister
    obtain ⟨a, hCell⟩ := hFaithful.held hRegister
    obtain ⟨past, hPast, -⟩ := hFaithful.exists_history hCell
    exact ⟨a, past, hCell, hPast, serves_of_held hRegister hCell⟩
  · intro x fault hFails
    exact Recount.unchanged_of_error hFails
  · intro x cell a hCell hOther
    exact Recount.get?_step_of_other hCell hOther

/-- A copy is taken after an addition that is refused and before `x` is entered
again: the copy has the first value, the original the second one. -/
theorem assignments_follow_histories_sample :
    let x : Name := ⟨"x", rfl⟩
    let steps : List Step := [.create "p", .add "p" (.text "x") (.bool true),
      .add "p" (.text "x") (.int 0), .clone "q" "p", .add "p" (.text "x") (.bool false)]
    let c := (Recount.start .info).afterAll steps
    c.histories = [[(x, false), (x, true)], [(x, true)]] ∧
      (step c.state (.valueOf "p" (.text "x"))).2.result = .ok (.flag false) ∧
      (step c.state (.valueOf "q" (.text "x"))).2.result = .ok (.flag true) := by
  intro x steps c
  have hHistories : c.histories = [[(x, false), (x, true)], [(x, true)]] := by decide +kernel
  obtain ⟨-, ⟨-, hTells⟩, hServes, -, -⟩ := assignments_follow_histories .info steps
  obtain ⟨a, past, hCell, hPast, hServesP⟩ := hServes "p" 0 (by decide +kernel)
  obtain ⟨b, copied, hCopy, hCopied, hServesQ⟩ := hServes "q" 1 (by decide +kernel)
  have hTellsP := hTells 0 a past hCell hPast
  have hTellsQ := hTells 1 b copied hCopy hCopied
  change c.histories[0]? = some past at hPast
  change c.histories[1]? = some copied at hCopied
  rw [hHistories] at hPast hCopied
  injection hPast with hPast
  injection hCopied with hCopied
  rw [← hPast] at hTellsP
  rw [← hCopied] at hTellsQ
  refine ⟨hHistories, ?_, ?_⟩
  · rw [hServesP.valueOf, hTellsP.valueOf_entered x false List.lookup_cons_self]
    rfl
  · rw [hServesQ.valueOf, hTellsQ.valueOf_entered x true List.lookup_cons_self]
    rfl

end Session

end TruthTable
