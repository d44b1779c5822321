import TruthTable.Assignment.Store
import TruthTable.Blueprint
import TruthTable.Log.Registry
import TruthTable.Table

/-!
# Sessions

A session works on named registers for assignments, formulas and enumerations. Each step gives an
answer or a fault, and may note entries. A step that fails leaves the session as it was, with one
exception: a formula is in its register before it is described, and stays there when it cannot be.
-/

namespace TruthTable

namespace Session

/-- A step of a session. -/
inductive Step where
  /-- An empty assignment. -/
  | create (register : String)
  /-- An assignment from names and a bit pattern. -/
  | ofBits (register : String) (names bits : Value)
  /-- A copy of an assignment. -/
  | clone (target source : String)
  /-- The same assignment under another name. -/
  | alias (target source : String)
  | add (register : String) (name value : Value)
  | contains (register : String) (name : Value)
  | valueOf (register : String) (name : Value)
  | names (register : String)
  | entries (register : String)
  | size (register : String)
  | render (register : String)
  | literal (register : String)
  /-- Whether two assignments are equal, and whether they are the same. -/
  | equal (first second : String)
  /-- Whether an assignment equals a plain value. -/
  | equalValue (register : String) (v : Value)
  /-- The number of different assignments. -/
  | distinct (registers : List String)
  /-- Keeps a formula. -/
  | define (register : String) (formula : Blueprint)
  | evaluate (formula : Blueprint) (register : String)
  | ask (query : Query) (formula : Blueprint)
  | equivalent (left right : Blueprint)
  /-- Whether two formulas are equal by structure. -/
  | same (left right : Blueprint)
  /-- Starts an enumeration. -/
  | enumerate (register : String) (formula : Blueprint)
  /-- Takes the next assignment of an enumeration. -/
  | next (enumeration target : String)
  /-- Sets the threshold for log entries. -/
  | configure (verbose debug : Bool)

/-- The answer to a step. -/
inductive Reply where
  | nothing
  /-- The assignment that the step left in its register. -/
  | state (a : Assignment)
  | flag (b : Bool)
  | flags (b c : Bool)
  | names (names : List Name)
  | entries (entries : List (Name × Bool))
  | number (n : Nat)
  | text (s : String)
  | description (d : Formula.Description)
  | answer (a : Answer)

/-- An enumeration and the number of its next assignment. -/
structure Cursor where
  enumeration : Enumeration
  position : Nat

/-- The registers of a session. -/
structure State where
  store : AssignmentStore
  /-- The cells of the registers for assignments. -/
  assignments : List (String × Nat)
  formulas : List (String × Argument)
  cursors : List (String × Cursor)
  /-- The threshold for log entries. -/
  threshold : Log.Level

namespace State

/-- Empty registers. -/
def start (threshold : Log.Level) : State :=
  ⟨.empty, [], [], [], threshold⟩

/-- The cell of a register. -/
def cell (s : State) (register : String) : Except Fault Nat :=
  match s.assignments.lookup register with
  | some cell => .ok cell
  | none => .error (.unknownRegister register)

/-- The assignment in a register. -/
def assignment (s : State) (register : String) : Except Fault Assignment := do
  let cell ← s.cell register
  match s.store.get? cell with
  | some a => return a
  | none => throw (.unknownRegister register)

/-- Puts an assignment into a new cell and the cell into a register. -/
def hold (s : State) (register : String) (a : Assignment) : State :=
  let (store, cell) := s.store.create a
  { s with store, assignments := Table.put s.assignments register cell }

/-- Builds a formula from a blueprint, which may use the registers for formulas. -/
def build (s : State) (b : Blueprint) : Logged Argument :=
  b.build fun name => s.formulas.lookup name

end State

/-- The number of different members of a list. -/
def countDistinct : List Assignment → Nat
  | [] => 0
  | a :: rest => (if rest.contains a then 0 else 1) + countDistinct rest

/-- A step that only looks at the session. -/
def look (s : State) (x : Except Fault Reply) : State × Logged Reply :=
  (s, Logged.lift x)

/-- Carries out one step. -/
def step (s : State) : Step → State × Logged Reply
  | .create register => (s.hold register .empty, pure (.state .empty))
  | .ofBits register names bits =>
    match Assignment.ofBits? names bits with
    | .ok a => (s.hold register a, pure (.state a))
    | .error fault => look s (.error fault)
  | .clone target source =>
    match s.assignment source with
    | .ok a => (s.hold target a, pure (.state a))
    | .error fault => look s (.error fault)
  | .alias target source =>
    match s.cell source, s.assignment source with
    | .ok cell, .ok a =>
      ({ s with assignments := Table.put s.assignments target cell }, pure (.state a))
    | .error fault, _ => look s (.error fault)
    | _, .error fault => look s (.error fault)
  | .add register name value =>
    let changed : Except Fault (Nat × Assignment) := do
      let cell ← s.cell register
      let a ← s.assignment register
      let a ← a.add? name value
      return (cell, a)
    match changed with
    | .ok (cell, a) => ({ s with store := s.store.replace cell a }, pure (.state a))
    | .error fault => look s (.error fault)
  | .contains register name => look s do
    let a ← s.assignment register
    return .flag (← a.contains? name)
  | .valueOf register name => look s do
    let a ← s.assignment register
    return .flag (← a.valueOf? name)
  | .names register => look s do
    let a ← s.assignment register
    return .names a.names
  | .entries register => look s do
    let a ← s.assignment register
    return .entries a.entries
  | .size register => look s do
    let a ← s.assignment register
    return .number a.size
  | .render register => look s do
    let a ← s.assignment register
    return .text a.render
  | .literal register => look s do
    let a ← s.assignment register
    return .text a.literal
  | .equal first second => look s do
    let a ← s.assignment first
    let b ← s.assignment second
    let i ← s.cell first
    let j ← s.cell second
    return .flags (a == b) (i == j)
  | .equalValue register _ => look s do
    discard (s.assignment register)
    return .flag false
  | .distinct registers => look s do
    let found ← registers.mapM s.assignment
    return .number (countDistinct found)
  | .define register formula =>
    let built := s.build formula
    match built.result with
    | .error fault => (s, ⟨built.entries, .error fault⟩)
    | .ok x =>
      ({ s with formulas := Table.put s.formulas register x }, do
        let x ← built
        let d ← Logged.lift x.describe
        return .description d)
  | .evaluate formula register =>
    (s, do
      let x ← s.build formula
      let f ← Logged.lift (x.owner "evaluate")
      let a ← Logged.lift (s.assignment register)
      let b ← Logged.lift (f.eval a)
      return .flag b)
  | .ask query formula =>
    (s, do
      let x ← s.build formula
      let answer ← query.answer x
      return .answer answer)
  | .equivalent left right =>
    (s, do
      let x ← s.build left
      let y ← s.build right
      let b ← TruthTable.equivalent x y
      return .flag b)
  | .same left right =>
    (s, do
      let x ← s.build left
      let y ← s.build right
      return .flag (x.equal y))
  | .enumerate register formula =>
    let started : Logged Enumeration := do
      let x ← s.build formula
      TruthTable.enumerate x
    match started.result with
    | .error fault => (s, ⟨started.entries, .error fault⟩)
    | .ok e =>
      ({ s with cursors := Table.put s.cursors register ⟨e, 0⟩ },
        ⟨started.entries, .ok .nothing⟩)
  | .next enumeration target =>
    match s.cursors.lookup enumeration with
    | none => look s (.error (.unknownRegister enumeration))
    | some ⟨e, position⟩ =>
      if position < e.size then
        let a := e.get position
        let s := s.hold target a
        ({ s with cursors := Table.put s.cursors enumeration ⟨e, position + 1⟩ }, pure (.state a))
      else look s (.ok .nothing)
  | .configure verbose debug =>
    ({ s with threshold := Log.Registry.flagLevel verbose debug }, pure .nothing)

/-- The answers to steps, each with what was written under the threshold of the time. -/
def run (s : State) : List Step → List (Except Fault Reply × String)
  | [] => []
  | x :: rest =>
    let (next, logged) := step s x
    (logged.result, Log.written s.threshold logged.entries) :: run next rest

end Session

end TruthTable
