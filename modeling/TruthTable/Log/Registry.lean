import TruthTable.Log.Basic
import TruthTable.Table

/-!
# Named loggers

A logger is known by its name. It has a level, and handlers that have levels of their own: an entry
is written once by every handler that it reaches, if its level reaches both. A logger may also pass
its entries on to the loggers above it.

Nobody uses a logger directly. Who wants to log makes a *scribe* for it, and the scribes of one
logger share it: making another one sets the logger up anew, with a single handler, and setting the
level through one of them sets it for all. One scribe is shared by the whole program: it is made
when it is first asked for, for the name it is asked for by, and stays the same whatever names are
used later.
-/

namespace TruthTable.Log

/-! ## Loggers -/

/-- Where entries are written, if they reach a level. -/
structure Handler where
  level : Level

/-- What a name stands for. -/
structure Logger where
  level : Level
  handlers : List Handler
  /-- Entries also go to the handlers of the loggers above. -/
  passesOn : Bool

namespace Logger

/-- A logger that nobody has set up: it writes nothing itself. -/
def bare (level : Level) : Logger :=
  ⟨level, [], true⟩

/-- Sets the logger up anew: its handlers are removed, one with the given level is attached, and
entries are no longer passed on. -/
def setUp (l : Logger) (level : Level) : Logger :=
  let cleared := { l with level, handlers := [] }
  { cleared with handlers := cleared.handlers ++ [⟨level⟩], passesOn := false }

/-- Sets the level of the logger and of all its handlers. -/
def setLevel (l : Logger) (level : Level) : Logger :=
  { l with level, handlers := l.handlers.map fun h => { h with level } }

/-- One handler, which has the level of the logger, and nothing is passed on. -/
structure Single (l : Logger) : Prop where
  handlers : l.handlers = [⟨l.level⟩]
  passesOn : l.passesOn = false

theorem single_setUp (l : Logger) (level : Level) : (l.setUp level).Single :=
  ⟨rfl, rfl⟩

theorem Single.setLevel {l : Logger} (h : l.Single) (level : Level) : (l.setLevel level).Single :=
  ⟨by simp [Logger.setLevel, h.handlers], h.passesOn⟩

end Logger

/-! ## The registry -/

/-- The name of the shared logger where no other is asked for. -/
def Registry.standardName : String := "proposat"

/-- The logger above all others. -/
def Registry.rootName : String := "root"

/-- The loggers under their names, and the scribes, which are known by their numbers. -/
structure Registry where
  loggers : List (String × Logger)
  /-- The names of the loggers that the scribes were made for. -/
  scribes : List String
  /-- The scribe that the whole program shares. -/
  shared : Option Nat
  /-- Every logger was set up by a scribe. -/
  single : ∀ entry ∈ loggers, entry.2.Single
  /-- Every scribe has a logger. -/
  known : ∀ name ∈ scribes, (loggers.lookup name).isSome = true
  sharedMade : ∀ scribe ∈ shared, scribe < scribes.length

namespace Registry

/-- No scribe was made yet. -/
def empty : Registry where
  loggers := []
  scribes := []
  shared := none
  single := by simp
  known := by simp
  sharedMade := by simp

/-- The empty name stands for the logger above all others. -/
def properName (name : String) : String :=
  if name.isEmpty then rootName else name

/-- The name of the logger that a scribe was made for. -/
def nameOf? (r : Registry) (scribe : Nat) : Option String :=
  r.scribes[scribe]?

/-- The level of a logger, if it was set up. -/
def level? (r : Registry) (name : String) : Option Level :=
  (r.loggers.lookup name).map (·.level)

/-! ### Making scribes and setting levels -/

/-- Makes a scribe for a logger and sets the logger up. -/
def create (r : Registry) (name : String) (level : Level) : Registry × Nat :=
  let name := properName name
  let logger := ((r.loggers.lookup name).getD (.bare level)).setUp level
  ({ r with
      loggers := Table.put r.loggers name logger
      scribes := r.scribes ++ [name]
      single := Table.forall_mem_put name (Logger.single_setUp _ level) r.single
      known := by
        intro n hn
        refine Table.isSome_lookup_put name logger ?_
        rcases List.mem_append.mp hn with hn | hn
        · exact .inr (r.known n hn)
        · exact .inl (List.mem_singleton.mp hn)
      sharedMade := by
        intro scribe hScribe
        have := r.sharedMade scribe hScribe
        simp only [List.length_append, List.length_singleton]
        omega },
    r.scribes.length)

/-- Sets the level of the logger of a scribe. -/
def setLevel (r : Registry) (scribe : Nat) (level : Level) : Registry :=
  match r.nameOf? scribe with
  | none => r
  | some name =>
    { r with
      loggers := Table.adjust r.loggers name (·.setLevel level)
      single := Table.forall_mem_adjust name (fun _ h => h.setLevel level) r.single
      known := fun n hn => Table.isSome_lookup_adjust name _ (r.known n hn) }

/-- The shared scribe, made with the level `info` if there is none yet. -/
def getShared (r : Registry) (name : String) : Registry × Nat :=
  match r.shared with
  | some scribe => (r, scribe)
  | none =>
    ({ (r.create name .info).1 with
        shared := some r.scribes.length
        sharedMade := by simp [create] },
      r.scribes.length)

/-- Sets the level of the shared logger. -/
def setSharedLevel (r : Registry) (level : Level) : Registry :=
  let (r, shared) := r.getShared standardName
  r.setLevel shared level

/-- The level that the command line flags ask for: `--debug` comes before `--verbose`. -/
def flagLevel (verbose debug : Bool) : Level :=
  if debug then .debug else if verbose then .info else .warning

/-- Sets the level of the shared logger after the command line flags. -/
def configure (r : Registry) (verbose debug : Bool) : Registry :=
  r.setSharedLevel (flagLevel verbose debug)

/-! ### Logging -/

/-- The names of a logger and of the loggers above it, from the nearest on: a name is cut at its
full stops. -/
def lineage (name : String) : List String :=
  if name = rootName then [rootName]
  else
    let parts := name.splitOn "."
    let above := (List.range parts.length).reverse.map fun k => ".".intercalate (parts.take k)
    name :: above.filter (fun n => n != "" && n != rootName) ++ [rootName]

/-- The handlers that an entry reaches among the loggers of a lineage: those of the first logger,
and those of the next ones as long as it is passed on. -/
def reached (r : Registry) : List String → List Handler
  | [] => []
  | name :: above =>
    match r.loggers.lookup name with
    | none => r.reached above
    | some l => l.handlers ++ if l.passesOn then r.reached above else []

/-- The lines that are written when an entry is logged: one for each handler that it reaches and
passes, if it passes the logger. -/
def lines (r : Registry) (scribe : Nat) (e : Entry) : List String :=
  match r.nameOf? scribe with
  | none => []
  | some name =>
    match r.level? name with
    | none => []
    | some level =>
      if e.passes level then
        ((r.reached (lineage name)).filter fun h => e.passes h.level).map fun _ => e.line
      else []

/-- What is written when an entry is logged. -/
def log (r : Registry) (scribe : Nat) (e : Entry) : String :=
  String.join (r.lines scribe e)

end Registry

/-! ## Operating loggers step by step -/

/-- What can be done with scribes. -/
inductive Operation where
  /-- Makes a scribe. -/
  | create (name : String) (level : Level)
  /-- Asks for the shared scribe. -/
  | get (name : String)
  | setLevel (scribe : Nat) (level : Level)
  | setSharedLevel (level : Level)
  | configure (verbose debug : Bool)
  | log (scribe : Nat) (e : Entry)

/-- Carries out an operation: the registry afterwards, and the lines that are written. -/
def Registry.perform (r : Registry) : Operation → Registry × List String
  | .create name level => ((r.create name level).1, [])
  | .get name => ((r.getShared name).1, [])
  | .setLevel scribe level => (r.setLevel scribe level, [])
  | .setSharedLevel level => (r.setSharedLevel level, [])
  | .configure verbose debug => (r.configure verbose debug, [])
  | .log scribe e => (r, r.lines scribe e)

/-- An operation on the registry or on the current scribe. -/
inductive Step where
  | configure (verbose debug : Bool)
  | setSharedLevel (level : Level)
  | setLevel (level : Level)
  | log (e : Entry)
  /-- Notes the start of an enumeration. -/
  | enumerationStart (names : String) (count : Int)
  /-- Notes the status of a formula. -/
  | classificationResult (formula verdict : String)
  /-- Notes the start of an analysis. -/
  | analysisStart (formula : String)
  /-- Asks for name and level of the current logger. -/
  | state
  /-- Makes the shared scribe the current one. -/
  | get (name : String)
  /-- Makes a scribe, which becomes the current one. -/
  | create (name : String) (level : Level)
  /-- Lays out a message of any level number. -/
  | layout (number : Int) (message : String)

/-- The answer to an operation. -/
inductive Reply where
  | done
  | state (name : String) (level : Option Level)
  | shared
  | text (s : String)

/-- The registry and the current scribe. -/
structure Console where
  registry : Registry
  current : Nat

namespace Console

/-- The shared scribe is the current one and its logger has the given level. -/
def start (level : Level) : Console :=
  let (r, shared) := Registry.empty.getShared Registry.standardName
  ⟨r.setLevel shared level, shared⟩

/-- Carries out an operation on the registry. -/
def perform (c : Console) (op : Operation) : Console × Reply × String :=
  let (registry, lines) := c.registry.perform op
  ({ c with registry }, .done, String.join lines)

/-- The current scribe logs a message. -/
def write (c : Console) (level : Level) (message : String) : Console × Reply × String :=
  c.perform (.log c.current ⟨level, message⟩)

/-- Carries out one operation: the answer, and what is written. -/
def step (c : Console) : Step → Console × Reply × String
  | .configure verbose debug => c.perform (.configure verbose debug)
  | .setSharedLevel level => c.perform (.setSharedLevel level)
  | .setLevel level => c.perform (.setLevel c.current level)
  | .log e => c.write e.level e.message
  | .enumerationStart names count =>
    c.write .debug
      ("Enumerating " ++ toString count ++ " interpretation(s) over [" ++ names ++ "]")
  | .classificationResult formula verdict =>
    c.write .debug (formula ++ " classified as " ++ verdict)
  | .analysisStart formula => c.write .info ("=== Analysing: " ++ formula ++ " ===")
  | .state =>
    let name := (c.registry.nameOf? c.current).getD Registry.rootName
    (c, .state name (c.registry.level? name), "")
  | .get name =>
    let (registry, shared) := c.registry.getShared name
    (⟨registry, shared⟩, .shared, "")
  | .create name level =>
    let (registry, scribe) := c.registry.create name level
    (⟨registry, scribe⟩, .done, "")
  | .layout number message => (c, .text (Log.layout number message), "")

/-- Carries out operations in order. -/
def run (c : Console) : List Step → List (Reply × String)
  | [] => []
  | s :: rest =>
    let (c, reply, out) := c.step s
    (reply, out) :: c.run rest

end Console

end TruthTable.Log
