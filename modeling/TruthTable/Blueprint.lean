import TruthTable.Query

/-!
# Blueprints of formulas

A blueprint tells how a formula is put together from unchecked parts: read from text, built by the
connectives, taken from a register, or a plain value where a formula is expected. `Blueprint.build`
carries it out; parts are built from left to right before the whole is checked.
-/

namespace TruthTable

/-- The side on which a chain takes up its next link. -/
inductive Side where
  | left
  | right

/-- How a formula is put together. -/
inductive Blueprint where
  /-- Read from text. -/
  | text (source : String)
  | constant (v : Value)
  | var (v : Value)
  | hole
  /-- A value that is not a formula. -/
  | value (v : Value)
  | register (name : String)
  /-- `count` negations, the operand of each standing in the given role. -/
  | negations (role : String) (count : Nat) (part : Blueprint)
  | connect (c : Connective) (left right : Blueprint)
  | binary (op : Operator ⊕ Value) (left right : Blueprint)
  /-- A chain of `count` connectives that starts with one part and takes up the links in turn, again
  from the first one after the last. `side` is the side on which the chain so far stands. -/
  | chain (c : Connective) (count : Nat) (side : Side) (first : Blueprint) (links : List Blueprint)

namespace Blueprint

/-- `count` negations of a part. -/
def negate (role : String) : Nat → Argument → Except Fault Argument
  | 0, x => .ok x
  | count + 1, x => do
    let f ← Formula.not? role x
    negate role count (.formula f)

/-- `count` connectives, taking up `links` in turn and, when they run out, `all` of them again. -/
def link (c : Connective) (side : Side) (all : List Argument) :
    Nat → List Argument → Argument → Except Fault Argument
  | 0, _, x => .ok x
  | count + 1, links, x => do
    match links, all with
    | y :: rest, _ =>
      let f ← match side with
        | .left => c.connect? x y
        | .right => c.connect? y x
      link c side all count rest (.formula f)
    | [], y :: rest =>
      let f ← match side with
        | .left => c.connect? x y
        | .right => c.connect? y x
      link c side all count rest (.formula f)
    | [], [] => .ok x

mutual

/-- Builds what the blueprint tells; `registers` holds what was built earlier. -/
def build (registers : String → Option Argument) : Blueprint → Logged Argument
  | .text source => do
    let f ← readFormula (.text source)
    return .formula f
  | .constant v => do
    let f ← Logged.lift (Formula.constant? v)
    return .formula f
  | .var v => do
    let f ← Logged.lift (Formula.var? v)
    return .formula f
  | .hole => pure (.formula .hole)
  | .value v => pure (.value v)
  | .register name =>
    match registers name with
    | some x => pure x
    | none => Logged.lift (.error (.unknownRegister name))
  | .negations role count part => do
    let x ← build registers part
    Logged.lift (negate role count x)
  | .connect c left right => do
    let x ← build registers left
    let y ← build registers right
    let f ← Logged.lift (c.connect? x y)
    return .formula f
  | .binary op left right => do
    let x ← build registers left
    let y ← build registers right
    let f ← Logged.lift (Formula.binary? op x y)
    return .formula f
  | .chain c count side first links => do
    let x ← build registers first
    let all ← buildAll registers links
    Logged.lift (link c side all count all x)

/-- Builds all parts in order. -/
def buildAll (registers : String → Option Argument) : List Blueprint → Logged (List Argument)
  | [] => pure []
  | b :: rest => do
    let x ← build registers b
    let xs ← buildAll registers rest
    return x :: xs

end

end Blueprint

end TruthTable
