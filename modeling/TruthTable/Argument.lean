import TruthTable.Fault

/-!
# Building formulas from unchecked arguments

The parts of a formula as a caller supplies them: a formula, or any other value. The functions of
this module check the parts, from left to right, and build the formula; the first part that is
missing or unfit decides the fault.
-/

namespace TruthTable

/-- A part of a formula as a caller supplies it. -/
inductive Argument where
  | formula (f : Formula)
  | value (v : Value)

namespace Argument

/-- The formula that stands in the named role. -/
def operand (role : String) : Argument → Except Fault Formula
  | .formula f => .ok f
  | .value .none => .error (.argument (.absent role))
  | .value v => .error (.argument (.notFormula role v.kind))

/-- The formula that a question is about. -/
def subject : Argument → Except Fault Formula
  | .formula f => .ok f
  | .value .none => .error (.argument (.absent "expression"))
  | .value v => .error (.argument (.notSubject v.kind))

/-- The formula of which the named member is used. -/
def owner (member : String) : Argument → Except Fault Formula
  | .formula f => .ok f
  | .value v => .error (.noMember v.kind member)

/-- Equality: formulas by structure, values by `Value.equal`, and no formula equals a value. -/
def equal : Argument → Argument → Bool
  | .formula f, .formula g => decide (f = g)
  | .value v, .value w => v.equal w
  | _, _ => false

/-- Keeps the first of equal arguments. -/
def distinctAmong (kept : List Argument) : List Argument → List Argument
  | [] => kept.reverse
  | x :: rest =>
    if kept.any (equal · x) then distinctAmong kept rest else distinctAmong (x :: kept) rest

/-- The set of the arguments, as a list without repetitions. Values that can change are refused. -/
def toSet (xs : List Argument) : Except Fault (List Argument) := do
  for x in xs do
    match x with
    | .value v => if v.hashable then pure () else throw (.unhashable v.kind)
    | .formula _ => pure ()
  return distinctAmong [] xs

end Argument

/-! ## Checked construction -/

/-- A constant. -/
def Formula.constant? : Value → Except Fault Formula
  | .bool b => .ok (.constant b)
  | v => .error (.argument (.notTruthValue v.kind))

/-- A variable. -/
def Formula.var? : Value → Except Fault Formula
  | .none => .error (.argument (.absent "variable name"))
  | .text s =>
    if s.isEmpty then .error (.argument .emptyName)
    else
      match Name.ofString? s with
      | some n => .ok (.var n)
      | none => .error (.argument (.malformedVariable (.text s)))
  | v => .error (.argument (.malformedVariable v))

/-- A negation, the operand standing in the given role. -/
def Formula.not? (role : String) (x : Argument) : Except Fault Formula := do
  let f ← x.operand role
  return .not f

/-- The roles of the two operands of a connective. -/
def Connective.roles : Connective → String × String
  | .implies => ("antecedent", "consequent")
  | _ => ("left", "right")

/-- A formula built with a connective. -/
def Connective.connect? (c : Connective) (x y : Argument) : Except Fault Formula := do
  let l ← x.operand c.roles.1
  let r ← y.operand c.roles.2
  return c.apply l r

/-- A binary node. The operator is checked before the operands. -/
def Formula.binary? (op : Operator ⊕ Value) (x y : Argument) : Except Fault Formula := do
  match op with
  | .inl op =>
    let l ← x.operand "left operand"
    let r ← y.operand "right operand"
    return .binary op l r
  | .inr v => throw (.argument (.unsupportedOperator v))

/-- Whether a value is the name of a variable. -/
def Value.isName : Value → Bool
  | .text s => TruthTable.isName s
  | _ => false

end TruthTable
