import TruthTable.Assignment.Basic

/-!
# Assignments from unchecked arguments

The operations on assignments as a caller uses them: names and values may be of any kind, and the
first unfit one decides the fault. A refused operation changes nothing.
-/

namespace TruthTable

/-- The name that a value stands for. -/
def Name.ofValue? : Value → Except Fault Name
  | .none => .error (.argument (.absent "variable name"))
  | .text s =>
    if s.isEmpty then .error (.argument .emptyName)
    else
      match Name.ofString? s with
      | some n => .ok n
      | none => .error (.argument (.malformedName (.text s)))
  | v => .error (.argument (.malformedName v))

namespace Assignment

/-- Assigns a truth value to a name. The name is checked first. -/
def add? (a : Assignment) (name value : Value) : Except Fault Assignment := do
  let n ← Name.ofValue? name
  match value with
  | .bool b => return a.insert n b
  | v => throw (.argument (.notAssignable n v.kind))

/-- Whether a name has a value. -/
def contains? (a : Assignment) (name : Value) : Except Fault Bool := do
  let n ← Name.ofValue? name
  return (a.get? n).isSome

/-- The value of a name. -/
def valueOf? (a : Assignment) (name : Value) : Except Fault Bool := do
  let n ← Name.ofValue? name
  match a.get? n with
  | some b => return b
  | none => throw (.argument (.unknownName n))

/-- Adds pairs of name and value in order. -/
def addAll? (a : Assignment) : List (Value × Value) → Except Fault Assignment
  | [] => .ok a
  | (name, value) :: rest => do
    let a ← a.add? name value
    a.addAll? rest

/-! ## Bit patterns -/

/-- The members of a value that is a sequence: the characters of a text, the items of a list, the
keys of a record. -/
def sequence? : Value → Except Fault (List Value)
  | .text s => .ok (s.toList.map fun c => .text c.toString)
  | .list items => .ok items
  | .record fields => .ok (fields.map fun (key, _) => .text key)
  | v => .error (.noLength v.kind)

/-- The bit pattern that a value stands for. -/
def bits? : Value → Except Fault Nat
  | .int (.ofNat n) => .ok n
  | v => .error (.argument (.notBits v))

/-- Adds the names in order, the first one with the lowest binary digit of `bits`. A name that the
assignment already has is refused. -/
def addBits? (a : Assignment) (bits : Nat) : List Value → Except Fault Assignment
  | [] => .ok a
  | name :: rest => do
    let n ← Name.ofValue? name
    if (a.get? n).isSome then throw (.argument (.repeatedName n))
    (a.insert n (bits % 2 == 1)).addBits? (bits / 2) rest

/-- The assignment of a bit pattern to a sequence of names. The pattern is checked before the
names. -/
def ofBits? (names bits : Value) : Except Fault Assignment := do
  if let .none := names then throw (.argument (.absent "variables"))
  let bits ← bits? bits
  let names ← sequence? names
  if Nat.pow 2 names.length ≤ bits then throw (.argument (.bitsOutOfRange bits names.length))
  empty.addBits? bits names

end Assignment

end TruthTable
