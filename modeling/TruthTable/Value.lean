import TruthTable.Decimal.Shortest
import TruthTable.Text.Quoted

/-!
# Values supplied by a caller

The public operations accept any value where a formula, a name or a truth value is expected, and
refuse the wrong ones with a message that names the value's kind or shows the value. `Value` is the
type of such arguments.

* `Value.kind`: the word for the kind of a value.
* `Value.literal`, `Value.plain`: the value as it is shown in a message.
* `Value.equal`: equality of values, under which truth values and numbers of both kinds compare by
  size.
-/

namespace TruthTable

/-- An argument as a caller supplies it. -/
inductive Value where
  | none
  | bool (b : Bool)
  | int (n : Int)
  | real (x : Float)
  | text (s : String)
  | list (items : List Value)
  | record (fields : List (String × Value))
  deriving Inhabited

namespace Value

/-- The word that messages use for the kind of a value. -/
def kind : Value → String
  | .none => "NoneType"
  | .bool _ => "bool"
  | .int _ => "int"
  | .real _ => "float"
  | .text _ => "str"
  | .list _ => "list"
  | .record _ => "dict"

/-- The word that output uses for a truth value. -/
def ofBool (b : Bool) : String :=
  if b then "True" else "False"

mutual

/-- The value as messages show it. -/
def literal : Value → String
  | .none => "None"
  | .bool b => ofBool b
  | .int n => toString n
  | .real x => Decimal.ofFloat x
  | .text s => Text.quoted s
  | .list items => "[" ++ ", ".intercalate (literals items) ++ "]"
  | .record fields => "\x7b" ++ ", ".intercalate (fieldLiterals fields) ++ "\x7d"

/-- The values of a list, each as messages show it. -/
def literals : List Value → List String
  | [] => []
  | v :: rest => literal v :: literals rest

/-- The fields of a record, each as messages show it. -/
def fieldLiterals : List (String × Value) → List String
  | [] => []
  | (key, v) :: rest => (Text.quoted key ++ ": " ++ literal v) :: fieldLiterals rest

end

/-- The value as running text shows it: a text is shown without quotes. -/
def plain : Value → String
  | .text s => s
  | v => v.literal

/-! ## Equality -/

/-- A truth value or finite number as `mantissa · 2 ^ exponent`. -/
def dyadic? : Value → Option (Int × Int)
  | .bool b => some (if b then 1 else 0, 0)
  | .int n => some (n, 0)
  | .real x =>
    match Decimal.Binary.ofFloat x with
    | .finite negative m q _ => some (if negative then -(m : Int) else m, q)
    | _ => Option.none
  | _ => Option.none

/-- Equality of two numbers `a · 2 ^ p` and `b · 2 ^ q`. -/
def sameDyadic : Int × Int → Int × Int → Bool
  | (a, p), (b, q) => a * Int.pow 2 (p - q).toNat == b * Int.pow 2 (q - p).toNat

mutual

/-- Equality of values. Truth values count as the numbers 0 and 1, and an integer equals a real
number of the same size; records are equal when they hold the same fields in any order. -/
def equal : Value → Value → Bool
  | .none, .none => true
  | .text s, .text t => s == t
  | .list vs, .list ws => equalLists vs ws
  | .record fs, .record gs => fs.length == gs.length && fieldsWithin fs gs
  | .real x, .real y => x == y
  | v, w =>
    match dyadic? v, dyadic? w with
    | some x, some y => sameDyadic x y
    | _, _ => false

/-- Equality of lists, item by item. -/
def equalLists : List Value → List Value → Bool
  | [], [] => true
  | v :: vs, w :: ws => equal v w && equalLists vs ws
  | _, _ => false

/-- Every field of the first record is in the second, with an equal value. -/
def fieldsWithin : List (String × Value) → List (String × Value) → Bool
  | [], _ => true
  | (key, v) :: rest, gs =>
    (match gs.lookup key with
      | some w => equal v w
      | Option.none => false) && fieldsWithin rest gs

end

/-- Lists and records can change, so they cannot be members of a set. -/
def hashable : Value → Bool
  | .list _ => false
  | .record _ => false
  | _ => true

end Value

end TruthTable
