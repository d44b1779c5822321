import TruthTable.Fault
import TruthTable.Formula.Fold

/-!
# The texts of a formula

* `Formula.render`: the formula in words. Only negations are bracketed, so the text shows the
  leaves and connectives in order but not the grouping of conjunctions and disjunctions.
* `Formula.postfixText`: operands before operators; this text determines the formula.
* `Formula.literal`: the nested constructors.
* `Formula.preorder`: the nodes, each before its operands, up to the first hole.
-/

namespace TruthTable

namespace Formula

/-- One node of the text in words. -/
def renderStep : Layer String → Except Fault String
  | .hole => .error .hole
  | .constant b => .ok (Value.ofBool b)
  | .var n => .ok n.text
  | .not a => .ok ("(not " ++ a ++ ")")
  | .binary op l r => .ok (l ++ " " ++ op.word ++ " " ++ r)

/-- The formula in words. -/
def render (f : Formula) : Except Fault String :=
  f.fold renderStep

/-- One node of the text in postfix order. -/
def postfixStep : Layer String → Except Fault String
  | .hole => .error .hole
  | .constant b => .ok (if b then "1" else "0")
  | .var n => .ok n.text
  | .not a => .ok (a ++ " !")
  | .binary op l r => .ok (l ++ " " ++ r ++ (match op with | .and => " &" | .or => " |"))

/-- The formula in postfix order. -/
def postfixText (f : Formula) : Except Fault String :=
  f.fold postfixStep

/-- The primitive connective as nested constructors show it. -/
def operatorLiteral : Operator → String
  | .and => "<BinaryOperator.AND: 'and'>"
  | .or => "<BinaryOperator.OR: 'or'>"

/-- The formula as nested constructors. -/
def literal : Formula → String
  | .hole => "Expr()"
  | .constant b => "Constant(value=" ++ Value.ofBool b ++ ")"
  | .var n => "Variable(name=" ++ Text.quoted n.text ++ ")"
  | .not a => "Not(operand=" ++ a.literal ++ ")"
  | .binary op l r =>
    "Binary(operator=" ++ operatorLiteral op ++ ", left=" ++ l.literal ++ ", right=" ++ r.literal ++
      ")"

/-! ## Nodes in preorder -/

/-- A node as a visitor sees it. -/
inductive Sight where
  | constant (value : Bool)
  | var (name : Name)
  | not
  | binary (op : Operator)

/-- The nodes seen, each before its operands and the left operand before the right one, and whether
a hole ended the visit. -/
def preorder : Formula → List Sight × Bool
  | .hole => ([], true)
  | .constant b => ([.constant b], false)
  | .var n => ([.var n], false)
  | .not a =>
    let (seen, stopped) := a.preorder
    (.not :: seen, stopped)
  | .binary op l r =>
    let (seen, stopped) := l.preorder
    if stopped then (.binary op :: seen, true)
    else
      let (seen', stopped') := r.preorder
      (.binary op :: (seen ++ seen'), stopped')

/-! ## Descriptions -/

/-- A formula at a glance. -/
structure Description where
  kind : String
  text : String
  postfixText : String
  names : List String

/-- Describes a formula; a hole in it is a fault. -/
def describe (f : Formula) : Except Fault Description := do
  let text ← f.render
  let inPostfix ← f.postfixText
  return ⟨f.kind, text, inPostfix, f.names.texts⟩

end Formula

end TruthTable
