import TruthTable.Name.Set

/-!
# Formulas of propositional logic

Formulas are built from constants, variables, negation, conjunction and disjunction. Implication,
equivalence and exclusive disjunction are defined connectives: they are expanded when a formula is
built, so no operation on formulas needs a case for them.

A `hole` is a leaf without content. It has no variables, and whatever needs a content (a value, a
text, a drawing) fails on it. A formula without holes is `Complete`.
-/

namespace TruthTable

/-- The two primitive connectives of two operands. -/
inductive Operator where
  | and
  | or
  deriving DecidableEq

/-- The word for the connective in formula text and in drawings. -/
def Operator.word : Operator → String
  | .and => "and"
  | .or => "or"

/-- A formula of propositional logic. -/
inductive Formula where
  | hole
  | constant (value : Bool)
  | var (name : Name)
  | not (operand : Formula)
  | binary (op : Operator) (left right : Formula)
  deriving DecidableEq

namespace Formula

/-- The number of nodes, counting a shared part once per occurrence. -/
def size : Formula → Nat
  | .hole => 1
  | .constant _ => 1
  | .var _ => 1
  | .not a => a.size + 1
  | .binary _ l r => l.size + r.size + 1

/-- Free of holes. -/
def Complete : Formula → Prop
  | .hole => False
  | .constant _ => True
  | .var _ => True
  | .not a => a.Complete
  | .binary _ l r => l.Complete ∧ r.Complete

/-- The word for what stands at the root. -/
def kind : Formula → String
  | .hole => "Expr"
  | .constant _ => "Constant"
  | .var _ => "Variable"
  | .not _ => "Not"
  | .binary .. => "Binary"

/-! ## Connectives -/

/-- Conjunction. -/
def and (l r : Formula) : Formula := .binary .and l r

/-- Disjunction. -/
def or (l r : Formula) : Formula := .binary .or l r

/-- Material implication: the antecedent fails or the consequent holds. -/
def implies (l r : Formula) : Formula := or (.not l) r

/-- Equivalence: implication both ways. -/
def iff (l r : Formula) : Formula := and (implies l r) (implies r l)

/-- Exclusive disjunction: one side holds and the other fails. -/
def xor (l r : Formula) : Formula := or (and l (.not r)) (and (.not l) r)

/-! ## Variables -/

/-- The number of nodes of the formulas on a stack. -/
def stackSize : List Formula → Nat
  | [] => 0
  | f :: stack => f.size + stackSize stack

/-- Adds the names at the leaves of the formulas on a stack to those found. The operands of a
formula take its place, the right one on top. -/
def collect (found : NameSet) : List Formula → NameSet
  | [] => found
  | .hole :: stack => collect found stack
  | .constant _ :: stack => collect found stack
  | .var n :: stack => collect (found.insert n) stack
  | .not a :: stack => collect found (a :: stack)
  | .binary _ l r :: stack => collect found (r :: l :: stack)
termination_by stack => stackSize stack
decreasing_by all_goals simp only [stackSize, size]; omega

/-- The set of names that occur, collected on an explicit stack. -/
def names (f : Formula) : NameSet :=
  collect .empty [f]

end Formula

/-! ## The connectives of formula text -/

/-- A connective of two operands, primitive or defined. -/
inductive Connective where
  | and
  | or
  | xor
  | implies
  | iff
  deriving DecidableEq

/-- The formula that a connective makes of its two operands. -/
def Connective.apply : Connective → Formula → Formula → Formula
  | .and => Formula.and
  | .or => Formula.or
  | .xor => Formula.xor
  | .implies => Formula.implies
  | .iff => Formula.iff

end TruthTable
