import TruthTable.Argument
import TruthTable.Formula.Text
import TruthTable.Proofs.Names

/-!
# Leaves, names and text of a formula

The operations on formulas run on an explicit stack. The equations here say
what they do by the shape of the formula, and later proofs use nothing else of
them.

Main results:

* `mem_names`       — the set of names holds the names at the leaves.
* `var?_eq_ok_iff`  — a variable is made of the texts of names and of nothing
  else.
* `render_complete` — every formula without holes has a text, and the text is
  `Formula.text`.
-/

namespace TruthTable

namespace Formula

-- ---------------------------------------------------------------------------
-- Leaves
-- ---------------------------------------------------------------------------

/-- The names at the leaves, from left to right and with repetitions. -/
def leaves : Formula → List Name
  | .hole => []
  | .constant _ => []
  | .var n => [n]
  | .not a => a.leaves
  | .binary _ l r => l.leaves ++ r.leaves

@[simp]
theorem leaves_hole : leaves .hole = [] := rfl

@[simp]
theorem leaves_constant (b : Bool) : leaves (.constant b) = [] := rfl

@[simp]
theorem leaves_var (n : Name) : leaves (.var n) = [n] := rfl

@[simp]
theorem leaves_not (a : Formula) : leaves (.not a) = a.leaves := rfl

@[simp]
theorem leaves_binary (op : Operator) (l r : Formula) :
    leaves (.binary op l r) = l.leaves ++ r.leaves := rfl

/-- The loop finds the names at the leaves of all formulas on its stack. -/
theorem mem_collect {found : NameSet} {stack : List Formula} {n : Name} :
    n ∈ (collect found stack).toList ↔ n ∈ found.toList ∨ ∃ f ∈ stack, n ∈ f.leaves := by
  fun_induction collect found stack with
  | case1 found => simp
  | case2 found stack ih => simp [ih]
  | case3 found b stack ih => simp [ih]
  | case4 found m stack ih => simp [ih, NameSet.mem_insert, or_left_comm, or_assoc]
  | case5 found a stack ih => simp [ih]
  | case6 found op l r stack ih => simp [ih, or_left_comm, or_assoc]

/-- The set of names holds exactly the names at the leaves. -/
theorem mem_names {f : Formula} {n : Name} : n ∈ f.names.toList ↔ n ∈ f.leaves := by
  rw [names, mem_collect]
  simp [NameSet.empty]

-- ---------------------------------------------------------------------------
-- Variables
-- ---------------------------------------------------------------------------

/-- A variable is made of the text of a name, and has that name. -/
theorem var?_eq_ok_iff {s : String} {f : Formula} :
    var? (.text s) = .ok f ↔ ∃ n : Name, s = n.text ∧ f = .var n := by
  constructor
  · intro h
    simp only [var?] at h
    split at h
    · cases h
    · split at h
      · rename_i n hName
        injection h with h
        exact ⟨n, Name.eq_text_of_ofString? hName, h.symm⟩
      · cases h
  · rintro ⟨n, rfl, rfl⟩
    simp [var?, n.isEmpty_text, n.ofString?_text]

-- ---------------------------------------------------------------------------
-- Text
-- ---------------------------------------------------------------------------

/-- The formula in words, by its shape. -/
def text : Formula → String
  | .hole => ""
  | .constant b => Value.ofBool b
  | .var n => n.text
  | .not a => "(not " ++ a.text ++ ")"
  | .binary op l r => l.text ++ " " ++ op.word ++ " " ++ r.text

/-- A formula without holes has a text. -/
theorem render_complete {f : Formula} (h : f.Complete) : f.render = .ok f.text := by
  rw [render, fold_eq_foldRec]
  induction f with
  | hole => exact absurd h id
  | constant b => rfl
  | var n => rfl
  | not a ih => rw [foldRec, ih h, ok_bind, renderStep, text]
  | binary op l r ihl ihr =>
    rw [foldRec, ihl h.1, ok_bind, ihr h.2, ok_bind, renderStep, text]

end Formula

-- ---------------------------------------------------------------------------
-- Connectives
-- ---------------------------------------------------------------------------

/-- The operands may be doubled, but no name comes in or gets lost. -/
theorem Connective.mem_leaves_apply (c : Connective) (f g : Formula) (n : Name) :
    n ∈ (c.apply f g).leaves ↔ n ∈ f.leaves ∨ n ∈ g.leaves := by
  cases c <;> simp [apply, Formula.and, Formula.or, Formula.xor, Formula.implies, Formula.iff,
    or_comm, or_left_comm]

end TruthTable
