import TruthTable.Formula.Text

/-!
# Rereading a formula

The text of a formula puts a parenthesis around every negation and nowhere
else, and it stands outside the word `not`. So the text of a formula is read
back as another one, in general: conjunctions and disjunctions are grouped by
strength and from the left, and a negation takes the first operand after it.

`Formula.reread` says which formula the text is read as, by the shape of the
formula and without the text. While a text is read from left to right, a
`Reading` is the sum that is complete and the product that still grows, and a
`Slot` is the place that waits for the next operand.

Main results:

* `inorder_reread`     — rereading keeps the nodes from left to right.
* `reread_of_readable` — a `Readable` formula is reread as itself.
* `scope_readInto_le`  — rereading takes connectives out of negations and never
  puts any in. A formula that is reread as itself has lost none, which leaves
  no negation of a connective.
* `reread_eq_iff`      — so the readable formulas are the only ones that are
  reread as themselves.
-/

namespace TruthTable

-- ---------------------------------------------------------------------------
-- What is counted, and which formulas come back
-- ---------------------------------------------------------------------------

namespace Formula

/-- The leaves from left to right, constants and variables. -/
def fringe : Formula → List Sight
  | .hole => []
  | .constant b => [.constant b]
  | .var n => [.var n]
  | .not a => a.fringe
  | .binary _ l r => l.fringe ++ r.fringe

/-- The number of negations. -/
def negations : Formula → Nat
  | .hole => 0
  | .constant _ => 0
  | .var _ => 0
  | .not a => a.negations + 1
  | .binary _ l r => l.negations + r.negations

/-- The number of nodes with the connective `op`. -/
def uses (op : Operator) : Formula → Nat
  | .hole => 0
  | .constant _ => 0
  | .var _ => 0
  | .not a => a.uses op
  | .binary op' l r => l.uses op + r.uses op + if op' = op then 1 else 0

/-- A connective stands at the root. -/
def isBinary : Formula → Bool
  | .binary .. => true
  | _ => false

/-- A disjunction stands at the root. -/
def isOr : Formula → Bool
  | .binary .or .. => true
  | _ => false

/-- No negation of a connective, no conjunction with a disjunction on its left
or a connective on its right, no disjunction with a disjunction on its right. -/
def Readable : Formula → Prop
  | .hole => True
  | .constant _ => True
  | .var _ => True
  | .not a => a.isBinary = false ∧ a.Readable
  | .binary .and l r => l.isOr = false ∧ r.isBinary = false ∧ l.Readable ∧ r.Readable
  | .binary .or l r => r.isOr = false ∧ l.Readable ∧ r.Readable

-- ---------------------------------------------------------------------------
-- The nodes from left to right
-- ---------------------------------------------------------------------------

/-- The nodes as they stand in the text: a connective between its operands, a
negation before its operand. -/
def inorder : Formula → List Sight
  | .hole => []
  | .constant b => [.constant b]
  | .var n => [.var n]
  | .not a => .not :: a.inorder
  | .binary op l r => l.inorder ++ .binary op :: r.inorder

/-- The leaves are seen in the order of the text. -/
theorem fringe_eq (f : Formula) :
    f.fringe = f.inorder.filter fun | .constant _ | .var _ => true | _ => false := by
  induction f with
  | hole => rfl
  | constant b => rfl
  | var n => rfl
  | not a ih => simp [fringe, inorder, ih]
  | binary op l r ihl ihr => simp [fringe, inorder, ihl, ihr]

/-- Negations may be counted in the order of the text. -/
theorem negations_eq (f : Formula) :
    f.negations = f.inorder.countP fun | .not => true | _ => false := by
  induction f with
  | hole => rfl
  | constant b => rfl
  | var n => rfl
  | not a ih => simp [negations, inorder, ih]
  | binary op l r ihl ihr => simp [negations, inorder, ihl, ihr]

/-- Connectives may be counted in the order of the text. -/
theorem uses_eq (op : Operator) (f : Formula) :
    f.uses op = f.inorder.countP fun | .binary op' => op' = op | _ => false := by
  induction f with
  | hole => rfl
  | constant b => rfl
  | var n => rfl
  | not a ih => simp [uses, inorder, ih]
  | binary op' l r ihl ihr => simp [uses, inorder, ihl, ihr, List.countP_cons, Nat.add_assoc]

end Formula

-- ---------------------------------------------------------------------------
-- Rereading
-- ---------------------------------------------------------------------------

/-- What was read of a text of conjunctions and disjunctions: the sum that is
complete, if any, and the product that still grows. -/
structure Reading where
  sum : Option Formula
  product : Formula

/-- All that was read, as one formula. -/
def Reading.total : Reading → Formula
  | ⟨none, p⟩ => p
  | ⟨some s, p⟩ => s.or p

/-- A place that waits for an operand. -/
inductive Slot where
  | start
  | negated
  | after (done : Reading) (op : Operator)

/-- Puts an operand in its place. -/
def Slot.fill : Slot → Formula → Reading
  | .start, x => ⟨none, x⟩
  | .negated, x => ⟨none, .not x⟩
  | .after done .and, x => ⟨done.sum, done.product.and x⟩
  | .after done .or, x => ⟨some done.total, x⟩

namespace Formula

/-- Reads the text of a formula from a place on. The parentheses of a negation
are one operand, and the first operand inside is what is negated. -/
def readInto : Formula → Slot → Reading
  | .hole, slot => slot.fill .hole
  | .constant b, slot => slot.fill (.constant b)
  | .var n, slot => slot.fill (.var n)
  | .not a, slot => slot.fill (a.readInto .negated).total
  | .binary op l r, slot => r.readInto (.after (l.readInto slot) op)

/-- The formula that the text of a formula is read as. -/
def reread (f : Formula) : Formula :=
  (f.readInto .start).total

end Formula

-- ---------------------------------------------------------------------------
-- Rereading keeps the nodes from left to right
-- ---------------------------------------------------------------------------

/-- The nodes that stand before a place. -/
def Slot.inorder : Slot → List Formula.Sight
  | .start => []
  | .negated => [.not]
  | .after done op => done.total.inorder ++ [.binary op]

theorem Slot.inorder_fill (slot : Slot) (x : Formula) :
    (slot.fill x).total.inorder = slot.inorder ++ x.inorder := by
  match slot with
  | .start => rfl
  | .negated => rfl
  | .after ⟨none, p⟩ .and => simp [fill, inorder, Reading.total, Formula.and, Formula.inorder]
  | .after ⟨some s, p⟩ .and =>
    simp [fill, inorder, Reading.total, Formula.and, Formula.or, Formula.inorder]
  | .after done .or => simp [fill, inorder, Reading.total, Formula.or, Formula.inorder]

namespace Formula

/-- Reading on from a place moves no node. -/
theorem inorder_readInto (f : Formula) (slot : Slot) :
    (f.readInto slot).total.inorder = slot.inorder ++ f.inorder := by
  induction f generalizing slot with
  | hole => exact slot.inorder_fill _
  | constant b => exact slot.inorder_fill _
  | var n => exact slot.inorder_fill _
  | not a ih =>
    rw [readInto, slot.inorder_fill, ih]
    rfl
  | binary op l r ihl ihr =>
    rw [readInto, ihr, Slot.inorder, ihl]
    simp [inorder]

/-- Rereading moves no leaf, no connective and no negation in the text. -/
theorem inorder_reread (f : Formula) : f.reread.inorder = f.inorder := by
  rw [reread, inorder_readInto]
  rfl

/-- Rereading keeps the leaves in their order. -/
theorem fringe_reread (f : Formula) : f.reread.fringe = f.fringe := by
  rw [fringe_eq, inorder_reread, ← fringe_eq]

/-- Rereading keeps the number of negations. -/
theorem negations_reread (f : Formula) : f.reread.negations = f.negations := by
  rw [negations_eq, inorder_reread, ← negations_eq]

/-- Rereading keeps the number of uses of each connective. -/
theorem uses_reread (op : Operator) (f : Formula) : f.reread.uses op = f.uses op := by
  rw [uses_eq, inorder_reread, ← uses_eq]

-- ---------------------------------------------------------------------------
-- A readable formula is reread as itself
-- ---------------------------------------------------------------------------

/-- Without a connective at its root, a readable formula is one operand. -/
theorem readInto_of_operand {f : Formula} (hf : f.Readable) (hBinary : f.isBinary = false)
    (slot : Slot) : f.readInto slot = slot.fill f := by
  induction f generalizing slot with
  | hole => rfl
  | constant b => rfl
  | var n => rfl
  | not a ih =>
    rw [readInto, ih hf.2 hf.1]
    rfl
  | binary op l r => cases hBinary

/-- Without a disjunction at its root, a readable formula is one product, at
the start and after a disjunction. -/
theorem readInto_of_product {f : Formula} (hf : f.Readable) (hOr : f.isOr = false) :
    f.readInto .start = ⟨none, f⟩ ∧
      ∀ done, f.readInto (.after done .or) = ⟨some done.total, f⟩ := by
  induction f with
  | hole => exact ⟨rfl, fun _ => rfl⟩
  | constant b => exact ⟨rfl, fun _ => rfl⟩
  | var n => exact ⟨rfl, fun _ => rfl⟩
  | not a => exact ⟨readInto_of_operand hf rfl _, fun _ => readInto_of_operand hf rfl _⟩
  | binary op l r ihl =>
    cases op with
    | or => cases hOr
    | and =>
      obtain ⟨hlOr, hrBinary, hl, hr⟩ := hf
      obtain ⟨hStart, hAfter⟩ := ihl hl hlOr
      constructor
      · rw [readInto, hStart, readInto_of_operand hr hrBinary]
        rfl
      · intro done
        rw [readInto, hAfter, readInto_of_operand hr hrBinary]
        rfl

/-- A readable formula is reread as itself. -/
theorem reread_of_readable {f : Formula} (hf : f.Readable) : f.reread = f := by
  induction f with
  | hole => rfl
  | constant b => rfl
  | var n => rfl
  | not a =>
    rw [reread, readInto_of_operand hf rfl]
    rfl
  | binary op l r ihl =>
    cases op with
    | and =>
      rw [reread, (readInto_of_product hf rfl).1]
      rfl
    | or =>
      obtain ⟨hrOr, hl, hr⟩ := hf
      -- all of the left operand is read when the disjunction comes
      have hLeft : (l.readInto .start).total = l := ihl hl
      rw [reread, readInto, (readInto_of_product hr hrOr).2, hLeft]
      rfl

-- ---------------------------------------------------------------------------
-- Rereading takes connectives out of negations
-- ---------------------------------------------------------------------------

/-- The number of connectives. -/
def joins (f : Formula) : Nat :=
  f.uses .and + f.uses .or

theorem joins_binary (op : Operator) (l r : Formula) :
    (binary op l r).joins = l.joins + r.joins + 1 := by
  cases op <;> simp [joins, uses] <;> omega

/-- Formulas with the same nodes in the text have as many connectives. -/
theorem joins_of_inorder {f g : Formula} (h : f.inorder = g.inorder) : f.joins = g.joins := by
  simp only [joins, uses_eq, h]

/-- How many connectives the negations stand over, counted for each negation. -/
def scope : Formula → Nat
  | .hole => 0
  | .constant _ => 0
  | .var _ => 0
  | .not a => a.scope + a.joins
  | .binary _ l r => l.scope + r.scope

/-- The number of negations with a connective right below. -/
def strays : Formula → Nat
  | .hole => 0
  | .constant _ => 0
  | .var _ => 0
  | .not a => a.strays + if a.isBinary then 1 else 0
  | .binary _ l r => l.strays + r.strays

/-- The connectives below the one at the root, or all if there is none. -/
def lowerJoins : Formula → Nat
  | .binary _ l r => l.joins + r.joins
  | f => f.joins

/-- All connectives are the lower ones and the one at the root. -/
theorem lowerJoins_add (f : Formula) :
    f.lowerJoins + (if f.isBinary then 1 else 0) = f.joins := by
  cases f with
  | binary op l r => rw [lowerJoins, joins_binary]; rfl
  | _ => rfl

end Formula

/-- The scope of the negations that stand before a place. -/
def Slot.scope : Slot → Nat
  | .after done _ => done.total.scope
  | _ => 0

/-- Of so many connectives, those that come under a negation at the place. -/
def Slot.covered : Slot → Nat → Nat
  | .negated, n => n
  | _, _ => 0

/-- Of more connectives no fewer come under a negation. -/
theorem Slot.covered_mono (slot : Slot) {m n : Nat} (h : m ≤ n) :
    slot.covered m ≤ slot.covered n := by
  cases slot with
  | negated => exact h
  | start => exact Nat.le_refl 0
  | after => exact Nat.le_refl 0

/-- An operand brings its own scope, and its connectives if its place is negated. -/
theorem Slot.scope_fill (slot : Slot) (x : Formula) :
    (slot.fill x).total.scope = slot.scope + x.scope + slot.covered x.joins := by
  match slot with
  | .start => simp [fill, scope, covered, Reading.total]
  | .negated => simp [fill, scope, covered, Reading.total, Formula.scope]
  | .after ⟨none, p⟩ .and => simp [fill, scope, covered, Reading.total, Formula.and, Formula.scope]
  | .after ⟨some s, p⟩ .and =>
    simp [fill, scope, covered, Reading.total, Formula.and, Formula.or, Formula.scope,
      Nat.add_assoc]
  | .after done .or => simp [fill, scope, covered, Reading.total, Formula.or, Formula.scope]

namespace Formula

/-- Every stray negation loses the connective right below it. -/
theorem scope_readInto_le (f : Formula) (slot : Slot) :
    (f.readInto slot).total.scope + f.strays ≤
      slot.scope + f.scope + slot.covered f.lowerJoins := by
  induction f generalizing slot with
  | hole => exact Nat.le_of_eq (slot.scope_fill _)
  | constant b => exact Nat.le_of_eq (slot.scope_fill _)
  | var n => exact Nat.le_of_eq (slot.scope_fill _)
  | not a ih =>
    have hInside : (a.readInto .negated).total.scope + a.strays ≤ 0 + a.scope + a.lowerJoins :=
      ih .negated
    have hJoins : (a.readInto .negated).total.joins = (not a).lowerJoins :=
      joins_of_inorder (inorder_readInto a .negated)
    have hLower := a.lowerJoins_add
    rw [readInto, slot.scope_fill, hJoins, strays, scope]
    omega
  | binary op l r ihl ihr =>
    have hLeft := ihl slot
    have hRight : (r.readInto (.after (l.readInto slot) op)).total.scope + r.strays ≤
        (l.readInto slot).total.scope + r.scope + 0 := ihr _
    -- the connective at the root itself comes under no negation
    have hCovered : slot.covered l.lowerJoins ≤ slot.covered (binary op l r).lowerJoins := by
      refine slot.covered_mono ?_
      have hLower := l.lowerJoins_add
      rw [lowerJoins]
      omega
    rw [readInto, strays, scope]
    omega

/-- A formula that is reread as itself has no negation of a connective. -/
theorem strays_of_reread_eq {f : Formula} (h : f.reread = f) : f.strays = 0 := by
  have hScope : f.reread.scope + f.strays ≤ 0 + f.scope + 0 := scope_readInto_le f .start
  rw [h] at hScope
  omega

-- ---------------------------------------------------------------------------
-- Without stray negations, what is reread is readable
-- ---------------------------------------------------------------------------

/-- An operand with no negation of a connective is readable. -/
theorem readable_of_operand {f : Formula} (hStrays : f.strays = 0) (hBinary : f.isBinary = false) :
    f.Readable := by
  induction f with
  | hole => trivial
  | constant b => trivial
  | var n => trivial
  | not a ih =>
    rw [strays] at hStrays
    have hOperand : a.isBinary = false := by
      cases hRoot : a.isBinary with
      | false => rfl
      | true =>
        rw [hRoot, if_pos rfl] at hStrays
        omega
    exact ⟨hOperand, ih (by omega) hOperand⟩
  | binary op l r => cases hBinary

end Formula

/-- The sum and the product are readable, and the product is one. -/
structure Reading.Grouped (done : Reading) : Prop where
  sum : ∀ s ∈ done.sum, s.Readable
  product : done.product.Readable
  isOr : done.product.isOr = false

/-- What stands before the place is readable. -/
def Slot.Grouped : Slot → Prop
  | .after done _ => done.Grouped
  | _ => True

/-- A readable sum and a readable product make a readable formula. -/
theorem Reading.Grouped.total {done : Reading} (h : done.Grouped) : done.total.Readable := by
  match done, h with
  | ⟨none, p⟩, h => exact h.product
  | ⟨some s, p⟩, h => exact ⟨h.isOr, h.sum s rfl, h.product⟩

theorem Formula.isOr_of_operand {x : Formula} (h : x.isBinary = false) : x.isOr = false := by
  cases x with
  | binary op l r => cases h
  | _ => rfl

/-- An operand that is no connective keeps the groups readable. -/
theorem Slot.Grouped.fill {slot : Slot} (h : slot.Grouped) {x : Formula} (hx : x.Readable)
    (hBinary : x.isBinary = false) : (slot.fill x).Grouped := by
  match slot, h with
  | .start, _ => exact ⟨by simp [Slot.fill], hx, Formula.isOr_of_operand hBinary⟩
  | .negated, _ => exact ⟨by simp [Slot.fill], ⟨hBinary, hx⟩, rfl⟩
  | .after done .and, h => exact ⟨h.sum, ⟨h.isOr, hBinary, h.product, hx⟩, rfl⟩
  | .after done .or, h =>
    refine ⟨?_, hx, Formula.isOr_of_operand hBinary⟩
    rintro s ⟨⟩
    exact Reading.Grouped.total h

namespace Formula

/-- Reading keeps the groups readable, unless a connective is negated. -/
theorem grouped_readInto {f : Formula} (hStrays : f.strays = 0) {slot : Slot} (h : slot.Grouped) :
    (f.readInto slot).Grouped := by
  induction f generalizing slot with
  | hole => exact h.fill trivial rfl
  | constant b => exact h.fill trivial rfl
  | var n => exact h.fill trivial rfl
  | not a =>
    have hf := readable_of_operand hStrays rfl
    rw [readInto_of_operand hf rfl]
    exact h.fill hf rfl
  | binary op l r ihl ihr =>
    rw [strays] at hStrays
    have hLeft : Slot.Grouped (.after (l.readInto slot) op) := ihl (by omega) h
    exact ihr (by omega) hLeft

/-- Exactly the readable formulas are reread as themselves. -/
theorem reread_eq_iff {f : Formula} : f.reread = f ↔ f.Readable := by
  constructor
  · intro h
    have hGrouped : (f.readInto .start).Grouped := grouped_readInto (strays_of_reread_eq h) trivial
    exact h ▸ hGrouped.total
  · exact reread_of_readable

end Formula

end TruthTable
