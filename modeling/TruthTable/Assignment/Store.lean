import TruthTable.Assignment.Checked

/-!
# Shared assignments

Several registers may hold one and the same assignment: a change made through one of them shows
through all. Assignments are therefore kept in numbered cells, and a register holds the number of a
cell. A copy is a new cell, which later changes of the old one do not touch.
-/

namespace TruthTable

/-- Assignments in cells, numbered from 0. -/
structure AssignmentStore where
  cells : List Assignment

namespace AssignmentStore

/-- No cells. -/
def empty : AssignmentStore := ⟨[]⟩

/-- The assignment in a cell. -/
def get? (s : AssignmentStore) (cell : Nat) : Option Assignment :=
  s.cells[cell]?

/-- Puts an assignment into a new cell. -/
def create (s : AssignmentStore) (a : Assignment) : AssignmentStore × Nat :=
  (⟨s.cells ++ [a]⟩, s.cells.length)

/-- Replaces the assignment in a cell. -/
def replace (s : AssignmentStore) (cell : Nat) (a : Assignment) : AssignmentStore :=
  ⟨s.cells.set cell a⟩

/-- A new cell stands after the others, which keep what they have. -/
theorem get?_create (s : AssignmentStore) (a : Assignment) (cell : Nat) :
    (s.create a).1.get? cell = if cell = s.cells.length then some a else s.get? cell := by
  show (s.cells ++ [a])[cell]? = if cell = s.cells.length then some a else s.cells[cell]?
  split
  next hNew => rw [hNew, List.getElem?_concat_length]
  next hNew =>
    rcases Nat.lt_or_gt_of_ne hNew with hLt | hGt
    · exact List.getElem?_append_left hLt
    · rw [List.getElem?_eq_none (by simp; omega), List.getElem?_eq_none (by omega)]

/-- Replacing what a cell has leaves the other cells as they are. -/
theorem get?_replace {s : AssignmentStore} {cell : Nat} {old : Assignment}
    (h : s.get? cell = some old) (a : Assignment) (other : Nat) :
    (s.replace cell a).get? other = if other = cell then some a else s.get? other := by
  obtain ⟨hLt, -⟩ := List.getElem?_eq_some_iff.mp h
  show (s.cells.set cell a)[other]? = if other = cell then some a else s.cells[other]?
  split
  next hSame => rw [hSame, List.getElem?_set_self hLt]
  next hOther => exact List.getElem?_set_ne (Ne.symm hOther)

end AssignmentStore

end TruthTable
