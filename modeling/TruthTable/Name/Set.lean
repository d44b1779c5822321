import TruthTable.Name.Basic

/-!
# Finite sets of names

A set of names is kept as its members in increasing order, so equal sets are equal lists and the
order in which members came in leaves no trace.
-/

namespace TruthTable

/-- A finite set of names, listed in increasing order. -/
structure NameSet where
  /-- The members. -/
  toList : List Name
  /-- Each member comes before all later ones. -/
  increasing : toList.Pairwise (· < ·)

namespace NameSet

/-- The set without members. -/
def empty : NameSet := ⟨[], .nil⟩

/-- Puts `n` at its place in an increasing list, unless it is there already. -/
def insertInto (n : Name) : List Name → List Name
  | [] => [n]
  | m :: rest =>
    if n < m then n :: m :: rest
    else if m < n then m :: insertInto n rest
    else m :: rest

/-- Inserting a name adds this name and no other. -/
theorem mem_insertInto {n x : Name} {names : List Name} :
    x ∈ insertInto n names ↔ x = n ∨ x ∈ names := by
  induction names with
  | nil => simp [insertInto]
  | cons m rest ih =>
    rw [insertInto]
    split
    · simp
    · next hnm =>
      split
      · simp only [List.mem_cons, ih, or_left_comm]
      · next hmn =>
        -- Neither name comes first, so `n` is `m` and is there already.
        have hn : n = m := Name.eq_of_not_lt hnm hmn
        simp [hn]

/-- Inserting a name keeps the order. -/
theorem insertInto_increasing (n : Name) {names : List Name} (h : names.Pairwise (· < ·)) :
    (insertInto n names).Pairwise (· < ·) := by
  induction names with
  | nil => simp [insertInto]
  | cons m rest ih =>
    have hm := List.pairwise_cons.mp h
    rw [insertInto]
    split
    next hnm =>
      refine List.pairwise_cons.mpr ⟨fun x hx => ?_, h⟩
      rcases List.mem_cons.mp hx with rfl | hx
      · exact hnm
      · exact Name.lt_trans hnm (hm.1 x hx)
    next =>
      split
      next hmn =>
        refine List.pairwise_cons.mpr ⟨fun x hx => ?_, ih hm.2⟩
        rcases mem_insertInto.mp hx with rfl | hx
        · exact hmn
        · exact hm.1 x hx
      next => exact h

/-- The set with one more member. -/
def insert (s : NameSet) (n : Name) : NameSet :=
  ⟨insertInto n s.toList, insertInto_increasing n s.increasing⟩

/-- The number of members. -/
def size (s : NameSet) : Nat :=
  s.toList.length

/-- The members as texts, in increasing order. -/
def texts (s : NameSet) : List String :=
  s.toList.map Name.text

end NameSet

end TruthTable
