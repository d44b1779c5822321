import TruthTable.Fault

/-!
# Assignments of truth values to names

An assignment is kept as its entries in increasing order of the names, so two assignments with the
same entries are equal and the order in which entries came in leaves no trace. A later value for a
name takes the place of the earlier one.
-/

namespace TruthTable

/-- A finite assignment of truth values to names, listed in increasing order of the names. -/
structure Assignment where
  /-- The entries. -/
  entries : List (Name × Bool)
  /-- Each name comes before the names of all later entries. -/
  increasing : entries.Pairwise (·.1 < ·.1)
  deriving DecidableEq

namespace Assignment

/-- The assignment without entries. -/
def empty : Assignment := ⟨[], .nil⟩

/-- Puts an entry at its place, or in the place of the entry with the same name. -/
def insertInto (n : Name) (b : Bool) : List (Name × Bool) → List (Name × Bool)
  | [] => [(n, b)]
  | (m, c) :: rest =>
    if n < m then (n, b) :: (m, c) :: rest
    else if m < n then (m, c) :: insertInto n b rest
    else (m, b) :: rest

/-- Inserting an entry brings no other name. -/
theorem mem_insertInto {n : Name} {b : Bool} {x : Name × Bool} {entries : List (Name × Bool)}
    (h : x ∈ insertInto n b entries) : x.1 = n ∨ ∃ y ∈ entries, y.1 = x.1 := by
  induction entries with
  | nil => exact .inl (by simp_all [insertInto])
  | cons e rest ih =>
    obtain ⟨m, c⟩ := e
    rw [insertInto] at h
    split at h
    · rcases List.mem_cons.mp h with rfl | h
      · exact .inl rfl
      · exact .inr ⟨x, h, rfl⟩
    · split at h
      · rcases List.mem_cons.mp h with rfl | h
        · exact .inr ⟨_, List.mem_cons_self, rfl⟩
        · rcases ih h with h | ⟨y, hy, hxy⟩
          · exact .inl h
          · exact .inr ⟨y, List.mem_cons_of_mem _ hy, hxy⟩
      · rcases List.mem_cons.mp h with rfl | h
        · exact .inr ⟨(m, c), List.mem_cons_self, rfl⟩
        · exact .inr ⟨x, List.mem_cons_of_mem _ h, rfl⟩

/-- Inserting an entry keeps the order of the names. -/
theorem insertInto_increasing (n : Name) (b : Bool) {entries : List (Name × Bool)}
    (h : entries.Pairwise (·.1 < ·.1)) : (insertInto n b entries).Pairwise (·.1 < ·.1) := by
  induction entries with
  | nil => simp [insertInto]
  | cons e rest ih =>
    obtain ⟨m, c⟩ := e
    have hm := List.pairwise_cons.mp h
    rw [insertInto]
    split
    next hnm =>
      refine List.pairwise_cons.mpr ⟨fun x hx => ?_, h⟩
      rcases List.mem_cons.mp hx with rfl | hx
      · exact hnm
      · exact Name.lt_trans hnm (hm.1 x hx)
    next =>
      split
      next hmn =>
        refine List.pairwise_cons.mpr ⟨fun x hx => ?_, ih hm.2⟩
        rcases mem_insertInto hx with hx | ⟨y, hy, hxy⟩
        · exact hx ▸ hmn
        · exact hxy ▸ hm.1 y hy
      next => exact List.pairwise_cons.mpr ⟨hm.1, hm.2⟩

/-- Assigns `b` to `n`, in place of any earlier value. -/
def insert (a : Assignment) (n : Name) (b : Bool) : Assignment :=
  ⟨insertInto n b a.entries, insertInto_increasing n b a.increasing⟩

/-- The value of a name, if it has one. -/
def get? (a : Assignment) (n : Name) : Option Bool :=
  a.entries.lookup n

/-- The number of entries. -/
def size (a : Assignment) : Nat :=
  a.entries.length

/-- The names that have a value, in increasing order. -/
def names (a : Assignment) : List Name :=
  a.entries.map (·.1)

/-- The assignment of the `i`-th name to the `i`-th binary digit of `bits`, lowest digit first. -/
def ofBits : List Name → Nat → Assignment
  | [], _ => empty
  | n :: rest, bits => (ofBits rest (bits / 2)).insert n (bits % 2 == 1)

/-! ## Texts -/

/-- One entry of the text of an assignment. -/
def entryText (e : Name × Bool) : String :=
  e.1.text ++ ": " ++ Value.ofBool e.2

/-- The entries in order of the names. -/
def render (a : Assignment) : String :=
  "| ".intercalate (a.entries.map entryText)

/-- The assignment as a constructor applied to a record. -/
def literal (a : Assignment) : String :=
  "Interpretation(" ++ (Value.record (a.entries.map fun (n, b) => (n.text, .bool b))).literal ++ ")"

end Assignment

end TruthTable
