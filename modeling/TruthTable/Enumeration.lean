import TruthTable.Assignment.Basic
import TruthTable.Formula.Basic
import TruthTable.Log.Basic

/-!
# Enumerating assignments

All assignments over a set of names, numbered from 0: the `k`-th one gives the `i`-th name in
increasing order the `i`-th binary digit of `k`, lowest digit first. Rows are computed one at a
time, so that a search over very many of them can stop early.
-/

namespace TruthTable

/-- The assignments over a set of names. -/
structure Enumeration where
  names : NameSet

namespace Enumeration

/-- The assignments over the names of a formula. -/
def ofFormula (f : Formula) : Enumeration :=
  ⟨f.names⟩

/-- The number of assignments. -/
def size (e : Enumeration) : Nat :=
  Nat.pow 2 e.names.size

/-- The assignment with number `k`. -/
def get (e : Enumeration) (k : Nat) : Assignment :=
  .ofBits e.names.toList k

/-- The assignments with the numbers from `skip` on, `take` of them or fewer at the end. -/
def slice (e : Enumeration) (skip take : Nat) : List Assignment :=
  (List.range' skip (min take (e.size - skip))).map e.get

/-- All assignments in order. -/
def rows (e : Enumeration) : List Assignment :=
  (List.range e.size).map e.get

/-- The assignments as a set: of equal ones the first is kept. -/
def distinct (e : Enumeration) : List Assignment :=
  e.rows.eraseDups

/-! ## Searching -/

/-- Whether `p` holds on all rows from number `k` on; stops at the first row where it does not. -/
def allFrom (e : Enumeration) (p : Assignment → Except Fault Bool) (k : Nat) : Except Fault Bool :=
  if k < e.size then
    match p (e.get k) with
    | .ok true => e.allFrom p (k + 1)
    | .ok false => .ok false
    | .error fault => .error fault
  else .ok true
termination_by e.size - k

/-- Whether `p` holds on some row from number `k` on; stops at the first row where it does. -/
def anyFrom (e : Enumeration) (p : Assignment → Except Fault Bool) (k : Nat) : Except Fault Bool :=
  if k < e.size then
    match p (e.get k) with
    | .ok true => .ok true
    | .ok false => e.anyFrom p (k + 1)
    | .error fault => .error fault
  else .ok false
termination_by e.size - k

/-- Whether `p` holds and whether it fails on some row from number `k` on, where `holds` and `fails`
tell whether it did before; stops as soon as both are known. -/
def surveyFrom (e : Enumeration) (p : Assignment → Except Fault Bool) (holds fails : Bool)
    (k : Nat) : Except Fault (Bool × Bool) :=
  if holds && fails then .ok (true, true)
  else if k < e.size then
    match p (e.get k) with
    | .ok true => e.surveyFrom p true fails (k + 1)
    | .ok false => e.surveyFrom p holds true (k + 1)
    | .error fault => .error fault
  else .ok (holds, fails)
termination_by e.size - k

/-! ## Announcements -/

/-- Above this number of rows an enumeration is announced with a warning. -/
def large : Nat := Nat.pow 2 20

/-- What is noted when an enumeration starts. -/
def announcement (e : Enumeration) : List Log.Entry :=
  ⟨.debug, "Enumerating " ++ toString e.size ++ " interpretation(s) over [" ++
    ", ".intercalate e.names.texts ++ "]"⟩ ::
  if large < e.size then
    [⟨.warning, "Enumerating " ++ toString e.size ++ " interpretations over " ++
      toString e.names.size ++ " variables"⟩]
  else []

end Enumeration

end TruthTable
