import Mathlib.Data.List.Find
import Mathlib.Data.Nat.Bitwise
import TruthTable.Evaluation
import TruthTable.Proofs.Formula
import TruthTable.Table

/-!
# Evaluation as a truth function

An assignment is a finite map, and evaluation is strict: it goes through all
leaves from left to right and fails at the first name without a value. Where
no name is missing, the value is the truth value of the formula, which looks
at nothing but the values of its names.

Main results:

* `get?_insert`    — an assignment is a map: the value put last is found.
* `eval_eq`        — evaluation gives the truth value, or the fault of the
  first missing name.
* `eval_of_covers` — with a value for every name, evaluation succeeds.
* `value_congr`    — the truth value depends on the names of the formula alone.
* `eval_congr`     — so does the outcome of an evaluation, fault included.
* `evaluation_is_strict` — when evaluation succeeds and with which value, and
  which fault it ends with otherwise.
-/

namespace TruthTable

-- ---------------------------------------------------------------------------
-- Assignments as maps
-- ---------------------------------------------------------------------------

namespace Assignment

theorem lookup_insertInto (n m : Name) (b : Bool) (entries : List (Name × Bool)) :
    (insertInto n b entries).lookup m = if m = n then some b else entries.lookup m := by
  induction entries with
  | nil => rw [insertInto, Table.lookup_cons_eq]
  | cons e rest ih =>
    obtain ⟨k, c⟩ := e
    rw [insertInto]
    split
    · rw [Table.lookup_cons_eq]
    · rename_i hnk
      split
      · rename_i hkn
        rw [Table.lookup_cons_eq, Table.lookup_cons_eq, ih]
        by_cases h : m = k
        · -- the entry stands before the place of `n`, so its name is another one
          have hne : m ≠ n := by
            rintro rfl
            exact Name.lt_irrefl m (h ▸ hkn)
          rw [if_pos h, if_neg hne, if_pos h]
        · rw [if_neg h, if_neg h]
      · rename_i hkn
        have hEq : n = k := Name.eq_of_not_lt hnk hkn
        subst hEq
        rw [Table.lookup_cons_eq, Table.lookup_cons_eq]
        by_cases h : m = n
        · rw [if_pos h, if_pos h]
        · rw [if_neg h, if_neg h, if_neg h]

/-- The value put last is found, and the other names keep theirs. -/
theorem get?_insert (a : Assignment) (n m : Name) (b : Bool) :
    (a.insert n b).get? m = if m = n then some b else a.get? m :=
  lookup_insertInto n m b a.entries

/-- The `i`-th name has the `i`-th binary digit. -/
theorem get?_ofBits {names : List Name} (hNodup : names.Nodup) (bits : Nat) {i : Nat}
    (hi : i < names.length) : (ofBits names bits).get? names[i] = some (bits.testBit i) := by
  induction names generalizing bits i with
  | nil => simp at hi
  | cons n rest ih =>
    obtain ⟨hFresh, hRest⟩ := List.nodup_cons.mp hNodup
    rw [ofBits, get?_insert]
    cases i with
    | zero => simp [Nat.testBit_zero, Bool.beq_eq_decide_eq]
    | succ i =>
      have hi' : i < rest.length := by simpa using hi
      have hne : rest[i] ≠ n := fun h => hFresh (h ▸ List.getElem_mem hi')
      rw [List.getElem_cons_succ, if_neg hne, ih hRest, Nat.testBit_succ]

/-- The first of the names that has no value. -/
def firstMissing (a : Assignment) (names : List Name) : Option Name :=
  names.find? fun n => (a.get? n).isNone

theorem firstMissing_append (a : Assignment) (l r : List Name) :
    a.firstMissing (l ++ r) = (a.firstMissing l).or (a.firstMissing r) :=
  List.find?_append

/-- The first missing name is missing, and those before it are not. -/
theorem exists_of_firstMissing {a : Assignment} {names : List Name} {n : Name}
    (h : a.firstMissing names = some n) : a.get? n = none ∧
      ∃ earlier later, names = earlier ++ n :: later ∧
        ∀ m ∈ earlier, (a.get? m).isSome = true := by
  rw [firstMissing, List.find?_eq_some_iff_append] at h
  obtain ⟨hNone, earlier, later, hSplit, hEarlier⟩ := h
  refine ⟨by simpa using hNone, earlier, later, hSplit, ?_⟩
  intro m hm
  simpa [Option.isSome_iff_ne_none] using hEarlier m hm

/-- Every name of the formula has a value. -/
def Covers (a : Assignment) (f : Formula) : Prop :=
  ∀ n ∈ f.names.toList, (a.get? n).isSome = true

/-- The values of the names; a name without one counts as false. -/
def valuation (a : Assignment) (n : Name) : Bool :=
  (a.get? n).getD false

theorem covers_iff {a : Assignment} {f : Formula} :
    a.Covers f ↔ a.firstMissing f.leaves = none := by
  rw [firstMissing, List.find?_eq_none]
  constructor
  · intro h n hn
    have := h n (Formula.mem_names.mpr hn)
    simpa [Option.isSome_iff_ne_none] using this
  · intro h n hn
    have := h n (Formula.mem_names.mp hn)
    simpa [Option.isSome_iff_ne_none] using this

end Assignment

-- ---------------------------------------------------------------------------
-- Truth values
-- ---------------------------------------------------------------------------

namespace Formula

/-- The truth value of a formula, given those of its names. -/
def value (v : Name → Bool) : Formula → Bool
  | .hole => false
  | .constant b => b
  | .var n => v n
  | .not a => !a.value v
  | .binary .and l r => l.value v && r.value v
  | .binary .or l r => l.value v || r.value v

theorem value_binary (v : Name → Bool) (op : Operator) (l r : Formula) :
    (binary op l r).value v = op.eval (l.value v) (r.value v) := by
  cases op <;> rfl

/-- The truth value depends on the names of the formula alone. -/
theorem value_congr {f : Formula} {v w : Name → Bool} (h : ∀ n ∈ f.leaves, v n = w n) :
    f.value v = f.value w := by
  induction f with
  | hole => rfl
  | constant b => rfl
  | var n => exact h n (by simp)
  | not a ih => rw [value, value, ih h]
  | binary op l r ihl ihr =>
    rw [leaves_binary] at h
    rw [value_binary, value_binary, ihl fun n hn => h n (List.mem_append_left _ hn),
      ihr fun n hn => h n (List.mem_append_right _ hn)]

-- ---------------------------------------------------------------------------
-- Evaluation
-- ---------------------------------------------------------------------------

/-- The outcome of an evaluation: the truth value, or the fault of the first
name that is missing. -/
def outcome (missing : Option Name) (b : Bool) : Except Fault Bool :=
  match missing with
  | some n => .error (.argument (.unassigned n))
  | none => .ok b

/--
**Evaluation is strict.** It gives the truth value of the formula when every
name has a value, and otherwise fails at the leftmost leaf without one.
-/
theorem eval_eq (a : Assignment) {f : Formula} (h : f.Complete) :
    f.eval a = outcome (a.firstMissing f.leaves) (f.value a.valuation) := by
  rw [eval, fold_eq_foldRec]
  induction f with
  | hole => exact absurd h id
  | constant b => rfl
  | var n =>
    rw [foldRec, evalStep, value, Assignment.valuation, Assignment.firstMissing, leaves_var]
    cases hGet : a.get? n with
    | none => simp [hGet, outcome]
    | some b => simp [hGet, outcome]
  | not g ih =>
    rw [foldRec, ih h, leaves_not]
    cases a.firstMissing g.leaves with
    | none => rfl
    | some n => rfl
  | binary op l r ihl ihr =>
    rw [foldRec, ihl h.1, ihr h.2, leaves_binary, Assignment.firstMissing_append, value_binary]
    -- the right operand is evaluated only when the left one lacks no name
    cases a.firstMissing l.leaves with
    | some n => rfl
    | none =>
      cases a.firstMissing r.leaves with
      | some n => rfl
      | none => rfl

/-- With a value for every name, evaluation succeeds. -/
theorem eval_of_covers {a : Assignment} {f : Formula} (h : f.Complete) (hCovers : a.Covers f) :
    f.eval a = .ok (f.value a.valuation) := by
  rw [eval_eq a h, Assignment.covers_iff.mp hCovers]
  rfl

/-- A name that is missing makes evaluation fail, at the leftmost such leaf. -/
theorem eval_of_not_covers {a : Assignment} {f : Formula} (h : f.Complete) (hNot : ¬ a.Covers f) :
    ∃ earlier n later, f.leaves = earlier ++ n :: later ∧
      (∀ m ∈ earlier, (a.get? m).isSome = true) ∧ a.get? n = none ∧
      f.eval a = .error (.argument (.unassigned n)) := by
  rw [Assignment.covers_iff] at hNot
  obtain ⟨n, hFirst⟩ := Option.ne_none_iff_exists'.mp hNot
  obtain ⟨hNone, earlier, later, hSplit, hEarlier⟩ := Assignment.exists_of_firstMissing hFirst
  refine ⟨earlier, n, later, hSplit, hEarlier, hNone, ?_⟩
  rw [eval_eq a h, hFirst]
  rfl

/-- The outcome of an evaluation, value or fault, depends on the values of the
names of the formula alone. -/
theorem eval_congr {a a' : Assignment} {f : Formula} (h : f.Complete)
    (hAgree : ∀ n ∈ f.names.toList, a.get? n = a'.get? n) : f.eval a = f.eval a' := by
  have hLeaves : ∀ n ∈ f.leaves, a.get? n = a'.get? n := fun n hn => hAgree n (mem_names.mpr hn)
  have hMissing : a.firstMissing f.leaves = a'.firstMissing f.leaves := by
    rw [Assignment.firstMissing, Assignment.firstMissing]
    exact List.find?_congr fun n hn => by rw [hLeaves n hn]
  have hValue : f.value a.valuation = f.value a'.valuation :=
    value_congr fun n hn => by rw [Assignment.valuation, Assignment.valuation, hLeaves n hn]
  rw [eval_eq a h, eval_eq a' h, hMissing, hValue]

end Formula

/-- The fault for a missing name, as it is announced. -/
theorem message_unassigned (n : Name) :
    (Fault.argument (.unassigned n)).message =
      "variable '" ++ n.text ++ "' is not assigned by the interpretation" := by
  show "variable " ++ Text.quoted n.text ++ " is not assigned by the interpretation" = _
  rw [n.quoted_text, ← String.toList_inj]
  simp

/--
**Evaluation succeeds exactly on covering assignments.** The names of a formula
are those at its leaves. An evaluation of a formula without holes returns
exactly when each of them has a value, and returns the truth value of the
formula for these values. Otherwise it fails as for a wrong argument, and names
the leftmost leaf without a value, even where other leaves decide the truth
value. Two assignments that give the names of the formula the same values, or
none, have the same outcome.
-/
theorem evaluation_is_strict (f : Formula) (hf : f.Complete) :
    (∀ n, n ∈ f.names.toList ↔ n ∈ f.leaves) ∧
    (∀ a : Assignment, (∃ b, f.eval a = .ok b) ↔
      ∀ n ∈ f.names.toList, (a.get? n).isSome = true) ∧
    (∀ (a : Assignment) (v : Name → Bool), (∀ n ∈ f.names.toList, a.get? n = some (v n)) →
      f.eval a = .ok (f.value v)) ∧
    (∀ a : Assignment, (∃ n ∈ f.names.toList, a.get? n = none) →
      ∃ earlier n later fault, f.leaves = earlier ++ n :: later ∧
        (∀ m ∈ earlier, (a.get? m).isSome = true) ∧ a.get? n = none ∧
        f.eval a = .error fault ∧ fault.title = "InvalidArgument" ∧
        fault.message = "variable '" ++ n.text ++ "' is not assigned by the interpretation") ∧
    ∀ a a' : Assignment, (∀ n ∈ f.names.toList, a.get? n = a'.get? n) → f.eval a = f.eval a' := by
  refine ⟨fun n => Formula.mem_names, ?_, ?_, ?_, fun a a' => Formula.eval_congr hf⟩
  · intro a
    constructor
    · rintro ⟨b, hEval⟩
      by_contra hNot
      obtain ⟨-, n, -, -, -, -, hFault⟩ := Formula.eval_of_not_covers hf hNot
      rw [hFault] at hEval
      cases hEval
    · intro hCovers
      exact ⟨_, Formula.eval_of_covers hf hCovers⟩
  · intro a v hAssigned
    have hCovers : a.Covers f := fun n hn => by rw [hAssigned n hn]; rfl
    rw [Formula.eval_of_covers hf hCovers]
    congr 1
    refine Formula.value_congr fun n hn => ?_
    rw [Assignment.valuation, hAssigned n (Formula.mem_names.mpr hn)]
    rfl
  · rintro a ⟨m, hm, hNone⟩
    have hNot : ¬ a.Covers f := by
      intro hCovers
      have hSome := hCovers m hm
      rw [hNone] at hSome
      cases hSome
    obtain ⟨earlier, n, later, hSplit, hEarlier, hn, hFault⟩ := Formula.eval_of_not_covers hf hNot
    exact ⟨earlier, n, later, _, hSplit, hEarlier, hn, hFault, rfl, message_unassigned n⟩

/-- In `false & (q | p)` with a value for `q` alone, the value is decided and
evaluation still fails for `p`. -/
theorem evaluation_is_strict_sample :
    let p : Name := ⟨"p", rfl⟩
    let q : Name := ⟨"q", rfl⟩
    let f : Formula := .and (.constant false) (.or (.var q) (.var p))
    let a := Assignment.empty.insert q true
    f.Complete ∧ ∃ fault, f.eval a = .error fault ∧ fault.title = "InvalidArgument" ∧
      fault.message = "variable 'p' is not assigned by the interpretation" := by
  intro p q f a
  have hf : f.Complete := ⟨trivial, trivial, trivial⟩
  have hp : a.get? p = none := by decide
  have hq : a.get? q = some true := by decide
  have hMem : p ∈ f.names.toList := Formula.mem_names.mpr (by decide)
  obtain ⟨-, -, -, hFault, -⟩ := evaluation_is_strict f hf
  obtain ⟨earlier, n, later, fault, hSplit, -, hn, hEval, hTitle, hMessage⟩ :=
    hFault a ⟨p, hMem, hp⟩
  -- the leaves are `q` and `p`, and `q` has a value
  have hLeaf : n ∈ [q, p] := by
    have : n ∈ earlier ++ n :: later := by simp
    rwa [← hSplit] at this
  have hnp : n = p := by
    rcases List.mem_cons.mp hLeaf with rfl | hLeaf
    · rw [hq] at hn
      cases hn
    · exact List.mem_singleton.mp hLeaf
  refine ⟨hf, fault, hEval, hTitle, ?_⟩
  rw [hMessage, hnp]
  rfl

end TruthTable
