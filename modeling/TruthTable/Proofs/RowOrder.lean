import TruthTable.Proofs.BitPatterns
import TruthTable.Proofs.Delimiting

/-!
# The order of the rows

The enumeration over a set of names lists every assignment of exactly these
names once. Row `k` gives the `i`-th name the `i`-th binary digit of `k`, so of
two different rows the one comes first that has the value false at the greatest
name where they differ.

Main results:

* `nodup_rows`, `mem_rows_iff` — every assignment of the names is listed once.
* `distinct_eq_rows` — taking the rows as a set removes none.
* `ofBits?_get`      — every row passes the checks of a bit pattern.
* `lt_iff_precedes`  — the order of the rows, said by their values.
* `slice_eq`         — what is taken from the rows is taken in order.
* `rows_list_all_assignments` — all of it, for the names of a formula.
-/

namespace TruthTable

-- ---------------------------------------------------------------------------
-- Numbers by their binary digits
-- ---------------------------------------------------------------------------

/-- Of two numbers the one is less that has no digit at the highest position
where they differ. -/
theorem lt_iff_testBit {j k : Nat} : j < k ↔ ∃ i, j.testBit i = false ∧ k.testBit i = true ∧
    ∀ m, i < m → j.testBit m = k.testBit m := by
  constructor
  · intro hlt
    have hne : j ^^^ k ≠ 0 := by
      rw [ne_eq, Nat.xor_eq_zero_iff]
      omega
    obtain ⟨i, hi, hAbove⟩ := Nat.exists_most_significant_bit hne
    have hSame : ∀ m, i < m → j.testBit m = k.testBit m := by
      intro m hm
      have hXor := hAbove m hm
      rw [Nat.testBit_xor] at hXor
      simpa using hXor
    rw [Nat.testBit_xor] at hi
    cases hj : j.testBit i with
    | false =>
      rw [hj, Bool.false_xor] at hi
      exact ⟨i, hj, hi, hSame⟩
    | true =>
      -- the other way round `k` would be the smaller one
      rw [hj, Bool.true_xor, Bool.not_eq_true'] at hi
      have := Nat.lt_of_testBit i hi hj fun m hm => (hSame m hm).symm
      omega
  · rintro ⟨i, hj, hk, hSame⟩
    exact Nat.lt_of_testBit i hj hk hSame

namespace Enumeration

variable (e : Enumeration)

-- ---------------------------------------------------------------------------
-- Every assignment is listed once
-- ---------------------------------------------------------------------------

theorem size_eq : e.size = 2 ^ e.names.toList.length := rfl

/-- The number of rows is a power of two. -/
theorem length_rows : e.rows.length = 2 ^ e.names.toList.length := by
  rw [rows, List.length_map, List.length_range, size_eq]

/-- The row at a place is the one with this number. -/
theorem getElem?_rows {k : Nat} (hk : k < 2 ^ e.names.toList.length) :
    e.rows[k]? = some (e.get k) := by
  rw [rows, List.getElem?_map, List.getElem?_range (by rwa [size_eq]), Option.map_some]

/-- No row comes twice. -/
theorem nodup_rows : e.rows.Nodup := by
  refine List.Nodup.map_on ?_ List.nodup_range
  intro j hj k hk hRow
  rw [List.mem_range, size_eq] at hj hk
  exact Assignment.ofBits_inj e.names.nodup hj hk hRow

/-- Taking the rows as a set removes none of them. -/
theorem distinct_eq_rows : e.distinct = e.rows := by
  have hErase : ∀ rows : List Assignment, rows.Nodup → rows.eraseDups = rows := by
    intro rows hNodup
    induction rows with
    | nil => rfl
    | cons a rows ih =>
      obtain ⟨hFresh, hRest⟩ := List.nodup_cons.mp hNodup
      have hKeep : rows.filter (fun b => !b == a) = rows := by
        rw [List.filter_eq_self]
        intro b hb
        have hne : b ≠ a := fun h => hFresh (h ▸ hb)
        simpa using hne
      rw [List.eraseDups_cons, hKeep, ih hRest]
  exact hErase e.rows e.nodup_rows

/-- The rows are the assignments to the names. -/
theorem mem_rows_iff {a : Assignment} : a ∈ e.rows ↔ a.names = e.names.toList := by
  rw [rows, List.mem_map]
  constructor
  · rintro ⟨k, -, rfl⟩
    exact Assignment.names_ofBits e.names.increasing k
  · intro hNames
    obtain ⟨k, hk, hRow⟩ := Assignment.exists_ofBits e.names.nodup (a := a) (by simp [hNames])
    exact ⟨k, List.mem_range.mpr (by rwa [size_eq]), hRow⟩

/-- Every row passes the checks of a bit pattern. -/
theorem ofBits?_get {k : Nat} (hk : k < 2 ^ e.names.toList.length) :
    Assignment.ofBits? (.list (Assignment.textValues e.names.toList)) (.int k) = .ok (e.get k) :=
  Assignment.ofBits?_eq_ok_iff.mpr
    ⟨_, k, rfl, rfl, hk, e.names.nodup, Assignment.ofBits_eq_enter e.names.nodup k⟩

/-- What is taken from the rows is taken in order. -/
theorem slice_eq (skip take : Nat) : e.slice skip take = (e.rows.drop skip).take take := by
  refine List.ext_getElem ?_ fun i _ _ => ?_
  · simp [slice, rows]
  · simp [slice, rows]

-- ---------------------------------------------------------------------------
-- The order
-- ---------------------------------------------------------------------------

end Enumeration

/-- At the greatest of the names where the two differ, the first assignment has
the value false and the second one the value true. -/
def Assignment.Precedes (names : List Name) (a b : Assignment) : Prop :=
  ∃ n ∈ names, a.get? n = some false ∧ b.get? n = some true ∧
    ∀ m ∈ names, n < m → a.get? m = b.get? m

namespace Enumeration

variable (e : Enumeration)

/-- In the row with number `k` each name has the bit of `k` at its place. -/
theorem get?_get (k : Nat) {i : Nat} (hi : i < e.names.toList.length) :
    (e.get k).get? e.names.toList[i] = some (k.testBit i) :=
  Assignment.get?_ofBits e.names.nodup k hi

/-- The names stand in order, so positions compare as names do. -/
theorem getElem_lt_iff {i m : Nat} (hi : i < e.names.toList.length)
    (hm : m < e.names.toList.length) : e.names.toList[i] < e.names.toList[m] ↔ i < m := by
  have hIncreasing := List.pairwise_iff_getElem.mp e.names.increasing
  constructor
  · intro hlt
    rcases Nat.lt_trichotomy i m with h | rfl | h
    · exact h
    · exact absurd hlt (Name.lt_irrefl _)
    · exact absurd (Name.lt_trans hlt (hIncreasing m i hm hi h)) (Name.lt_irrefl _)
  · exact hIncreasing i m hi hm

/-- Rows come in the order of their values. -/
theorem lt_iff_precedes {j k : Nat} (hj : j < 2 ^ e.names.toList.length)
    (hk : k < 2 ^ e.names.toList.length) :
    j < k ↔ Assignment.Precedes e.names.toList (e.get j) (e.get k) := by
  rw [lt_iff_testBit]
  constructor
  · rintro ⟨i, hFalse, hTrue, hSame⟩
    -- a digit of `k` stands at the position of a name
    have hi : i < e.names.toList.length := by
      by_contra hNot
      rw [Assignment.testBit_beyond hk (by omega)] at hTrue
      cases hTrue
    refine ⟨e.names.toList[i], List.getElem_mem hi, by rw [e.get?_get j hi, hFalse],
      by rw [e.get?_get k hi, hTrue], ?_⟩
    intro n hn hlt
    obtain ⟨m, hm, rfl⟩ := List.getElem_of_mem hn
    rw [e.get?_get j hm, e.get?_get k hm, hSame m ((e.getElem_lt_iff hi hm).mp hlt)]
  · rintro ⟨n, hn, hFalse, hTrue, hSame⟩
    obtain ⟨i, hi, rfl⟩ := List.getElem_of_mem hn
    rw [e.get?_get j hi, Option.some.injEq] at hFalse
    rw [e.get?_get k hi, Option.some.injEq] at hTrue
    refine ⟨i, hFalse, hTrue, ?_⟩
    intro m him
    rcases Nat.lt_or_ge m e.names.toList.length with hm | hm
    · have hGet := hSame _ (List.getElem_mem hm) ((e.getElem_lt_iff hi hm).mpr him)
      rwa [e.get?_get j hm, e.get?_get k hm, Option.some.injEq] at hGet
    · rw [Assignment.testBit_beyond hj hm, Assignment.testBit_beyond hk hm]

end Enumeration

/-- Sorting the texts of the rows neither adds nor loses one. -/
theorem perm_sortTexts (texts : List String) : (sortTexts texts).Perm texts :=
  List.mergeSort_perm texts _

/--
**The enumeration is complete, without repetitions, and in order.** Let `names`
be the names of the formula in increasing order. Asking for the rows succeeds
and gives `2 ^ names.length` of them; taking some of them takes them in order.
No row comes twice, so taking them as a set removes none, and the rows are the
assignments of exactly these names, each with a text of its own. Row `k`
is the assignment that the names and the number `k` pass all checks for, and
gives the `i`-th name the `i`-th binary digit of `k`; in other words, of two
rows the one comes first that has the value false at the greatest name where
they differ. Formulas with the same names have the same enumeration.
-/
theorem rows_list_all_assignments (f : Formula) :
    let names := f.names.toList
    (names.Pairwise (· < ·) ∧ ∀ n, n ∈ names ↔ n ∈ f.leaves) ∧
    ∃ e : Enumeration, (enumerate (.formula f)).result = .ok e ∧
      (Query.rows.answer (.formula f)).result = .ok (.rows e.rows) ∧
      (∀ skip take, e.slice skip take = (e.rows.drop skip).take take) ∧
      (e.rows.length = 2 ^ names.length ∧ e.rows.Nodup ∧ e.distinct = e.rows ∧
        ∀ a, a ∈ e.rows ↔ a.names = names) ∧
      (∃ texts, (Query.allRows.answer (.formula f)).result = .ok (.texts texts) ∧
        texts.Perm (e.rows.map Assignment.render) ∧ texts.Nodup ∧
        texts.length = 2 ^ names.length) ∧
      (∀ k, k < 2 ^ names.length → e.rows[k]? = some (e.get k) ∧
        Assignment.ofBits? (.list (names.map fun n => .text n.text)) (.int k) = .ok (e.get k) ∧
        ∀ i (hi : i < names.length), (e.get k).get? names[i] = some (k.testBit i)) ∧
      (∀ j k, j < 2 ^ names.length → k < 2 ^ names.length →
        (j < k ↔ Assignment.Precedes names (e.get j) (e.get k))) ∧
      ∀ g : Formula, (∀ n, n ∈ g.leaves ↔ n ∈ f.leaves) →
        (enumerate (.formula g)).result = .ok e := by
  intro names
  refine ⟨⟨f.names.increasing, fun n => Formula.mem_names⟩, f.enumeration, result_enumerate f, ?_,
    f.enumeration.slice_eq, ⟨f.enumeration.length_rows, f.enumeration.nodup_rows,
      f.enumeration.distinct_eq_rows, fun a => f.enumeration.mem_rows_iff⟩, ?_, ?_, ?_, ?_⟩
  · simp [Query.answer, result_enumerate]
  · refine ⟨sortTexts (f.enumeration.rows.map Assignment.render), ?_, perm_sortTexts _, ?_, ?_⟩
    · simp [Query.answer, result_enumerate, Enumeration.distinct_eq_rows]
    · rw [(perm_sortTexts _).nodup_iff]
      exact f.enumeration.nodup_rows.map fun a b h => Assignment.render_inj h
    · rw [(perm_sortTexts _).length_eq, List.length_map]
      exact f.enumeration.length_rows
  · intro k hk
    exact ⟨f.enumeration.getElem?_rows hk, f.enumeration.ofBits?_get hk,
      fun i hi => f.enumeration.get?_get k hi⟩
  · intro j k hj hk
    exact f.enumeration.lt_iff_precedes hj hk
  · intro g hg
    have hNames : g.names = f.names :=
      NameSet.eq_of_mem_iff fun n => by rw [Formula.mem_names, Formula.mem_names, hg]
    rw [result_enumerate, Formula.enumeration, Enumeration.ofFormula, hNames]
    rfl

/-- The names of `x2 & (x10 | Y)` are `Y`, `x10` and `x2`, in this order, so row 6
comes before row 7 and differs from it at `Y`. -/
theorem rows_list_all_assignments_sample :
    let y : Name := ⟨"Y", rfl⟩
    let x10 : Name := ⟨"x10", rfl⟩
    let x2 : Name := ⟨"x2", rfl⟩
    let f : Formula := .and (.var x2) (.or (.var x10) (.var y))
    f.names.toList = [y, x10, x2] ∧ ∃ e, (enumerate (.formula f)).result = .ok e ∧
      (e.get 6).get? y = some false ∧ (e.get 6).get? x10 = some true ∧
      (e.get 6).get? x2 = some true ∧
      Assignment.Precedes [y, x10, x2] (e.get 6) (e.get 7) := by
  intro y x10 x2 f
  have hNames : f.names.toList = [y, x10, x2] := by cbv
  obtain ⟨-, e, hResult, -, -, -, -, hRow, hOrder, -⟩ := rows_list_all_assignments f
  rw [hNames] at hRow hOrder
  obtain ⟨-, -, hDigit⟩ := hRow 6 (by decide)
  exact ⟨hNames, e, hResult, hDigit 0 (by decide), hDigit 1 (by decide), hDigit 2 (by decide),
    (hOrder 6 7 (by decide) (by decide)).mp (by decide)⟩

end TruthTable
