import TruthTable.Proofs.Equivalence
import TruthTable.Proofs.RowOrder

/-!
# Satisfying and falsifying rows

Every row of the enumeration makes a formula true or false, so the two listings
share the rows out between them, and the truth table is what comes out when
they are merged again in the order of the rows. A negation turns every value
around: the two listings change places, and with them the verdicts.

Main results:

* `partition_filter` — a test shares out rows without repetitions, and they can
  be merged again in one way only.
* `satisfying_not`, `falsifying_not` — a negation exchanges the listings.
* `isContradiction_not`, `isTautology_not`, `classify_not` — and the verdicts.
* `listings_partition_rows` — all of it, for the questions as a caller asks them.
-/

namespace TruthTable

section Sharing

variable {α : Type}

-- ---------------------------------------------------------------------------
-- Merging
-- ---------------------------------------------------------------------------

/-- `zs` holds the members of `xs` and of `ys`, each in their order. -/
inductive Merge : List α → List α → List α → Prop
  | nil : Merge [] [] []
  | left {x : α} {xs ys zs : List α} : Merge xs ys zs → Merge (x :: xs) ys (x :: zs)
  | right {y : α} {xs ys zs : List α} : Merge xs ys zs → Merge xs (y :: ys) (y :: zs)

/-- A merge has the members of both lists. -/
theorem Merge.mem_iff {xs ys zs : List α} (h : Merge xs ys zs) (a : α) :
    a ∈ zs ↔ a ∈ xs ∨ a ∈ ys := by
  induction h with
  | nil => simp
  | left _ ih => rw [List.mem_cons, List.mem_cons, ih, or_assoc]
  | right _ ih => rw [List.mem_cons, List.mem_cons, ih, or_left_comm]

/-- A list is a merge of what passes a test and what does not. -/
theorem merge_filter (p : α → Bool) (xs : List α) :
    Merge (xs.filter p) (xs.filter fun x => !p x) xs := by
  induction xs with
  | nil => exact .nil
  | cons x xs ih =>
    cases hx : p x with
    | true => simpa [hx] using ih.left
    | false => simpa [hx] using ih.right

-- ---------------------------------------------------------------------------
-- Sharing out rows by a test
-- ---------------------------------------------------------------------------

/-- The rows, each with what a test says of it. -/
def labelled (p : α → Bool) (rows : List α) : List (α × Bool) :=
  rows.map fun a => (a, p a)

/-- Without what the test says, the rows are as they were. -/
theorem map_fst_labelled (p : α → Bool) (rows : List α) :
    (labelled p rows).map (·.1) = rows := by
  rw [labelled, List.map_map]
  exact List.map_id rows

/-- Choosing rows by their labels is choosing them by the test. -/
theorem filter_labelled (p : α → Bool) {q : Bool → Bool} {b : Bool}
    (hq : ∀ c, q c = true → c = b) (rows : List α) :
    (labelled p rows).filter (fun row => q row.2) = (rows.filter fun a => q (p a)).map (·, b) := by
  rw [labelled, List.filter_map]
  refine List.map_congr_left fun a ha => ?_
  exact Prod.ext rfl (hq _ (List.mem_filter.mp ha).2)

/-- The labelled rows that pass are those that pass, labelled. -/
theorem filter_labelled_true (p : α → Bool) (rows : List α) :
    (labelled p rows).filter (fun row => row.2) = (rows.filter p).map (·, true) :=
  filter_labelled p (q := fun c => c) (by decide) rows

theorem filter_labelled_false (p : α → Bool) (rows : List α) :
    (labelled p rows).filter (fun row => !row.2) = (rows.filter fun a => !p a).map (·, false) :=
  filter_labelled p (q := fun c => !c) (by decide) rows

variable [DecidableEq α]

/-- The labelled rows come in the order in which `rows` lists them. -/
def InOrder (rows : List α) (table : List (α × Bool)) : Prop :=
  table.Pairwise fun x y => rows.idxOf x.1 < rows.idxOf y.1

/-- Two lists share the rows out between them, and the table shows which row is
in which. -/
structure Partition (rows holding failing : List α) (table : List (α × Bool)) : Prop where
  holding_sublist : holding.Sublist rows
  failing_sublist : failing.Sublist rows
  holding_nodup : holding.Nodup
  failing_nodup : failing.Nodup
  disjoint : holding.Disjoint failing
  perm : (holding ++ failing).Perm rows
  length_eq : holding.length + failing.length = rows.length
  table_rows : table.map (·.1) = rows
  holding_eq : holding = (table.filter fun row => row.2).map (·.1)
  failing_eq : failing = (table.filter fun row => !row.2).map (·.1)
  /-- The table is the one merge of the two lists that keeps the rows in order. -/
  merge_iff : ∀ merged, merged = table ↔
    Merge (holding.map (·, true)) (failing.map (·, false)) merged ∧ InOrder rows merged

/-- Distinct rows come in the order of their indices. -/
theorem idxOf_pairwise {rows : List α} (h : rows.Nodup) :
    rows.Pairwise fun a b => rows.idxOf a < rows.idxOf b := by
  rw [List.pairwise_iff_getElem]
  intro i j hi hj hij
  rwa [h.idxOf_getElem, h.idxOf_getElem]

/-- The order of a table is that of its rows. -/
theorem inOrder_iff {rows : List α} {table : List (α × Bool)} :
    InOrder rows table ↔ (table.map (·.1)).Pairwise fun a b => rows.idxOf a < rows.idxOf b := by
  rw [InOrder, List.pairwise_map]

/-- Rows in order can only be put together in one way: the members of the list
are known, and so are their labels. -/
theorem eq_labelled_of_merge {p : α → Bool} {rows : List α} (h : rows.Nodup)
    {merged : List (α × Bool)}
    (hMerge : Merge ((rows.filter p).map (·, true)) ((rows.filter fun a => !p a).map (·, false))
      merged) (hOrder : InOrder rows merged) : merged = labelled p rows := by
  have hMem : ∀ a b, (a, b) ∈ merged ↔ a ∈ rows ∧ p a = b := by
    intro a b
    rw [hMerge.mem_iff]
    cases b <;> simp
  have hRows : merged.map (·.1) = rows := by
    have : Std.Antisymm fun a b : α => rows.idxOf a < rows.idxOf b :=
      ⟨fun a b hab hba => by omega⟩
    have : Std.Irrefl fun a b : α => rows.idxOf a < rows.idxOf b := ⟨fun a haa => by omega⟩
    refine (inOrder_iff.mp hOrder).eq_of_mem_iff (idxOf_pairwise h) fun a => ?_
    rw [List.mem_map]
    constructor
    · rintro ⟨⟨a, b⟩, hRow, rfl⟩
      exact ((hMem a b).mp hRow).1
    · intro ha
      exact ⟨(a, p a), (hMem a (p a)).mpr ⟨ha, rfl⟩, rfl⟩
  rw [labelled, ← hRows, List.map_map]
  conv_lhs => rw [← List.map_id merged]
  refine List.map_congr_left fun row hRow => ?_
  exact Prod.ext rfl ((hMem row.1 row.2).mp hRow).2.symm

/-- **A test shares out rows without repetitions.** -/
theorem partition_filter (p : α → Bool) {rows : List α} (h : rows.Nodup) :
    Partition rows (rows.filter p) (rows.filter fun a => !p a) (labelled p rows) where
  holding_sublist := List.filter_sublist
  failing_sublist := List.filter_sublist
  holding_nodup := h.filter p
  failing_nodup := h.filter _
  disjoint := by
    intro a hHolds hFails
    have hp := (List.mem_filter.mp hHolds).2
    have hNot := (List.mem_filter.mp hFails).2
    rw [hp] at hNot
    cases hNot
  perm := List.filter_append_perm p rows
  length_eq := by
    rw [← List.length_append]
    exact (List.filter_append_perm p rows).length_eq
  table_rows := map_fst_labelled p rows
  holding_eq := by
    rw [filter_labelled_true, List.map_map]
    exact (List.map_id _).symm
  failing_eq := by
    rw [filter_labelled_false, List.map_map]
    exact (List.map_id _).symm
  merge_iff := by
    intro merged
    constructor
    · rintro rfl
      rw [← filter_labelled_true, ← filter_labelled_false, inOrder_iff, map_fst_labelled]
      exact ⟨merge_filter _ _, idxOf_pairwise h⟩
    · rintro ⟨hMerge, hOrder⟩
      exact eq_labelled_of_merge h hMerge hOrder

end Sharing

-- ---------------------------------------------------------------------------
-- Negation
-- ---------------------------------------------------------------------------

/-- The verdict on the negation of a formula. -/
def Verdict.opposite : Verdict → Verdict
  | .tautology => .contradiction
  | .contradiction => .tautology
  | .contingent => .contingent

namespace Formula

variable {f : Formula}

/-- A negation has the rows of its operand. -/
theorem enumeration_not (f : Formula) : (Formula.not f).enumeration = f.enumeration := by
  rw [enumeration, enumeration, Enumeration.ofFormula, Enumeration.ofFormula, names, names,
    collect]

/-- The rows where the negation is true are those where the formula is false. -/
theorem satisfying_not (hf : f.Complete) : (Formula.not f).satisfying = f.falsifying := by
  have hNot : (Formula.not f).Complete := hf
  rw [satisfying_eq hNot, falsifying_eq hf, enumeration_not]
  rfl

theorem falsifying_not (hf : f.Complete) : (Formula.not f).falsifying = f.satisfying := by
  have hNot : (Formula.not f).Complete := hf
  rw [falsifying_eq hNot, satisfying_eq hf, enumeration_not]
  simp only [value, Bool.not_not]

/-- The negation takes a value where the formula takes the other one. -/
theorem attains_not (hf : f.Complete) (b : Bool) : (Formula.not f).Attains b ↔ f.Attains (!b) := by
  have hNot : (Formula.not f).Complete := hf
  rw [attains_iff_value hNot, attains_iff_value hf]
  refine exists_congr fun v => ?_
  rw [value, Bool.not_eq_eq_eq_not]

/-- The negation is never true exactly if the formula always is. -/
theorem isContradiction_not (hf : f.Complete) :
    (Formula.not f).isContradiction = f.isTautology := by
  refine answer_congr (isContradiction_eq (f := .not f) hf) (isTautology_eq hf) ?_
  rw [attains_not hf, Bool.not_true]

theorem isTautology_not (hf : f.Complete) :
    (Formula.not f).isTautology = f.isContradiction := by
  refine answer_congr (isTautology_eq (f := .not f) hf) (isContradiction_eq hf) ?_
  rw [attains_not hf, Bool.not_false]

/-- The negation gets the opposite verdict. -/
theorem classify_not (hf : f.Complete) :
    ∃ v, f.classify = .ok v ∧ (Formula.not f).classify = .ok v.opposite := by
  obtain ⟨v, hv, hTautology, hContradiction, -⟩ := classify_eq hf
  refine ⟨v, hv, ?_⟩
  rw [classify_eq_ok_iff (f := .not f) hf, attains_not hf, attains_not hf, Bool.not_false,
    Bool.not_true, ← hTautology, ← hContradiction]
  cases v <;> simp [Verdict.opposite]

end Formula

/--
**The listings share out the rows, and a negation exchanges them.** Let `f` be a
formula without holes. The rows that satisfy it and those that do not are
listed in the order of the rows, without repetitions; no row is in both lists,
and every one of the `2 ^ n` rows is in one of them, so together they are the
rows as a set. They are the rows of the truth table with the value true and
with the value false, and the truth table is the one merge of them that keeps
the order. The satisfying rows of the negation are the falsifying rows of `f`
and the other way round; the negation is a contradiction when `f` is a
tautology and a tautology when `f` is a contradiction, and otherwise both are
contingent.
-/
theorem listings_partition_rows (f : Formula) (hf : f.Complete) :
    ∃ (e : Enumeration) (satisfying falsifying : List Assignment)
      (table : List (Assignment × Bool)) (g : Formula),
      ((enumerate (.formula f)).result = .ok e ∧
        (Query.rows.answer (.formula f)).result = .ok (.rows e.rows) ∧
        (Query.satisfying.answer (.formula f)).result = .ok (.rows satisfying) ∧
        (Query.falsifying.answer (.formula f)).result = .ok (.rows falsifying) ∧
        (Query.truthTable.answer (.formula f)).result = .ok (.table table)) ∧
      (Partition e.rows satisfying falsifying table ∧
        satisfying.length + falsifying.length = 2 ^ f.names.size ∧
        ∀ row ∈ table, f.eval row.1 = .ok row.2) ∧
      ((∀ a, a ∈ e.distinct ↔ a ∈ satisfying ∨ a ∈ falsifying) ∧
        ∃ texts, (Query.allRows.answer (.formula f)).result = .ok (.texts texts) ∧
          texts.Perm ((satisfying ++ falsifying).map Assignment.render)) ∧
      (Formula.not? "expr" (.formula f) = .ok g ∧
        (Query.satisfying.answer (.formula g)).result = .ok (.rows falsifying) ∧
        (Query.falsifying.answer (.formula g)).result = .ok (.rows satisfying)) ∧
      ∃ (tautology contradiction : Bool) (v : Verdict),
        (Query.tautology.answer (.formula f)).result = .ok (.flag tautology) ∧
        (Query.contradiction.answer (.formula g)).result = .ok (.flag tautology) ∧
        (Query.contradiction.answer (.formula f)).result = .ok (.flag contradiction) ∧
        (Query.tautology.answer (.formula g)).result = .ok (.flag contradiction) ∧
        (Query.classify.answer (.formula f)).result = .ok (.verdict v) ∧
        (Query.classify.answer (.formula g)).result = .ok (.verdict v.opposite) := by
  have hNot : (Formula.not f).Complete := hf
  have hPartition := partition_filter (fun a => f.value a.valuation) f.enumeration.nodup_rows
  refine ⟨f.enumeration, _, _, _, .not f, ⟨result_enumerate f, ?_, ?_, ?_, ?_⟩,
    ⟨hPartition, ?_, ?_⟩, ⟨?_, ?_⟩, ⟨rfl, ?_, ?_⟩, ?_⟩
  · simp [Query.answer, result_enumerate]
  · simp [Query.answer, result_announced, Formula.satisfying_eq hf]
  · simp [Query.answer, result_announced, Formula.falsifying_eq hf]
  · simp [Query.answer, result_announced, Formula.truthTable_eq hf, labelled]
  · rw [hPartition.length_eq]
    exact f.enumeration.length_rows
  · intro row hRow
    obtain ⟨a, ha, rfl⟩ := List.mem_map.mp hRow
    exact Formula.eval_row hf a ha
  · intro a
    rw [Enumeration.distinct_eq_rows, ← hPartition.perm.mem_iff, List.mem_append]
  · refine ⟨sortTexts (f.enumeration.rows.map Assignment.render), ?_, ?_⟩
    · simp [Query.answer, result_enumerate, Enumeration.distinct_eq_rows]
    · exact (perm_sortTexts _).trans (hPartition.perm.map _).symm
  · simp [Query.answer, result_announced, Formula.satisfying_not hf, Formula.falsifying_eq hf]
  · simp [Query.answer, result_announced, Formula.falsifying_not hf, Formula.satisfying_eq hf]
  · obtain ⟨t, hTautology, -⟩ := Formula.isTautology_eq hf
    obtain ⟨c, hContradiction, -⟩ := Formula.isContradiction_eq hf
    obtain ⟨v, hVerdict, hOpposite⟩ := Formula.classify_not hf
    refine ⟨t, c, v, ?_, ?_, ?_, ?_, ?_, ?_⟩
    · simp [Query.answer, result_announced, hTautology]
    · simp [Query.answer, result_announced, Formula.isContradiction_not hf, hTautology]
    · simp [Query.answer, result_announced, hContradiction]
    · simp [Query.answer, result_announced, Formula.isTautology_not hf, hContradiction]
    · simp [Query.answer, result_classified hf, hVerdict]
    · simp [Query.answer, result_classified hNot, hOpposite]

/-- No row satisfies `p & !p`, both rows falsify it, and its negation is called a
tautology. -/
theorem listings_partition_rows_sample :
    let p : Formula := .var ⟨"p", rfl⟩
    let f : Formula := .and p (.not p)
    f.Complete ∧ f.classify = .ok .contradiction ∧
      ∃ (falsifying : List Assignment) (g : Formula),
        (Query.falsifying.answer (.formula f)).result = .ok (.rows falsifying) ∧
        falsifying.length = 2 ∧ Formula.not? "expr" (.formula f) = .ok g ∧
        (Query.satisfying.answer (.formula g)).result = .ok (.rows falsifying) ∧
        (Query.classify.answer (.formula g)).result = .ok (.verdict .tautology) := by
  intro p f
  have hf : f.Complete := ⟨trivial, trivial⟩
  have hNever : ∀ v, f.value v = false := fun v => Bool.and_not_self (v ⟨"p", rfl⟩)
  have hClassify : f.classify = .ok .contradiction := by
    rw [Formula.classify_eq_ok_iff hf, Formula.attains_iff_value hf, Formula.attains_iff_value hf]
    simp [hNever]
  have hSize : f.names.size = 1 := by cbv
  have hNone : f.satisfying = .ok [] := by
    rw [Formula.satisfying_eq hf]
    simp [hNever]
  obtain ⟨e, satisfying, falsifying, table, g, ⟨-, -, hSatisfying, hFalsifying, -⟩,
    ⟨-, hLength, -⟩, -, ⟨hNot, hSatisfying', -⟩, -, -, v, -, -, -, -, hVerdict, hOpposite⟩ :=
    listings_partition_rows f hf
  have hEmpty : satisfying = [] := by
    simpa [Query.answer, result_announced, hNone] using hSatisfying
  have hContradiction : Verdict.contradiction = v := by
    simpa [Query.answer, result_classified hf, hClassify] using hVerdict
  refine ⟨hf, hClassify, falsifying, g, hFalsifying, ?_, hNot, hSatisfying', ?_⟩
  · simpa [hSize, hEmpty] using hLength
  · rw [hOpposite, ← hContradiction]
    rfl

end TruthTable
