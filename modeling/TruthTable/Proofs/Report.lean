import TruthTable.Proofs.Verdict
import TruthTable.Report

/-!
# Listings and reports

A listing evaluates the formula on every row and fails if one evaluation
fails. The rows give every name of the formula a value, so on a formula without
holes no evaluation fails, and what is listed can be said without evaluation:
the rows by their truth values.

Main results:

* `truthTable_eq`, `satisfying_eq`, `falsifying_eq` — the listings return, and
  list the rows by truth value.
* `exists_text` — so the report on the formula can be written.
-/

namespace TruthTable

-- ---------------------------------------------------------------------------
-- Going through a list without a fault
-- ---------------------------------------------------------------------------

/-- If every call succeeds, mapping succeeds with the values. -/
theorem mapM_eq_ok {α β : Type} {k : α → Except Fault β} {g : α → β} {xs : List α}
    (h : ∀ x ∈ xs, k x = .ok (g x)) : xs.mapM k = .ok (xs.map g) := by
  induction xs with
  | nil => rfl
  | cons x xs ih =>
    rw [List.mapM_cons, h x List.mem_cons_self, ok_bind,
      ih fun y hy => h y (List.mem_cons_of_mem _ hy), ok_bind, List.map_cons]
    rfl

/-- The kept elements are collected in reverse order. -/
theorem filterAuxM_eq_ok {α : Type} {test : α → Except Fault Bool} {holds : α → Bool}
    {xs : List α} (h : ∀ x ∈ xs, test x = .ok (holds x)) (kept : List α) :
    xs.filterAuxM test kept = .ok ((xs.filter holds).reverse ++ kept) := by
  induction xs generalizing kept with
  | nil => rfl
  | cons x xs ih =>
    rw [List.filterAuxM, h x List.mem_cons_self, ok_bind,
      ih fun y hy => h y (List.mem_cons_of_mem _ hy)]
    cases hx : holds x with
    | true => simp [hx]
    | false => simp [hx]

/-- If every test succeeds, filtering succeeds with the members that pass. -/
theorem filterM_eq_ok {α : Type} {test : α → Except Fault Bool} {holds : α → Bool}
    {xs : List α} (h : ∀ x ∈ xs, test x = .ok (holds x)) :
    xs.filterM test = .ok (xs.filter holds) := by
  rw [List.filterM, filterAuxM_eq_ok h, ok_bind, List.append_nil, List.reverse_reverse]
  rfl

-- ---------------------------------------------------------------------------
-- Listings
-- ---------------------------------------------------------------------------

namespace Formula

variable {f : Formula}

/-- Evaluation on a row gives the truth value. -/
theorem eval_row (hf : f.Complete) :
    ∀ a ∈ f.enumeration.rows, f.eval a = .ok (f.value a.valuation) := by
  intro a ha
  obtain ⟨k, -, rfl⟩ := List.mem_map.mp ha
  exact eval_of_covers hf (Enumeration.covers_get f k)

/-- The truth table of a complete formula: its rows, each with the value there. -/
theorem truthTable_eq (hf : f.Complete) :
    f.truthTable = .ok (f.enumeration.rows.map fun a => (a, f.value a.valuation)) := by
  refine mapM_eq_ok fun a ha => ?_
  rw [eval_row hf a ha]
  rfl

/-- The rows where a complete formula is true. -/
theorem satisfying_eq (hf : f.Complete) :
    f.satisfying = .ok (f.enumeration.rows.filter fun a => f.value a.valuation) :=
  filterM_eq_ok (eval_row hf)

theorem falsifying_eq (hf : f.Complete) :
    f.falsifying = .ok (f.enumeration.rows.filter fun a => !f.value a.valuation) := by
  refine filterM_eq_ok fun a ha => ?_
  rw [eval_row hf a ha]
  rfl

end Formula

-- ---------------------------------------------------------------------------
-- Reports
-- ---------------------------------------------------------------------------

/-- Enumerating succeeds for every formula. -/
theorem result_enumerate (f : Formula) :
    (enumerate (.formula f)).result = .ok f.enumeration := by
  simp [enumerate, Argument.subject]

/-- A report is written on every formula without holes: none of its five
enumerations fails. -/
theorem Report.exists_text {f : Formula} (hf : f.Complete) :
    ∃ text, (Report.text f).result = .ok text := by
  obtain ⟨tautology, hTautology, -⟩ := Formula.isTautology_eq hf
  obtain ⟨contradiction, hContradiction, -⟩ := Formula.isContradiction_eq hf
  simp only [Report.text, Report.lines, Logged.result_bind, Logged.result_lift,
    Logged.result_pure, result_enumerate, result_announced, Formula.render_complete hf, hTautology,
    hContradiction, Formula.satisfying_eq hf, Formula.falsifying_eq hf, ok_bind]
  exact ⟨_, rfl⟩

end TruthTable
