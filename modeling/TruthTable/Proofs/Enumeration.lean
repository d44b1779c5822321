import Mathlib.Data.Nat.Bitwise
import TruthTable.Enumeration
import TruthTable.Proofs.Evaluation
import TruthTable.Verdict

/-!
# Rows stand for all assignments

A formula is evaluated on finitely many rows only, yet a row can be found for
every assignment that covers the formula: the names of the formula have the
same values in both, and evaluation sees nothing else.

The three searches over rows stop at different points. What they find is said
by one predicate, `Shows e p b k`: from row `k` on, some row has the value `b`.

Main results:

* `covers_get`, `exists_get` — every row covers the formula, and every choice
  of values is some row.
* `shows_iff_exists_covers`  — some row has the value `b` exactly when some
  covering assignment gives it.
* `allFrom_eq`, `anyFrom_eq`, `surveyFrom_eq` — the searches return, and what
  they return is what the rows show.
-/

namespace TruthTable

namespace Enumeration

-- ---------------------------------------------------------------------------
-- Rows
-- ---------------------------------------------------------------------------

theorem get_mem_rows (e : Enumeration) {k : Nat} (hk : k < e.size) : e.get k ∈ e.rows :=
  List.mem_map.mpr ⟨k, List.mem_range.mpr hk, rfl⟩

/-- In every row every name has a value. -/
theorem covers_get (f : Formula) (k : Nat) : (f.enumeration.get k).Covers f := by
  intro n hn
  obtain ⟨i, hi, rfl⟩ := List.getElem_of_mem hn
  have hGet : (f.enumeration.get k).get? f.names.toList[i] = some (k.testBit i) :=
    Assignment.get?_ofBits f.names.nodup k hi
  rw [hGet]
  rfl

/-- Every choice of values for the names is some row. -/
theorem exists_get (e : Enumeration) (v : Name → Bool) :
    ∃ k < e.size, ∀ n ∈ e.names.toList, (e.get k).get? n = some (v n) := by
  -- the number of the row has the chosen values as its binary digits
  let digits : Fin e.names.toList.length → Bool := fun i => v e.names.toList[i]
  refine ⟨Nat.ofBits digits, Nat.ofBits_lt_two_pow digits, ?_⟩
  intro n hn
  obtain ⟨i, hi, rfl⟩ := List.getElem_of_mem hn
  rw [get, Assignment.get?_ofBits e.names.nodup _ hi, Nat.testBit_ofBits_lt digits i hi]
  rfl

-- ---------------------------------------------------------------------------
-- What rows show
-- ---------------------------------------------------------------------------

/-- From row `k` on, some row has the value `b`. -/
def Shows (e : Enumeration) (p : Assignment → Except Fault Bool) (b : Bool) (k : Nat) : Prop :=
  ∃ j, k ≤ j ∧ j < e.size ∧ p (e.get j) = .ok b

/-- No row is a fault. -/
def Sound (e : Enumeration) (p : Assignment → Except Fault Bool) : Prop :=
  ∀ k < e.size, ∃ b, p (e.get k) = .ok b

variable {e : Enumeration} {p : Assignment → Except Fault Bool} {k : Nat} {b c : Bool}

/-- What the rows from `k` on show, row `k` or a later one shows. -/
theorem shows_step (hk : k < e.size) (hRow : p (e.get k) = .ok c) :
    e.Shows p b k ↔ c = b ∨ e.Shows p b (k + 1) := by
  constructor
  · rintro ⟨j, hkj, hj, hValue⟩
    rcases Nat.eq_or_lt_of_le hkj with rfl | hlt
    · rw [hRow] at hValue
      injection hValue with hValue
      exact .inl hValue
    · exact .inr ⟨j, hlt, hj, hValue⟩
  · rintro (rfl | ⟨j, hkj, hj, hValue⟩)
    · exact ⟨k, Nat.le_refl k, hk, hRow⟩
    · exact ⟨j, by omega, hj, hValue⟩

/-- After the last row there is nothing to show. -/
theorem not_shows_end (hk : ¬ k < e.size) : ¬ e.Shows p b k := by
  rintro ⟨j, hkj, hj, -⟩
  omega

/-- Some row has the value `b` exactly when some covering assignment gives
it. -/
theorem shows_iff_exists_covers {f : Formula} (hf : f.Complete) (b : Bool) :
    f.enumeration.Shows (fun a => f.eval a) b 0 ↔
      ∃ a : Assignment, a.Covers f ∧ f.eval a = .ok b := by
  constructor
  · rintro ⟨j, -, -, hValue⟩
    exact ⟨_, covers_get f j, hValue⟩
  · rintro ⟨a, hCovers, hValue⟩
    obtain ⟨j, hj, hRow⟩ := f.enumeration.exists_get a.valuation
    refine ⟨j, Nat.zero_le j, hj, ?_⟩
    -- the row and the assignment agree on the names of the formula
    have hAgree : ∀ n ∈ f.leaves, (f.enumeration.get j).valuation n = a.valuation n := by
      intro n hn
      rw [Assignment.valuation, hRow n (Formula.mem_names.mpr hn)]
      rfl
    rw [Formula.eval_of_covers hf hCovers] at hValue
    change f.eval (f.enumeration.get j) = .ok b
    rw [Formula.eval_of_covers hf (covers_get f j), Formula.value_congr hAgree, hValue]

/-- No row of a formula without holes is a fault. -/
theorem sound_eval {f : Formula} (hf : f.Complete) :
    f.enumeration.Sound (fun a => f.eval a) :=
  fun k _ => ⟨_, Formula.eval_of_covers hf (covers_get f k)⟩

-- ---------------------------------------------------------------------------
-- The searches
-- ---------------------------------------------------------------------------

/-- The search for a row that fails. -/
theorem allFrom_eq (h : e.Sound p) (k : Nat) :
    ∃ r, e.allFrom p k = .ok r ∧ (r = true ↔ ¬ e.Shows p false k) := by
  fun_induction allFrom e p k with
  | case1 k hk hRow ih =>
    obtain ⟨r, hr, hShows⟩ := ih
    exact ⟨r, hr, by rw [hShows, shows_step hk hRow]; simp⟩
  | case2 k hk hRow =>
    exact ⟨false, rfl, by rw [shows_step hk hRow]; simp⟩
  | case3 k hk fault hRow =>
    obtain ⟨b, hb⟩ := h k hk
    rw [hb] at hRow
    cases hRow
  | case4 k hk => exact ⟨true, rfl, by simp [not_shows_end hk]⟩

/-- The search for a row that holds. -/
theorem anyFrom_eq (h : e.Sound p) (k : Nat) :
    ∃ r, e.anyFrom p k = .ok r ∧ (r = true ↔ e.Shows p true k) := by
  fun_induction anyFrom e p k with
  | case1 k hk hRow =>
    exact ⟨true, rfl, by rw [shows_step hk hRow]; simp⟩
  | case2 k hk hRow ih =>
    obtain ⟨r, hr, hShows⟩ := ih
    exact ⟨r, hr, by rw [hShows, shows_step hk hRow]; simp⟩
  | case3 k hk fault hRow =>
    obtain ⟨b, hb⟩ := h k hk
    rw [hb] at hRow
    cases hRow
  | case4 k hk => exact ⟨false, rfl, by simp [not_shows_end hk]⟩

/-- The search for both: it stops early only when nothing is left to find. -/
theorem surveyFrom_eq (h : e.Sound p) (holds fails : Bool) (k : Nat) :
    ∃ r s, e.surveyFrom p holds fails k = .ok (r, s) ∧
      (r = true ↔ holds = true ∨ e.Shows p true k) ∧
      (s = true ↔ fails = true ∨ e.Shows p false k) := by
  fun_induction surveyFrom e p holds fails k with
  | case1 holds fails k hBoth =>
    rw [Bool.and_eq_true] at hBoth
    exact ⟨true, true, rfl, by simp [hBoth.1], by simp [hBoth.2]⟩
  | case2 holds fails k _ hk hRow ih =>
    obtain ⟨r, s, hrs, hHolds, hFails⟩ := ih
    refine ⟨r, s, hrs, ?_, ?_⟩
    · rw [hHolds, shows_step hk hRow]
      simp
    · rw [hFails, shows_step hk hRow]
      simp
  | case3 holds fails k _ hk hRow ih =>
    obtain ⟨r, s, hrs, hHolds, hFails⟩ := ih
    refine ⟨r, s, hrs, ?_, ?_⟩
    · rw [hHolds, shows_step hk hRow]
      simp
    · rw [hFails, shows_step hk hRow]
      simp
  | case4 holds fails k _ hk fault hRow =>
    obtain ⟨b, hb⟩ := h k hk
    rw [hb] at hRow
    cases hRow
  | case5 holds fails k _ hk =>
    exact ⟨holds, fails, rfl, by simp [not_shows_end hk], by simp [not_shows_end hk]⟩

end Enumeration

end TruthTable
