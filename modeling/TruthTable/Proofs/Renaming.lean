import Mathlib.Data.List.Perm.Subperm
import TruthTable.Proofs.Equivalence
import TruthTable.Proofs.RowOrder

/-!
# Renaming the variables of a formula

What is asked about a formula does not depend on how its variables are called.
An injective renaming takes the rows of the formula to the rows of the renamed
formula, with the same truth values; the order of the rows may change, since
the new names may be in another order. A renaming that keeps the order of the
names keeps the order of the rows too.

Main results:

* `value_rename`           — a renamed formula has the value of the formula for
  the renamed values.
* `perm_rows_rename`       — the rows of the renamed formula are the renamed rows,
  in some order.
* `attains_rename`         — so the same truth values are attained.
* `length_filter_rename`   — and by as many rows.
* `rows_rename`            — in the same order, if the order of the names is kept.
* `answers_eq_of_attains`  — equal truth values, equal answers.
* `renaming_keeps_answers` — all of it, for the questions as a caller asks them.
-/

namespace TruthTable

-- ---------------------------------------------------------------------------
-- Renamed formulas
-- ---------------------------------------------------------------------------

namespace Formula

/-- The formula with another name at each variable. -/
def rename (ρ : Name → Name) : Formula → Formula
  | .hole => .hole
  | .constant b => .constant b
  | .var n => .var (ρ n)
  | .not a => .not (a.rename ρ)
  | .binary op l r => .binary op (l.rename ρ) (r.rename ρ)

/-- No two names of the formula get the same name. -/
def RenamesApart (ρ : Name → Name) (f : Formula) : Prop :=
  ∀ n ∈ f.names.toList, ∀ m ∈ f.names.toList, ρ n = ρ m → n = m

/-- The names of the formula keep their order. -/
def RenamesInOrder (ρ : Name → Name) (f : Formula) : Prop :=
  ∀ n ∈ f.names.toList, ∀ m ∈ f.names.toList, n < m → ρ n < ρ m

variable {ρ : Name → Name} {f : Formula}

theorem complete_rename (ρ : Name → Name) (hf : f.Complete) : (f.rename ρ).Complete := by
  induction f with
  | hole => exact hf
  | constant b => trivial
  | var n => trivial
  | not a ih => exact ih hf
  | binary op l r ihl ihr => exact ⟨ihl hf.1, ihr hf.2⟩

/-- Renaming renames the leaves in their order. -/
theorem leaves_rename (ρ : Name → Name) (f : Formula) :
    (f.rename ρ).leaves = f.leaves.map ρ := by
  induction f with
  | hole => rfl
  | constant b => rfl
  | var n => rfl
  | not a ih => exact ih
  | binary op l r ihl ihr => rw [rename, leaves_binary, leaves_binary, ihl, ihr, List.map_append]

/-- A renamed formula has the value of the formula for the renamed values. -/
theorem value_rename (ρ : Name → Name) (f : Formula) (v : Name → Bool) :
    (f.rename ρ).value v = f.value (v ∘ ρ) := by
  induction f with
  | hole => rfl
  | constant b => rfl
  | var n => rfl
  | not a ih => rw [rename, value, value, ih]
  | binary op l r ihl ihr => rw [rename, value_binary, value_binary, ihl, ihr]

/-- The names after renaming are the new names of the old ones. -/
theorem mem_names_rename {m : Name} :
    m ∈ (f.rename ρ).names.toList ↔ ∃ n ∈ f.names.toList, ρ n = m := by
  rw [mem_names, leaves_rename, List.mem_map]
  exact exists_congr fun n => and_congr_left' mem_names.symm

/-- Names that are kept apart get distinct names. -/
theorem nodup_map_names (hρ : f.RenamesApart ρ) : (f.names.toList.map ρ).Nodup :=
  List.Nodup.map_on hρ f.names.nodup

/-- Renaming may change the order of the names, but not their number. -/
theorem perm_names_rename (hρ : f.RenamesApart ρ) :
    (f.rename ρ).names.toList.Perm (f.names.toList.map ρ) := by
  rw [List.perm_ext_iff_of_nodup (f.rename ρ).names.nodup (nodup_map_names hρ)]
  intro m
  rw [mem_names_rename, List.mem_map]

/-- Names that keep their order are listed in the same order. -/
theorem names_rename (hρ : f.RenamesInOrder ρ) :
    (f.rename ρ).names.toList = f.names.toList.map ρ := by
  have hIncreasing : (f.names.toList.map ρ).Pairwise (· < ·) := by
    rw [List.pairwise_map]
    exact f.names.increasing.imp_of_mem fun hn hm hlt => hρ _ hn _ hm hlt
  refine (f.rename ρ).names.increasing.eq_of_mem_iff hIncreasing fun m => ?_
  rw [mem_names_rename, List.mem_map]

end Formula

-- ---------------------------------------------------------------------------
-- Renamed assignments
-- ---------------------------------------------------------------------------

namespace Assignment

variable {ρ : Name → Name} {a : Assignment}

/-- The entries of an assignment under other names. -/
def renamedEntries (ρ : Name → Name) (a : Assignment) : List (Name × Bool) :=
  a.entries.map fun e => (ρ e.1, e.2)

/-- The assignment with its entries under other names. -/
def rename (ρ : Name → Name) (a : Assignment) : Assignment :=
  empty.enter (a.renamedEntries ρ)

theorem map_fst_renamedEntries (ρ : Name → Name) (a : Assignment) :
    (a.renamedEntries ρ).map (·.1) = a.names.map ρ := by
  rw [renamedEntries, names, List.map_map, List.map_map]
  rfl

/-- The new name has the value of the old one. -/
theorem get?_rename_eq_some_iff (h : (a.names.map ρ).Nodup) {m : Name} {b : Bool} :
    (a.rename ρ).get? m = some b ↔ ∃ n, a.get? n = some b ∧ ρ n = m := by
  rw [rename, get?_enter_eq_some_iff (by rwa [map_fst_renamedEntries]), renamedEntries,
    List.mem_map]
  constructor
  · rintro ⟨⟨n, c⟩, hEntry, hEq⟩
    obtain ⟨rfl, rfl⟩ := Prod.mk.inj hEq
    exact ⟨n, get?_eq_some_iff.mpr hEntry, rfl⟩
  · rintro ⟨n, hGet, rfl⟩
    exact ⟨(n, b), get?_eq_some_iff.mp hGet, rfl⟩

/-- Under its new name a name has the value that it had. -/
theorem get?_rename (h : (a.names.map ρ).Nodup) {n : Name} (hn : n ∈ a.names) :
    (a.rename ρ).get? (ρ n) = a.get? n := by
  obtain ⟨b, hb⟩ := mem_names_iff_exists.mp hn
  rw [hb, get?_rename_eq_some_iff h]
  exact ⟨n, hb, rfl⟩

theorem mem_names_rename (h : (a.names.map ρ).Nodup) {m : Name} :
    m ∈ (a.rename ρ).names ↔ ∃ n ∈ a.names, ρ n = m := by
  rw [mem_names_iff_exists]
  constructor
  · rintro ⟨b, hb⟩
    obtain ⟨n, hGet, rfl⟩ := (get?_rename_eq_some_iff h).mp hb
    exact ⟨n, mem_names_iff_exists.mpr ⟨b, hGet⟩, rfl⟩
  · rintro ⟨n, hn, rfl⟩
    obtain ⟨b, hb⟩ := mem_names_iff_exists.mp hn
    exact ⟨b, (get?_rename_eq_some_iff h).mpr ⟨n, hb, rfl⟩⟩

/-- Assignments of the same names stay different. -/
theorem rename_inj {b : Assignment} (h : (a.names.map ρ).Nodup) (hNames : a.names = b.names)
    (hSame : a.rename ρ = b.rename ρ) : a = b := by
  refine ext_get? fun n => ?_
  by_cases hn : n ∈ a.names
  · rw [← get?_rename h hn, hSame, get?_rename (hNames ▸ h) (hNames ▸ hn)]
  · have hn' : n ∉ b.names := hNames ▸ hn
    rw [mem_names_iff, Option.not_isSome_iff_eq_none] at hn hn'
    rw [hn, hn']

/-- Renaming the names of a bit pattern leaves the bits in their places. -/
theorem map_bitEntries (ρ : Name → Name) (names : List Name) (bits : Nat) :
    (bitEntries names bits).map (fun e => (ρ e.1, e.2)) = bitEntries (names.map ρ) bits := by
  induction names generalizing bits with
  | nil => rfl
  | cons n names ih => rw [bitEntries_cons, List.map_cons, List.map_cons, bitEntries_cons, ih]

/-- A renamed row is the row of the renamed names with the same number. -/
theorem rename_ofBits {names : List Name} (h : names.Pairwise (· < ·))
    (hρ : (names.map ρ).Nodup) (bits : Nat) :
    (ofBits names bits).rename ρ = ofBits (names.map ρ) bits := by
  have hEntries : (bitEntries names bits).Pairwise (·.1 < ·.1) := by
    rwa [← List.pairwise_map (f := Prod.fst), map_fst_bitEntries]
  rw [rename, renamedEntries, ofBits_eq_enter h.nodup, entries_enter hEntries, map_bitEntries,
    ofBits_eq_enter hρ]

end Assignment

-- ---------------------------------------------------------------------------
-- Renamed rows
-- ---------------------------------------------------------------------------

namespace Formula

variable {ρ : Name → Name} {f : Formula} {a : Assignment}

/-- In a row too, names that are kept apart get distinct names. -/
theorem nodup_map_row (hρ : f.RenamesApart ρ) (ha : a ∈ f.enumeration.rows) :
    (a.names.map ρ).Nodup := by
  rw [f.enumeration.mem_rows_iff.mp ha]
  exact nodup_map_names hρ

/-- A renamed row makes the renamed formula true when the row makes the formula
true. -/
theorem value_rename_row (hρ : f.RenamesApart ρ) (ha : a ∈ f.enumeration.rows) :
    (f.rename ρ).value (a.rename ρ).valuation = f.value a.valuation := by
  rw [value_rename]
  refine value_congr fun n hn => ?_
  have hNames : n ∈ a.names := by
    rw [f.enumeration.mem_rows_iff.mp ha]
    exact mem_names.mpr hn
  rw [Function.comp_apply, Assignment.valuation, Assignment.valuation,
    Assignment.get?_rename (nodup_map_row hρ ha) hNames]

/-- A row of the formula is, renamed, a row of the renamed formula. -/
theorem rename_mem_rows (hρ : f.RenamesApart ρ) (ha : a ∈ f.enumeration.rows) :
    a.rename ρ ∈ (f.rename ρ).enumeration.rows := by
  have hNames := f.enumeration.mem_rows_iff.mp ha
  rw [Enumeration.mem_rows_iff]
  refine (a.rename ρ).names_pairwise.eq_of_mem_iff (f.rename ρ).names.increasing fun m => ?_
  rw [Assignment.mem_names_rename (nodup_map_row hρ ha), hNames]
  exact mem_names_rename.symm

/-- The rows of the renamed formula are the renamed rows. There are as many of
both, so it is enough that every renamed row is one. -/
theorem perm_rows_rename (hρ : f.RenamesApart ρ) :
    (f.rename ρ).enumeration.rows.Perm (f.enumeration.rows.map (Assignment.rename ρ)) := by
  have hNodup : (f.enumeration.rows.map (Assignment.rename ρ)).Nodup := by
    refine List.Nodup.map_on ?_ f.enumeration.nodup_rows
    intro a ha b hb hSame
    have hNames : a.names = b.names :=
      (f.enumeration.mem_rows_iff.mp ha).trans (f.enumeration.mem_rows_iff.mp hb).symm
    exact Assignment.rename_inj (nodup_map_row hρ ha) hNames hSame
  have hSubset : f.enumeration.rows.map (Assignment.rename ρ) ⊆ (f.rename ρ).enumeration.rows := by
    intro b hb
    obtain ⟨a, ha, rfl⟩ := List.mem_map.mp hb
    exact rename_mem_rows hρ ha
  have hLength : (f.rename ρ).enumeration.rows.length = f.enumeration.rows.length := by
    have hNames := (perm_names_rename hρ).length_eq
    rw [List.length_map] at hNames
    rw [Enumeration.length_rows, Enumeration.length_rows]
    exact congrArg (2 ^ ·) hNames
  refine ((List.subperm_of_subset hNodup hSubset).perm_of_length_le ?_).symm
  rw [hLength, List.length_map]

/-- As many rows of the renamed formula pass a test of their truth value as rows
of the formula. -/
theorem length_filter_rename (hρ : f.RenamesApart ρ) (q : Bool → Bool) :
    ((f.rename ρ).enumeration.rows.filter fun a => q ((f.rename ρ).value a.valuation)).length =
      (f.enumeration.rows.filter fun a => q (f.value a.valuation)).length := by
  rw [((perm_rows_rename hρ).filter _).length_eq, List.filter_map, List.length_map]
  congr 1
  refine List.filter_congr fun a ha => ?_
  rw [Function.comp_apply, value_rename_row hρ ha]

/-- The renamed formula attains the same truth values. -/
theorem attains_rename (hf : f.Complete) (hρ : f.RenamesApart ρ) (b : Bool) :
    (f.rename ρ).Attains b ↔ f.Attains b := by
  rw [attains_iff_value (complete_rename ρ hf), attains_iff_value hf]
  constructor
  · rintro ⟨v, hv⟩
    exact ⟨v ∘ ρ, by rw [← value_rename, hv]⟩
  · rintro ⟨v, hv⟩
    -- the row with the chosen values, renamed, gives the values of the new names
    obtain ⟨k, hk, hRow⟩ := f.enumeration.exists_get v
    refine ⟨((f.enumeration.get k).rename ρ).valuation, ?_⟩
    rw [value_rename_row hρ (f.enumeration.get_mem_rows hk), ← hv]
    refine value_congr fun n hn => ?_
    rw [Assignment.valuation, hRow n (mem_names.mpr hn)]
    rfl

-- ---------------------------------------------------------------------------
-- Names that keep their order
-- ---------------------------------------------------------------------------

/-- Names that keep their order stay different. -/
theorem RenamesInOrder.apart (hρ : f.RenamesInOrder ρ) : f.RenamesApart ρ := by
  intro n hn m hm hSame
  refine Name.eq_of_not_lt (fun hlt => ?_) fun hlt => ?_
  · exact Name.lt_irrefl _ (hSame ▸ hρ n hn m hm hlt)
  · exact Name.lt_irrefl _ (hSame ▸ hρ m hm n hn hlt)

/-- The entries of a renamed row come in the order in which they came. -/
theorem entries_rename_row (hρ : f.RenamesInOrder ρ) (ha : a ∈ f.enumeration.rows) :
    (a.rename ρ).entries = a.entries.map fun e => (ρ e.1, e.2) := by
  refine Assignment.entries_enter ?_
  rw [Assignment.renamedEntries, List.pairwise_map]
  have hNames : ∀ e ∈ a.entries, e.1 ∈ f.names.toList := by
    intro e he
    have hMem : e.1 ∈ a.names := List.mem_map.mpr ⟨e, he, rfl⟩
    rwa [f.enumeration.mem_rows_iff.mp ha] at hMem
  exact a.increasing.imp_of_mem fun he he' hlt => hρ _ (hNames _ he) _ (hNames _ he') hlt

/-- The rows come in the order in which they came. -/
theorem rows_rename (hρ : f.RenamesInOrder ρ) :
    (f.rename ρ).enumeration.rows = f.enumeration.rows.map (Assignment.rename ρ) := by
  have hNames : (f.rename ρ).enumeration.names.toList = f.enumeration.names.toList.map ρ :=
    names_rename hρ
  have hRow : ∀ k, (f.rename ρ).enumeration.get k = (f.enumeration.get k).rename ρ := by
    intro k
    rw [Enumeration.get, Enumeration.get, hNames,
      Assignment.rename_ofBits f.enumeration.names.increasing (nodup_map_names hρ.apart)]
  have hSize : (f.rename ρ).enumeration.size = f.enumeration.size := by
    rw [Enumeration.size_eq, Enumeration.size_eq, hNames, List.length_map]
  rw [Enumeration.rows, Enumeration.rows, hSize, List.map_map]
  exact List.map_congr_left fun k _ => hRow k

/-- The truth values come in the order in which they came. -/
theorem map_value_rows_rename (hρ : f.RenamesInOrder ρ) :
    ((f.rename ρ).enumeration.rows.map fun a => (f.rename ρ).value a.valuation) =
      f.enumeration.rows.map fun a => f.value a.valuation := by
  rw [rows_rename hρ, List.map_map]
  exact List.map_congr_left fun a ha => value_rename_row hρ.apart ha

-- ---------------------------------------------------------------------------
-- Verdicts
-- ---------------------------------------------------------------------------

/-- Formulas that attain the same truth values get the same answers. -/
theorem verdicts_eq_of_attains {g : Formula} (hf : f.Complete) (hg : g.Complete)
    (h : ∀ b, g.Attains b ↔ f.Attains b) :
    g.isTautology = f.isTautology ∧ g.isContradiction = f.isContradiction ∧
      g.isSatisfiable = f.isSatisfiable ∧ g.classify = f.classify := by
  refine ⟨?_, ?_, ?_, ?_⟩
  · exact answer_congr (isTautology_eq hg) (isTautology_eq hf) (not_congr (h false))
  · exact answer_congr (isContradiction_eq hg) (isContradiction_eq hf) (not_congr (h true))
  · exact answer_congr (isSatisfiable_eq hg) (isSatisfiable_eq hf) (h true)
  · obtain ⟨v, hv, hTautology, hContradiction, -⟩ := classify_eq hf
    rw [hv, classify_eq_ok_iff hg, h, h]
    exact ⟨hTautology, hContradiction⟩

end Formula

/-- Formulas that attain the same truth values get the same answers from a
caller's questions about their status. -/
theorem answers_eq_of_attains {f g : Formula} (hf : f.Complete) (hg : g.Complete)
    (h : ∀ b, g.Attains b ↔ f.Attains b) :
    ∀ q ∈ [Query.tautology, .contradiction, .satisfiable, .classify],
      ∃ answer, (q.answer (.formula f)).result = .ok answer ∧
        (q.answer (.formula g)).result = .ok answer := by
  obtain ⟨hTautology, hContradiction, hSatisfiable, hClassify⟩ :=
    Formula.verdicts_eq_of_attains hf hg h
  obtain ⟨t, ht, -⟩ := Formula.isTautology_eq hf
  obtain ⟨c, hc, -⟩ := Formula.isContradiction_eq hf
  obtain ⟨s, hs, -⟩ := Formula.isSatisfiable_eq hf
  obtain ⟨v, hv, -⟩ := Formula.classify_eq hf
  intro q hq
  simp only [List.mem_cons, List.not_mem_nil, or_false] at hq
  rcases hq with rfl | rfl | rfl | rfl
  · exact ⟨.flag t, by simp [Query.answer, result_announced, ht],
      by simp [Query.answer, result_announced, hTautology, ht]⟩
  · exact ⟨.flag c, by simp [Query.answer, result_announced, hc],
      by simp [Query.answer, result_announced, hContradiction, hc]⟩
  · exact ⟨.flag s, by simp [Query.answer, result_announced, hs],
      by simp [Query.answer, result_announced, hSatisfiable, hs]⟩
  · exact ⟨.verdict v, by simp [Query.answer, result_classified hf, hv],
      by simp [Query.answer, result_classified hg, hClassify, hv]⟩

/--
**Names matter through their order alone.** Let `g` be a formula without holes
with its variables renamed so that different names stay different. All four
questions about its logical status have the same answer for `g` as for `f`, and
as many rows satisfy and falsify the one as the other. If the new names are in
the order of the old ones, then the truth tables show the same truth values in
the same order, and every row of `g` has the entries of the row of `f` with the
same number, under the new names.
-/
theorem renaming_keeps_answers (f : Formula) (hf : f.Complete) (ρ : Name → Name)
    (hρ : ∀ n ∈ f.names.toList, ∀ m ∈ f.names.toList, ρ n = ρ m → n = m) :
    let g := f.rename ρ
    (∀ q ∈ [Query.tautology, .contradiction, .satisfiable, .classify],
      ∃ answer, (q.answer (.formula f)).result = .ok answer ∧
        (q.answer (.formula g)).result = .ok answer) ∧
    (∀ q ∈ [Query.satisfying, .falsifying], ∃ rows renamed : List Assignment,
      (q.answer (.formula f)).result = .ok (.rows rows) ∧
      (q.answer (.formula g)).result = .ok (.rows renamed) ∧ renamed.length = rows.length) ∧
    ((∀ n ∈ f.names.toList, ∀ m ∈ f.names.toList, n < m → ρ n < ρ m) →
      (∃ table renamed : List (Assignment × Bool),
        (Query.truthTable.answer (.formula f)).result = .ok (.table table) ∧
        (Query.truthTable.answer (.formula g)).result = .ok (.table renamed) ∧
        renamed.map (·.2) = table.map (·.2)) ∧
      ∃ rows renamed : List Assignment,
        (Query.rows.answer (.formula f)).result = .ok (.rows rows) ∧
        (Query.rows.answer (.formula g)).result = .ok (.rows renamed) ∧
        renamed.length = rows.length ∧
        ∀ (k : Nat) (a : Assignment), rows[k]? = some a → ∃ b : Assignment, renamed[k]? = some b ∧
          b.entries = a.entries.map fun e => (ρ e.1, e.2)) := by
  intro g
  have hg : g.Complete := Formula.complete_rename ρ hf
  refine ⟨answers_eq_of_attains hf hg fun b => Formula.attains_rename hf hρ b, ?_, ?_⟩
  · intro q hq
    simp only [List.mem_cons, List.not_mem_nil, or_false] at hq
    rcases hq with rfl | rfl
    · refine ⟨_, _, ?_, ?_, Formula.length_filter_rename hρ fun b => b⟩
      · simp [Query.answer, result_announced, Formula.satisfying_eq hf]
      · simp [Query.answer, result_announced, Formula.satisfying_eq hg, g]
    · refine ⟨_, _, ?_, ?_, Formula.length_filter_rename hρ fun b => !b⟩
      · simp [Query.answer, result_announced, Formula.falsifying_eq hf]
      · simp [Query.answer, result_announced, Formula.falsifying_eq hg, g]
  · intro hOrder
    refine ⟨⟨f.enumeration.rows.map fun a => (a, f.value a.valuation),
      g.enumeration.rows.map fun a => (a, g.value a.valuation), ?_, ?_, ?_⟩,
      f.enumeration.rows, g.enumeration.rows, ?_, ?_, ?_, ?_⟩
    · simp [Query.answer, result_announced, Formula.truthTable_eq hf]
    · simp [Query.answer, result_announced, Formula.truthTable_eq hg]
    · rw [List.map_map, List.map_map]
      exact Formula.map_value_rows_rename hOrder
    · simp [Query.answer, result_enumerate]
    · simp [Query.answer, result_enumerate]
    · rw [Formula.rows_rename hOrder, List.length_map]
    · intro k a hRow
      refine ⟨a.rename ρ, ?_, Formula.entries_rename_row hOrder (List.mem_of_getElem? hRow)⟩
      rw [Formula.rows_rename hOrder, List.getElem?_map, hRow, Option.map_some]

/-- `x10 & !x2` is `p & !q` under other names, which keep their order; its row
number 1 gives `x10` what row number 1 of `p & !q` gives `p`. -/
theorem renaming_keeps_answers_sample :
    let p : Name := ⟨"p", rfl⟩
    let q : Name := ⟨"q", rfl⟩
    let x10 : Name := ⟨"x10", rfl⟩
    let x2 : Name := ⟨"x2", rfl⟩
    let f : Formula := .and (.var p) (.not (.var q))
    let g : Formula := .and (.var x10) (.not (.var x2))
    let ρ : Name → Name := fun n => if n = p then x10 else x2
    f.Complete ∧ f.names.toList = [p, q] ∧
      (∀ n ∈ f.names.toList, ∀ m ∈ f.names.toList, ρ n = ρ m → n = m) ∧
      (∀ n ∈ f.names.toList, ∀ m ∈ f.names.toList, n < m → ρ n < ρ m) ∧ f.rename ρ = g ∧
      ∃ (renamed : List Assignment) (b : Assignment),
        (Query.rows.answer (.formula g)).result = .ok (.rows renamed) ∧ renamed[1]? = some b ∧
        b.entries = [(x10, true), (x2, false)] := by
  intro p q x10 x2 f g ρ
  have hf : f.Complete := ⟨trivial, trivial⟩
  have hNames : f.names.toList = [p, q] := by cbv
  have hApart : ∀ n ∈ f.names.toList, ∀ m ∈ f.names.toList, ρ n = ρ m → n = m := by
    rw [hNames]
    decide
  have hOrder : ∀ n ∈ f.names.toList, ∀ m ∈ f.names.toList, n < m → ρ n < ρ m := by
    rw [hNames]
    decide
  obtain ⟨-, -, hKept⟩ := renaming_keeps_answers f hf ρ hApart
  obtain ⟨-, rows, renamed, hRows, hRenamed, -, hRow⟩ := hKept hOrder
  have hFirst : rows[1]? = some (f.enumeration.get 1) := by
    have hAll : f.enumeration.rows = rows := by
      simpa [Query.answer, result_enumerate] using hRows
    rw [← hAll]
    cbv
  obtain ⟨b, hb, hEntries⟩ := hRow 1 _ hFirst
  have hEntry : (f.enumeration.get 1).entries = [(p, true), (q, false)] := by cbv
  refine ⟨hf, hNames, hApart, hOrder, rfl, renamed, b, hRenamed, hb, ?_⟩
  rw [hEntries, hEntry]
  rfl

end TruthTable
