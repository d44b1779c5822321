import Mathlib.Data.List.Basic
import Mathlib.Data.List.Infix

/-!
# Cutting texts into segments

A text that is put together from segments can be taken apart again when the
end of each segment can be seen: by a character that no segment holds, or
because no segment starts another one.

Main results:

* `cut_unique`      — a text is cut in one way before the first character that
  the front part cannot hold.
* `intercalate_inj` — items with a separator between them can be told apart.
* `ended_prefix`    — lines with a line feed after each can be told apart, also
  when more text follows.
* `join_inj`        — so can texts of which none starts another one.
-/

namespace TruthTable

/-- The front parts hold characters of one kind, and what follows them starts
with another kind. -/
theorem cut_unique {α : Type} {p : α → Prop} {l m r s : List α} (hl : ∀ x ∈ l, p x)
    (hm : ∀ x ∈ m, p x) (hr : ∀ x ∈ r.head?, ¬ p x) (hs : ∀ x ∈ s.head?, ¬ p x)
    (h : l ++ r = m ++ s) : l = m ∧ r = s := by
  induction l generalizing m with
  | nil =>
    cases m with
    | nil => exact ⟨rfl, h⟩
    | cons y m =>
      have hy : y ∈ r.head? := by
        rw [List.nil_append] at h
        simp [h]
      exact absurd (hm y List.mem_cons_self) (hr y hy)
  | cons x l ih =>
    cases m with
    | nil =>
      have hx : x ∈ s.head? := by
        rw [List.nil_append] at h
        simp [← h]
      exact absurd (hl x List.mem_cons_self) (hs x hx)
    | cons y m =>
      rw [List.cons_append, List.cons_append, List.cons.injEq] at h
      obtain ⟨rfl, h⟩ := h
      obtain ⟨rfl, hRest⟩ := ih (fun z hz => hl z (List.mem_cons_of_mem _ hz))
        (fun z hz => hm z (List.mem_cons_of_mem _ hz)) h
      exact ⟨rfl, hRest⟩

-- ---------------------------------------------------------------------------
-- Numbers
-- ---------------------------------------------------------------------------

theorem toList_toString (n : Nat) : (toString n).toList = Nat.toDigits 10 n := by
  rw [Nat.toString_eq_repr, Nat.toList_repr]

/-- A number is written in digits. -/
theorem isDigit_of_mem_toString {n : Nat} {c : Char} (hc : c ∈ (toString n).toList) :
    c.isDigit = true := by
  rw [toList_toString] at hc
  exact Nat.isDigit_of_mem_toDigits (by decide) (by decide) hc

/-- A number ends at the first character that is no digit. -/
theorem number_unique {n m : Nat} {r s : List Char} (hr : ∀ c ∈ r.head?, ¬ c.isDigit = true)
    (hs : ∀ c ∈ s.head?, ¬ c.isDigit = true)
    (h : (toString n).toList ++ r = (toString m).toList ++ s) : n = m ∧ r = s := by
  obtain ⟨hDigits, hRest⟩ := cut_unique (p := fun c : Char => c.isDigit = true)
    (fun _ hc => isDigit_of_mem_toString hc) (fun _ hc => isDigit_of_mem_toString hc) hr hs h
  rw [toList_toString, toList_toString] at hDigits
  have hEq := congrArg (Nat.ofDigitChars 10 · 0) hDigits
  simp only [Nat.ofDigitChars_ten_toDigits] at hEq
  exact ⟨hEq, hRest⟩

-- ---------------------------------------------------------------------------
-- Separators between items
-- ---------------------------------------------------------------------------

/-- What follows the first of several items. -/
theorem intercalate_cons {α : Type} (sep x : List α) (xs : List (List α)) :
    sep.intercalate (x :: xs) = x ++ if xs = [] then [] else sep ++ sep.intercalate xs := by
  cases xs with
  | nil => simp
  | cons y ys => simp [List.intercalate_cons_cons]

/-- A separator stands before the last member, unless it is the only one. -/
theorem intercalate_concat {α : Type} (sep : List α) (xs : List (List α)) (x : List α) :
    sep.intercalate (xs ++ [x]) = (if xs = [] then [] else sep.intercalate xs ++ sep) ++ x := by
  induction xs with
  | nil => simp
  | cons y ys ih =>
    rw [List.cons_append, intercalate_cons, intercalate_cons, ih]
    by_cases hys : ys = []
    · simp [hys]
    · simp [hys]

/-- No item is empty, and the separator starts with what no item holds. -/
theorem intercalate_inj {α : Type} {p : α → Prop} {a : α} {sep : List α} (ha : ¬ p a)
    {xs ys : List (List α)} (hxs : ∀ x ∈ xs, x ≠ [] ∧ ∀ c ∈ x, p c)
    (hys : ∀ y ∈ ys, y ≠ [] ∧ ∀ c ∈ y, p c)
    (h : (a :: sep).intercalate xs = (a :: sep).intercalate ys) : xs = ys := by
  -- the rest after an item is empty or starts with the separator
  have hStop : ∀ zs : List (List α),
      ∀ c ∈ (if zs = [] then [] else (a :: sep) ++ (a :: sep).intercalate zs).head?, ¬ p c := by
    intro zs c hc
    by_cases hzs : zs = []
    · simp [hzs] at hc
    · simp only [hzs, if_false, List.cons_append, List.head?_cons, Option.mem_def,
        Option.some.injEq] at hc
      exact hc ▸ ha
  induction xs generalizing ys with
  | nil =>
    cases ys with
    | nil => rfl
    | cons y ys =>
      rw [intercalate_cons, List.intercalate_nil] at h
      have hy := (List.append_eq_nil_iff.mp h.symm).1
      exact absurd hy (hys y List.mem_cons_self).1
  | cons x xs ih =>
    cases ys with
    | nil =>
      rw [intercalate_cons, List.intercalate_nil] at h
      have hx := (List.append_eq_nil_iff.mp h).1
      exact absurd hx (hxs x List.mem_cons_self).1
    | cons y ys =>
      rw [intercalate_cons, intercalate_cons] at h
      obtain ⟨rfl, hRest⟩ := cut_unique (hxs x List.mem_cons_self).2 (hys y List.mem_cons_self).2
        (hStop xs) (hStop ys) h
      by_cases hx : xs = []
      · by_cases hy : ys = []
        · rw [hx, hy]
        · simp [hx, hy] at hRest
      · by_cases hy : ys = []
        · simp [hx, hy] at hRest
        · rw [if_neg hx, if_neg hy] at hRest
          rw [ih (fun z hz => hxs z (List.mem_cons_of_mem _ hz))
            (fun z hz => hys z (List.mem_cons_of_mem _ hz)) (List.append_cancel_left hRest)]

-- ---------------------------------------------------------------------------
-- Lines
-- ---------------------------------------------------------------------------

/-- A text on one line. -/
def OneLine (s : String) : Prop :=
  '\n' ∉ s.toList

instance (s : String) : Decidable (OneLine s) :=
  inferInstanceAs (Decidable ('\n' ∉ s.toList))

/-- Two texts on one line each stay on one line. -/
theorem OneLine.append {s t : String} (hs : OneLine s) (ht : OneLine t) : OneLine (s ++ t) := by
  intro h
  rw [String.toList_append, List.mem_append] at h
  exact h.elim hs ht

/-- Texts on one line each stay on it, with a separator that does. -/
theorem OneLine.intercalate {sep : String} {items : List String} (hSep : OneLine sep)
    (hItems : ∀ s ∈ items, OneLine s) : OneLine (sep.intercalate items) := by
  induction items with
  | nil => simp [OneLine]
  | cons s items ih =>
    have hRest := ih fun t ht => hItems t (List.mem_cons_of_mem _ ht)
    rw [OneLine, String.toList_intercalate] at hRest ⊢
    rw [List.map_cons, intercalate_cons, List.mem_append, not_or]
    refine ⟨hItems s List.mem_cons_self, ?_⟩
    split
    · exact List.not_mem_nil
    · rw [List.mem_append, not_or]
      exact ⟨hSep, hRest⟩

/-- The characters of lines with a line feed after each. -/
def ended (lines : List String) : List Char :=
  lines.flatMap fun line => line.toList ++ ['\n']

@[simp]
theorem ended_nil : ended [] = [] := rfl

theorem ended_cons (line : String) (lines : List String) :
    ended (line :: lines) = line.toList ++ '\n' :: ended lines := by
  simp [ended]

/-- The characters of lines that end in line feeds. -/
theorem toList_join_ended (lines : List String) :
    (String.join (lines.map (· ++ "\n"))).toList = ended lines := by
  simp [String.toList_join, ended, List.flatMap_map]

/-- A line ends at its line feed, whatever follows. -/
theorem line_unique {s t : String} (hs : OneLine s) (ht : OneLine t) {r r' : List Char}
    (h : s.toList ++ '\n' :: r = t.toList ++ '\n' :: r') : s = t ∧ r = r' := by
  have hText : ∀ u : String, OneLine u → ∀ c ∈ u.toList, c ≠ '\n' := by
    rintro u hu c hc rfl
    exact hu hc
  have hStop : ∀ rest : List Char, ∀ c ∈ ('\n' :: rest).head?, ¬ c ≠ '\n' := by
    intro rest c hc
    simpa using hc.symm
  obtain ⟨hEq, hRest⟩ := cut_unique (hText s hs) (hText t ht) (hStop r) (hStop r') h
  exact ⟨String.toList_inj.mp hEq, (List.cons.inj hRest).2⟩

/-- Text that starts with some lines has these lines first. -/
theorem ended_prefix {lines others : List String} (hLines : ∀ s ∈ lines, OneLine s)
    (hOthers : ∀ s ∈ others, OneLine s) (h : ended lines <+: ended others) :
    lines <+: others := by
  induction lines generalizing others with
  | nil => exact List.nil_prefix
  | cons s lines ih =>
    cases others with
    | nil =>
      rw [ended_cons, ended_nil, List.prefix_nil] at h
      simp at h
    | cons t others =>
      obtain ⟨rest, h⟩ := h
      rw [ended_cons, ended_cons, List.append_assoc, List.cons_append] at h
      obtain ⟨rfl, hRest⟩ :=
        line_unique (hLines s List.mem_cons_self) (hOthers t List.mem_cons_self) h
      have hTail := ih (fun u hu => hLines u (List.mem_cons_of_mem _ hu))
        (fun u hu => hOthers u (List.mem_cons_of_mem _ hu)) ⟨rest, hRest⟩
      exact (List.prefix_cons_inj s).mpr hTail

/-- The characters tell the lines, if there is no line feed inside. -/
theorem ended_inj {lines others : List String} (hLines : ∀ s ∈ lines, OneLine s)
    (hOthers : ∀ s ∈ others, OneLine s) (h : ended lines = ended others) : lines = others := by
  have hFront := ended_prefix hLines hOthers (h ▸ List.prefix_rfl)
  have hBack := ended_prefix hOthers hLines (h ▸ List.prefix_rfl)
  exact hFront.eq_of_length_le hBack.length_le

-- ---------------------------------------------------------------------------
-- Texts that end themselves
-- ---------------------------------------------------------------------------

/-- Texts of which none is empty and none starts another one can be told apart
without anything between them. -/
theorem join_inj {p : String → Prop} (hEmpty : ¬ p "")
    (hPrefix : ∀ s t, p s → p t → s.toList <+: t.toList → s = t) {ss ts : List String}
    (hss : ∀ s ∈ ss, p s) (hts : ∀ t ∈ ts, p t) (h : String.join ss = String.join ts) :
    ss = ts := by
  have hChars := congrArg String.toList h
  rw [String.toList_join, String.toList_join] at hChars
  clear h
  induction ss generalizing ts with
  | nil =>
    cases ts with
    | nil => rfl
    | cons t ts =>
      rw [List.flatMap_nil, List.flatMap_cons] at hChars
      have ht := String.toList_eq_nil_iff.mp (List.append_eq_nil_iff.mp hChars.symm).1
      exact absurd (ht ▸ hts t List.mem_cons_self) hEmpty
  | cons s ss ih =>
    have hs := hss s List.mem_cons_self
    cases ts with
    | nil =>
      rw [List.flatMap_nil, List.flatMap_cons] at hChars
      have hNil := String.toList_eq_nil_iff.mp (List.append_eq_nil_iff.mp hChars).1
      exact absurd (hNil ▸ hs) hEmpty
    | cons t ts =>
      have ht := hts t List.mem_cons_self
      rw [List.flatMap_cons, List.flatMap_cons] at hChars
      -- both first texts start the same text, so one of them starts the other
      have hFirst : s.toList <+: t.toList ∨ t.toList <+: s.toList :=
        List.prefix_or_prefix_of_prefix ⟨_, rfl⟩ ⟨_, hChars.symm⟩
      have hEq : s = t := by
        rcases hFirst with hFirst | hFirst
        · exact hPrefix s t hs ht hFirst
        · exact (hPrefix t s ht hs hFirst).symm
      subst hEq
      rw [ih (fun u hu => hss u (List.mem_cons_of_mem _ hu))
        (fun u hu => hts u (List.mem_cons_of_mem _ hu)) (List.append_cancel_left hChars)]

end TruthTable
