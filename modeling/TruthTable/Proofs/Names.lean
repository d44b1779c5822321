import Mathlib.Data.List.Sort
import TruthTable.Assignment.Checked

/-!
# Names and sets of names

What the characters of a name are, which values of a caller stand for names,
and that a set of names is determined by its members.

Main results:

* `Name.toList_text`      — a name is a letter, then letters and digits.
* `Name.ofValue?_cases`   — a value is the text of a name, or is refused as an
  argument.
* `Name.quoted_text`      — between quotes a name needs no escapes.
* `NameSet.eq_of_mem_iff` — sets with the same members are equal.
-/

namespace TruthTable

-- ---------------------------------------------------------------------------
-- Letters and digits
-- ---------------------------------------------------------------------------

/-- The code points of the letters. -/
theorem toNat_of_isAlpha {c : Char} (h : c.isAlpha = true) :
    65 ≤ c.toNat ∧ c.toNat ≤ 90 ∨ 97 ≤ c.toNat ∧ c.toNat ≤ 122 := by
  have hRange : (decide (c.val ≥ 'A'.val ∧ c.val ≤ 'Z'.val) ||
      (decide (c.val ≥ 'a'.val) && decide (c.val ≤ 'z'.val))) = true := h
  simpa [UInt32.le_iff_toNat_le] using hRange

/-- Letters and digits lie between 0 and z. -/
theorem toNat_of_isAlphanum {c : Char} (h : c.isAlphanum = true) :
    48 ≤ c.toNat ∧ c.toNat ≤ 122 := by
  rw [Char.isAlphanum, Bool.or_eq_true] at h
  rcases h with h | h
  · have := toNat_of_isAlpha h
    omega
  · have hRange : (decide (c.val ≥ '0'.val) && decide (c.val ≤ '9'.val)) = true := h
    have hDigit : 48 ≤ c.toNat ∧ c.toNat ≤ 57 := by
      simpa [UInt32.le_iff_toNat_le] using hRange
    omega

namespace Name

/-- A name is a letter, then letters and digits. -/
theorem toList_text (w : Name) : ∃ c cs, w.text.toList = c :: cs ∧ c.isAlpha = true ∧
    ∀ d ∈ cs, d.isAlphanum = true := by
  have hValid := w.valid
  unfold isName at hValid
  split at hValid
  · cases hValid
  · rename_i c cs hChars
    rw [Bool.and_eq_true, List.all_eq_true] at hValid
    exact ⟨c, cs, hChars, hValid⟩

/-- A name has letters and digits only. -/
theorem isAlphanum_of_mem {n : Name} {c : Char} (hc : c ∈ n.text.toList) :
    c.isAlphanum = true := by
  obtain ⟨d, ds, hText, hAlpha, hRest⟩ := toList_text n
  rw [hText] at hc
  rcases List.mem_cons.mp hc with rfl | hc
  · rw [Char.isAlphanum, hAlpha, Bool.true_or]
  · exact hRest c hc

theorem toList_text_ne_nil (n : Name) : n.text.toList ≠ [] := by
  obtain ⟨d, ds, hText, -, -⟩ := toList_text n
  rw [hText]
  exact List.cons_ne_nil d ds

theorem isEmpty_text (n : Name) : n.text.isEmpty = false := by
  rw [Bool.eq_false_iff]
  intro hEmpty
  exact n.toList_text_ne_nil (by rw [String.isEmpty_iff.mp hEmpty]; rfl)

/-- Names with the same text are the same. -/
theorem text_inj {n m : Name} (h : n.text = m.text) : n = m := by
  cases n
  cases m
  simpa using h

-- ---------------------------------------------------------------------------
-- Names from texts and values
-- ---------------------------------------------------------------------------

/-- The text of a name is that of a name. -/
theorem ofString?_text (n : Name) : ofString? n.text = some n := by
  rw [ofString?, dif_pos n.valid]

/-- What a text is read as has this text. -/
theorem eq_text_of_ofString? {s : String} {n : Name} (h : ofString? s = some n) : s = n.text := by
  unfold ofString? at h
  split at h
  · injection h with h
    rw [← h]
  · cases h

theorem ofValue?_text (n : Name) : ofValue? (.text n.text) = .ok n := by
  simp [ofValue?, n.isEmpty_text, n.ofString?_text]

/-- A value is the text of a name, or it is refused as an argument. -/
theorem ofValue?_cases (v : Value) :
    (∃ n : Name, v = .text n.text ∧ ofValue? v = .ok n) ∨
    ((∀ n : Name, v ≠ .text n.text) ∧ ∃ cause, ofValue? v = .error (.argument cause)) := by
  cases hValue : ofValue? v with
  | ok n =>
    refine .inl ⟨n, ?_, rfl⟩
    unfold ofValue? at hValue
    split at hValue
    · cases hValue
    · split at hValue
      · cases hValue
      · split at hValue
        · rename_i m hName
          injection hValue with hValue
          rw [← hValue, eq_text_of_ofString? hName]
        · cases hValue
    · cases hValue
  | error fault =>
    refine .inr ⟨?_, ?_⟩
    · rintro n rfl
      rw [ofValue?_text] at hValue
      cases hValue
    · unfold ofValue? at hValue
      split at hValue
      · exact ⟨_, hValue.symm⟩
      · split at hValue
        · exact ⟨_, hValue.symm⟩
        · split at hValue
          · cases hValue
          · exact ⟨_, hValue.symm⟩
      · exact ⟨_, hValue.symm⟩

-- ---------------------------------------------------------------------------
-- Names between quotes
-- ---------------------------------------------------------------------------

/-- A letter or digit is shown as it is. -/
theorem quotedChar_of_isAlphanum {c : Char} (h : c.isAlphanum = true) :
    Text.quotedChar '\'' c = [c] := by
  have hRange := toNat_of_isAlphanum h
  have hne : ∀ d : Char, d.isAlphanum = false → c ≠ d := by
    rintro d hd rfl
    rw [hd] at h
    cases h
  have hPrintable : Text.isPrintable c = true := by
    rw [Text.isPrintable]
    simp only [show c.toNat < 0x7F by omega, if_true, decide_eq_true_eq]
    omega
  simp [Text.quotedChar, Text.quotedWith, hPrintable, hne '\'' (by decide), hne '\\' (by decide),
    hne '\n' (by decide), hne '\r' (by decide), hne '\t' (by decide)]

/-- Between quotes a name needs no escapes. -/
theorem quoted_text (n : Name) : Text.quoted n.text = "'" ++ n.text ++ "'" := by
  have hQuote : Text.quoteFor n.text.toList = '\'' := by
    have hAbsent : '\'' ∉ n.text.toList := fun h => absurd (isAlphanum_of_mem h) (by decide)
    simp [Text.quoteFor, hAbsent]
  have hChars : ∀ cs : List Char, (∀ c ∈ cs, c.isAlphanum = true) →
      cs.flatMap (Text.quotedChar '\'') = cs := by
    intro cs h
    rw [List.flatMap_congr fun c hc => quotedChar_of_isAlphanum (h c hc)]
    exact List.flatMap_singleton' cs
  rw [Text.quoted, hQuote, hChars _ fun c hc => isAlphanum_of_mem hc, ← String.toList_inj]
  simp

instance : Std.Irrefl (α := Name) (· < ·) := ⟨lt_irrefl⟩

instance : Std.Antisymm (α := Name) (· < ·) :=
  ⟨fun a _ hab hba => absurd (lt_trans hab hba) (lt_irrefl a)⟩

end Name

-- ---------------------------------------------------------------------------
-- Sets of names
-- ---------------------------------------------------------------------------

namespace NameSet

/-- A set with a name added has this name and those from before. -/
theorem mem_insert {s : NameSet} {n x : Name} :
    x ∈ (s.insert n).toList ↔ x = n ∨ x ∈ s.toList :=
  mem_insertInto

/-- No member is listed twice. -/
theorem nodup (s : NameSet) : s.toList.Nodup :=
  s.increasing.nodup

/-- Sets with the same list of names are the same. -/
theorem ext {s t : NameSet} (h : s.toList = t.toList) : s = t := by
  cases s
  cases t
  simpa using h

/-- Sets with the same members are equal. -/
theorem eq_of_mem_iff {s t : NameSet} (h : ∀ n, n ∈ s.toList ↔ n ∈ t.toList) : s = t :=
  ext (s.increasing.eq_of_mem_iff t.increasing h)

end NameSet

end TruthTable
