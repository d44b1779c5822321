/-!
# Tables

A table is a list of keys with what they stand for; `List.lookup` finds what stands first. The two
changes of a table, putting an entry and adjusting one, are told by what is found afterwards.
-/

namespace TruthTable.Table

variable {κ α : Type} [BEq κ]

/-- Puts an entry, in place of those with the same key. -/
def put (entries : List (κ × α)) (key : κ) (a : α) : List (κ × α) :=
  (key, a) :: entries.filter (·.1 != key)

/-- Changes what a key stands for. -/
def adjust (entries : List (κ × α)) (key : κ) (change : α → α) : List (κ × α) :=
  entries.map fun entry => if entry.1 == key then (entry.1, change entry.2) else entry

/-- What holds of the entries and of the new one holds afterwards. -/
theorem forall_mem_put {p : α → Prop} {entries : List (κ × α)} {a : α} (key : κ) (ha : p a)
    (h : ∀ entry ∈ entries, p entry.2) : ∀ entry ∈ put entries key a, p entry.2 := by
  intro entry hEntry
  rcases List.mem_cons.mp hEntry with rfl | hEntry
  · exact ha
  · exact h entry (List.mem_filter.mp hEntry).1

/-- What holds of the entries and is kept by the change holds afterwards. -/
theorem forall_mem_adjust {p : α → Prop} {entries : List (κ × α)} {change : α → α} (key : κ)
    (hChange : ∀ a, p a → p (change a)) (h : ∀ entry ∈ entries, p entry.2) :
    ∀ entry ∈ adjust entries key change, p entry.2 := by
  intro entry hEntry
  obtain ⟨old, hOld, rfl⟩ := List.mem_map.mp hEntry
  split
  · exact hChange old.2 (h old hOld)
  · exact h old hOld

variable [LawfulBEq κ] [DecidableEq κ]

theorem lookup_cons_eq (key k : κ) (a : α) (rest : List (κ × α)) :
    ((key, a) :: rest).lookup k = if k = key then some a else rest.lookup k := by
  by_cases h : k = key
  · rw [if_pos h, h, List.lookup_cons_self]
  · rw [if_neg h, List.lookup_cons, beq_false_of_ne h]

/-- Taking out a key loses no other entry. -/
theorem lookup_filter (entries : List (κ × α)) (key k : κ) :
    (entries.filter (·.1 != key)).lookup k = if k = key then none else entries.lookup k := by
  induction entries with
  | nil => simp
  | cons entry entries ih =>
    obtain ⟨first, a⟩ := entry
    by_cases hFirst : first = key
    · rw [List.filter_cons_of_neg (by simp [hFirst]), ih, lookup_cons_eq]
      by_cases hk : k = key
      · rw [if_pos hk, if_pos hk]
      · rw [if_neg hk, if_neg hk, if_neg (hFirst ▸ hk)]
    · rw [List.filter_cons_of_pos (by simp [hFirst]), lookup_cons_eq, lookup_cons_eq, ih]
      by_cases hk : k = first
      · rw [if_pos hk, if_pos hk, if_neg (hk ▸ hFirst)]
      · rw [if_neg hk, if_neg hk]

/-- The entry put last is found, and the other keys keep theirs. -/
theorem lookup_put (entries : List (κ × α)) (key k : κ) (a : α) :
    (put entries key a).lookup k = if k = key then some a else entries.lookup k := by
  rw [put, lookup_cons_eq, lookup_filter]
  by_cases hk : k = key
  · rw [if_pos hk, if_pos hk]
  · rw [if_neg hk, if_neg hk, if_neg hk]

/-- A change at one key leaves the others as they are. -/
theorem lookup_adjust (entries : List (κ × α)) (key k : κ) (change : α → α) :
    (adjust entries key change).lookup k =
      if k = key then (entries.lookup k).map change else entries.lookup k := by
  induction entries with
  | nil => simp [adjust]
  | cons entry entries ih =>
    obtain ⟨first, a⟩ := entry
    rw [adjust, List.map_cons]
    change (_ :: adjust entries key change).lookup k = _
    by_cases hFirst : first = key
    · rw [if_pos (beq_iff_eq.mpr hFirst), lookup_cons_eq, lookup_cons_eq, ih]
      by_cases hk : k = first
      · rw [if_pos hk, if_pos hk, if_pos (hk.trans hFirst), Option.map_some]
      · rw [if_neg hk, if_neg hk]
    · rw [if_neg (by simpa using hFirst), lookup_cons_eq, lookup_cons_eq, ih]
      by_cases hk : k = first
      · rw [if_pos hk, if_pos hk, if_neg (hk ▸ hFirst)]
      · rw [if_neg hk, if_neg hk]

/-- What is found under a key is an entry of the table. -/
theorem mem_of_lookup {entries : List (κ × α)} {key : κ} {a : α}
    (h : entries.lookup key = some a) : (key, a) ∈ entries := by
  induction entries with
  | nil => cases h
  | cons entry entries ih =>
    obtain ⟨first, b⟩ := entry
    rw [lookup_cons_eq] at h
    by_cases hKey : key = first
    · rw [if_pos hKey] at h
      injection h with h
      rw [hKey, h]
      exact List.mem_cons_self
    · rw [if_neg hKey] at h
      exact List.mem_cons_of_mem _ (ih h)

/-- Where no key stands twice, what is found is what stands there. -/
theorem lookup_eq_some_iff {entries : List (κ × α)} (h : (entries.map (·.1)).Nodup) {key : κ}
    {a : α} : entries.lookup key = some a ↔ (key, a) ∈ entries := by
  refine ⟨mem_of_lookup, ?_⟩
  induction entries with
  | nil => exact fun hMem => absurd hMem List.not_mem_nil
  | cons entry entries ih =>
    obtain ⟨first, b⟩ := entry
    obtain ⟨hFresh, hRest⟩ := List.nodup_cons.mp h
    intro hMem
    rw [lookup_cons_eq]
    rcases List.mem_cons.mp hMem with hFirst | hLater
    · injection hFirst with hKey hValue
      rw [if_pos hKey, hValue]
    · have hne : key ≠ first := by
        rintro rfl
        exact hFresh (List.mem_map.mpr ⟨_, hLater, rfl⟩)
      rw [if_neg hne]
      exact ih hRest hLater

/-- Something is found under the keys of the table, and under no others. -/
theorem isSome_lookup_iff {entries : List (κ × α)} {key : κ} :
    (entries.lookup key).isSome = true ↔ key ∈ entries.map (·.1) := by
  induction entries with
  | nil => simp
  | cons entry entries ih =>
    obtain ⟨first, a⟩ := entry
    rw [lookup_cons_eq, List.map_cons, List.mem_cons, ← ih]
    by_cases hKey : key = first
    · simp [hKey]
    · simp [hKey]

/-- A key that is put, or that was there, is there afterwards. -/
theorem isSome_lookup_put {entries : List (κ × α)} {k : κ} (key : κ) (a : α)
    (h : k = key ∨ (entries.lookup k).isSome = true) :
    ((put entries key a).lookup k).isSome = true := by
  rw [lookup_put]
  by_cases hk : k = key
  · rw [if_pos hk]
    rfl
  · rw [if_neg hk]
    exact h.resolve_left hk

/-- A change takes no key away. -/
theorem isSome_lookup_adjust {entries : List (κ × α)} {k : κ} (key : κ) (change : α → α)
    (h : (entries.lookup k).isSome = true) :
    ((adjust entries key change).lookup k).isSome = true := by
  rw [lookup_adjust]
  by_cases hk : k = key
  · rwa [if_pos hk, Option.isSome_map]
  · rwa [if_neg hk]

end TruthTable.Table
