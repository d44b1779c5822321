import Mathlib.Data.List.TFAE
import Mathlib.Tactic.TFAE
import TruthTable.Proofs.Delimiting
import TruthTable.Proofs.Histories

/-!
# The text of an assignment is canonical

The text of an assignment shows its entries in the order of their names, so it
depends on nothing but the entries, and they can be read back from it: a bar ends
each entry but the last, and a colon ends each name. Reading takes the texts of
assignments and refuses every other text.

Main results:

* `Assignment.ofText?_eq_some_iff` — reading accepts exactly what writing
  produces.
* `Assignment.Recalls.tfae_eq`     — equality of assignments, said by their
  entries, their texts and their histories.
* `Session.texts_are_canonical`    — the same for any two assignments of a session.
-/

namespace TruthTable

namespace Assignment

-- ---------------------------------------------------------------------------
-- Reading one entry
-- ---------------------------------------------------------------------------

/-- The truth value after a name. -/
def valueOfChars? (cs : List Char) : Option Bool :=
  if cs = [':', ' ', 'T', 'r', 'u', 'e'] then some true
  else if cs = [':', ' ', 'F', 'a', 'l', 's', 'e'] then some false
  else none

/-- The entry that characters show: a name up to the first character that is
neither letter nor digit, then a truth value. -/
def entryOfChars? (cs : List Char) : Option (Name × Bool) := do
  let n ← Name.ofString? (String.ofList (cs.takeWhile Char.isAlphanum))
  let b ← valueOfChars? (cs.dropWhile Char.isAlphanum)
  return (n, b)

theorem valueOfChars?_eq_some_iff {cs : List Char} {b : Bool} :
    valueOfChars? cs = some b ↔ cs = ':' :: ' ' :: (Value.ofBool b).toList := by
  unfold valueOfChars?
  split
  next hTrue => cases b <;> simp [hTrue, Value.ofBool]
  next hTrue =>
    split
    next hFalse => cases b <;> simp [hFalse, Value.ofBool]
    next hFalse => cases b <;> simp [hTrue, hFalse, Value.ofBool]

/-- An entry is read from its text, and from nothing else. -/
theorem entryOfChars?_eq_some_iff {cs : List Char} {e : Name × Bool} :
    entryOfChars? cs = some e ↔ cs = (entryText e).toList := by
  obtain ⟨n, b⟩ := e
  rw [toList_entryText]
  constructor
  · intro h
    simp only [entryOfChars?, Option.bind_eq_bind, Option.bind_eq_some_iff] at h
    obtain ⟨m, hName, c, hValue, h⟩ := h
    obtain ⟨rfl, rfl⟩ := Prod.mk.inj (Option.some.inj h)
    have hFront := congrArg String.toList (Name.eq_text_of_ofString? hName)
    rw [String.toList_ofList] at hFront
    rw [← hFront, ← valueOfChars?_eq_some_iff.mp hValue, List.takeWhile_append_dropWhile]
  · rintro rfl
    have hText : ∀ c ∈ n.text.toList, c.isAlphanum = true := fun c hc => Name.isAlphanum_of_mem hc
    have hFront : (n.text.toList ++ ':' :: ' ' :: (Value.ofBool b).toList).takeWhile
        Char.isAlphanum = n.text.toList := by
      rw [List.takeWhile_append_of_pos hText]
      simp
    have hBack : (n.text.toList ++ ':' :: ' ' :: (Value.ofBool b).toList).dropWhile
        Char.isAlphanum = ':' :: ' ' :: (Value.ofBool b).toList := by
      rw [List.dropWhile_append_of_pos hText]
      simp
    simp [entryOfChars?, hFront, hBack, Name.ofString?_text, valueOfChars?_eq_some_iff.mpr rfl]

-- ---------------------------------------------------------------------------
-- Reading all entries
-- ---------------------------------------------------------------------------

/-- The entry that stands between two bars, after a blank. -/
def entryAfterBlank? : List Char → Option (Name × Bool)
  | ' ' :: cs => entryOfChars? cs
  | _ => none

/-- The entries that characters show. With a blank in front of the first one,
each of them stands after a blank. -/
def entriesOfChars? (cs : List Char) : Option (List (Name × Bool)) :=
  if cs = [] then some [] else ((' ' :: cs).splitOn '|').mapM entryAfterBlank?

/-- The assignment that a text shows. -/
def ofText? (s : String) : Option Assignment := do
  let entries ← entriesOfChars? s.toList
  if h : entries.Pairwise (·.1 < ·.1) then some ⟨entries, h⟩ else none

theorem entryAfterBlank?_eq_some_iff {cs : List Char} {e : Name × Bool} :
    entryAfterBlank? cs = some e ↔ cs = ' ' :: (entryText e).toList := by
  unfold entryAfterBlank?
  split
  next cs => rw [entryOfChars?_eq_some_iff, List.cons.injEq, and_iff_right rfl]
  next hOther => simpa using fun h => hOther _ h

/-- Going through a list and back: every member is read from its own writing. -/
theorem mapM_eq_some_iff {α β : Type} {read : α → Option β} {write : β → α}
    (h : ∀ x y, read x = some y ↔ x = write y) {xs : List α} {ys : List β} :
    xs.mapM read = some ys ↔ xs = ys.map write := by
  induction xs generalizing ys with
  | nil => cases ys <;> simp
  | cons x xs ih =>
    simp only [List.mapM_cons, Option.bind_eq_bind, Option.bind_eq_some_iff, h, ih]
    constructor
    · rintro ⟨y, rfl, zs, rfl, h⟩
      rw [← Option.some.inj h, List.map_cons]
    · intro hxs
      cases ys with
      | nil => cases hxs
      | cons y ys =>
        obtain ⟨rfl, rfl⟩ := List.cons.inj hxs
        exact ⟨y, rfl, ys, rfl, rfl⟩

/-- A blank may stand before each item, or after each separator and once in
front. -/
theorem intercalate_map_blank {xs : List (List Char)} (h : xs ≠ []) :
    ['|'].intercalate (xs.map (' ' :: ·)) = ' ' :: ['|', ' '].intercalate xs := by
  induction xs with
  | nil => exact absurd rfl h
  | cons x xs ih =>
    rw [List.map_cons, intercalate_cons, intercalate_cons]
    by_cases hxs : xs = []
    · simp [hxs]
    · simp [hxs, ih hxs]

/-- An entry after a blank. -/
def blankEntry (e : Name × Bool) : List Char :=
  ' ' :: (entryText e).toList

theorem intercalate_blankEntry {entries : List (Name × Bool)} (h : entries ≠ []) :
    ['|'].intercalate (entries.map blankEntry) =
      ' ' :: ['|', ' '].intercalate (entries.map fun e => (entryText e).toList) := by
  rw [← intercalate_map_blank (by simpa using h), List.map_map]
  rfl

theorem bar_notMem_blankEntry (e : Name × Bool) : '|' ∉ blankEntry e := by
  intro hBar
  rcases List.mem_cons.mp hBar with hBar | hBar
  · cases hBar
  · exact ne_bar_of_mem_entryText hBar rfl

/-- A text with a blank in front is cut at its bars into entries after blanks. -/
theorem splitOn_bar_eq_iff {cs : List Char} {entries : List (Name × Bool)} (h : entries ≠ []) :
    (' ' :: cs).splitOn '|' = entries.map blankEntry ↔
      cs = ['|', ' '].intercalate (entries.map fun e => (entryText e).toList) := by
  constructor
  · intro hSplit
    have hChars : ['|'].intercalate ((' ' :: cs).splitOn '|') = ' ' :: cs :=
      List.intercalate_splitOn '|'
    rw [hSplit, intercalate_blankEntry h] at hChars
    exact (List.cons.inj hChars).2.symm
  · rintro rfl
    rw [← intercalate_blankEntry h]
    refine List.splitOn_intercalate '|' ?_ (by simpa using h)
    intro l hl
    obtain ⟨e, -, rfl⟩ := List.mem_map.mp hl
    exact bar_notMem_blankEntry e

/-- Entries are read from their texts with a bar and a blank between them, and
from nothing else. -/
theorem entriesOfChars?_eq_some_iff {cs : List Char} {entries : List (Name × Bool)} :
    entriesOfChars? cs = some entries ↔
      cs = ['|', ' '].intercalate (entries.map fun e => (entryText e).toList) := by
  have hRead : ((' ' :: cs).splitOn '|').mapM entryAfterBlank? = some entries ↔
      (' ' :: cs).splitOn '|' = entries.map blankEntry :=
    mapM_eq_some_iff fun _ _ => entryAfterBlank?_eq_some_iff
  unfold entriesOfChars?
  by_cases hEntries : entries = []
  · -- no entries make an empty text, and no other text is cut into nothing
    have hCut := List.splitOn_ne_nil '|' (' ' :: cs)
    subst hEntries
    by_cases hcs : cs = []
    · simp [hcs]
    · rw [if_neg hcs, hRead]
      simp [hCut, hcs]
  · obtain ⟨e, rest, rfl⟩ := List.exists_cons_of_ne_nil hEntries
    by_cases hcs : cs = []
    · subst hcs
      simp [intercalate_cons, toList_entryText]
    · rw [if_neg hcs, hRead]
      exact splitOn_bar_eq_iff hEntries

theorem toList_render (a : Assignment) :
    a.render.toList = ['|', ' '].intercalate (a.entries.map fun e => (entryText e).toList) := by
  rw [render, String.toList_intercalate, List.map_map]
  rfl

/-- **Reading accepts exactly what writing produces.** -/
theorem ofText?_eq_some_iff {s : String} {a : Assignment} : ofText? s = some a ↔ s = a.render := by
  rw [← String.toList_inj, toList_render, ← entriesOfChars?_eq_some_iff]
  simp only [ofText?, Option.bind_eq_bind, Option.bind_eq_some_iff]
  constructor
  · rintro ⟨entries, hRead, h⟩
    split at h
    · rw [← Option.some.inj h, hRead]
    · cases h
  · intro hRead
    exact ⟨a.entries, hRead, by rw [dif_pos a.increasing]⟩

-- ---------------------------------------------------------------------------
-- Equality
-- ---------------------------------------------------------------------------

/-- Equality of assignments, said by their entries, by their lists of entries, by
their texts and by the latest entries of their histories. -/
theorem Recalls.tfae_eq {a b : Assignment} {past past' : History} (ha : a.Recalls past)
    (hb : b.Recalls past') :
    [(a == b) = true, ∀ n v, (n, v) ∈ a.entries ↔ (n, v) ∈ b.entries, a.entries = b.entries,
      a.render = b.render, ∀ n, past.lookup n = past'.lookup n].TFAE := by
  tfae_have 1 → 3 := fun h => congrArg entries (beq_iff_eq.mp h)
  tfae_have 3 → 2 := fun h n v => by rw [h]
  tfae_have 2 → 5 := by
    intro h n
    rw [← ha n, ← hb n]
    exact Option.ext fun v => by rw [get?_eq_some_iff, get?_eq_some_iff, h]
  tfae_have 5 → 4 := by
    intro h
    have hSame : a = b := ext_get? fun n => by rw [ha n, hb n, h]
    rw [hSame]
  tfae_have 4 → 1 := fun h => beq_iff_eq.mpr (render_inj h)
  tfae_finish

end Assignment

-- ---------------------------------------------------------------------------
-- Sessions
-- ---------------------------------------------------------------------------

namespace Session

variable {s : State} {register first second : String} {cell i j : Nat} {a b : Assignment}

/-- A register tells the text of the assignment that it holds. -/
theorem step_render_of_held (hCell : s.assignments.lookup register = some cell)
    (hOld : s.store.get? cell = some a) :
    step s (.render register) = look s (.ok (.text a.render)) := by
  simp only [step, assignment_eq_ok_iff.mpr ⟨cell, hCell, hOld⟩, ok_bind]
  rfl

/-- Two registers are compared by the assignments that they hold, and by the
cells that hold these. -/
theorem step_equal_of_held (hFirst : s.assignments.lookup first = some i)
    (hSecond : s.assignments.lookup second = some j) (ha : s.store.get? i = some a)
    (hb : s.store.get? j = some b) :
    step s (.equal first second) = look s (.ok (.flags (a == b) (i == j))) := by
  simp only [step, assignment_eq_ok_iff.mpr ⟨i, hFirst, ha⟩,
    assignment_eq_ok_iff.mpr ⟨j, hSecond, hb⟩, cell_eq_ok_iff.mpr hFirst,
    cell_eq_ok_iff.mpr hSecond, ok_bind]
  rfl

/--
**The text of an assignment is canonical.** Let `s` be the state that a session
has come to by any steps. Of any two registers that hold assignments, these say
the same: the assignments are equal, they have the same entries, their lists of
entries are equal, their texts are equal, and for each name the latest entries
of their histories are the same. So neither the order in which entries came in
nor what was overwritten shows in a text. From the text of a register its
entries are read back; reading accepts exactly the texts of assignments, and the
text without characters is the one without entries.
-/
theorem texts_are_canonical (threshold : Log.Level) (steps : List Step) :
    let c := (Recount.start threshold).afterAll steps
    let s := c.state
    (∀ first second i j, s.assignments.lookup first = some i →
      s.assignments.lookup second = some j →
      ∃ (past past' : History) (same shared : Bool) (items items' : List (Name × Bool))
        (text text' : String),
        (c.histories[i]? = some past ∧ c.histories[j]? = some past') ∧
        (step s (.equal first second)).2.result = .ok (.flags same shared) ∧
        ((step s (.entries first)).2.result = .ok (.entries items) ∧
          (step s (.entries second)).2.result = .ok (.entries items')) ∧
        ((step s (.render first)).2.result = .ok (.text text) ∧
          (step s (.render second)).2.result = .ok (.text text')) ∧
        [same = true, ∀ n v, (n, v) ∈ items ↔ (n, v) ∈ items', items = items', text = text',
          ∀ n, past.lookup n = past'.lookup n].TFAE) ∧
    (∀ register cell, s.assignments.lookup register = some cell →
      ∃ (a : Assignment) (text : String),
        (step s (.entries register)).2.result = .ok (.entries a.entries) ∧
        (step s (.render register)).2.result = .ok (.text text) ∧
        Assignment.ofText? text = some a) ∧
    (∀ (text : String) (a : Assignment), Assignment.ofText? text = some a ↔ text = a.render) ∧
    Assignment.ofText? "" = some .empty := by
  intro c s
  have hFaithful : c.Faithful := (Recount.faithful_start threshold).afterAll steps
  refine ⟨?_, ?_, fun text a => Assignment.ofText?_eq_some_iff,
    Assignment.ofText?_eq_some_iff.mpr rfl⟩
  · intro first second i j hFirst hSecond
    obtain ⟨a, ha⟩ := hFaithful.held hFirst
    obtain ⟨b, hb⟩ := hFaithful.held hSecond
    obtain ⟨past, hPast, hRecalls⟩ := hFaithful.exists_history ha
    obtain ⟨past', hPast', hRecalls'⟩ := hFaithful.exists_history hb
    refine ⟨past, past', a == b, i == j, a.entries, b.entries, a.render, b.render,
      ⟨hPast, hPast'⟩, ?_, ⟨?_, ?_⟩, ⟨?_, ?_⟩, hRecalls.tfae_eq hRecalls'⟩
    · rw [step_equal_of_held hFirst hSecond ha hb]
      rfl
    · rw [(serves_of_held hFirst ha).entries]
      rfl
    · rw [(serves_of_held hSecond hb).entries]
      rfl
    · rw [step_render_of_held hFirst ha]
      rfl
    · rw [step_render_of_held hSecond hb]
      rfl
  · intro register cell hRegister
    obtain ⟨a, ha⟩ := hFaithful.held hRegister
    refine ⟨a, a.render, ?_, ?_, Assignment.ofText?_eq_some_iff.mpr rfl⟩
    · rw [(serves_of_held hRegister ha).entries]
      rfl
    · rw [step_render_of_held hRegister ha]
      rfl

/-- `p` gets `y` and then `x`; `q` is a copy of an assignment that had `x` with
the other value first. They are equal and have the same text, and `x` and `y`
are read back from a text that shows them. -/
theorem texts_are_canonical_sample :
    let x : Name := ⟨"x", rfl⟩
    let y : Name := ⟨"y", rfl⟩
    let steps : List Step := [.create "p", .add "p" (.text "y") (.bool true),
      .add "p" (.text "x") (.bool false), .create "r", .add "r" (.text "x") (.bool true),
      .add "r" (.text "x") (.bool false), .add "r" (.text "y") (.bool true), .clone "q" "r"]
    let c := (Recount.start .info).afterAll steps
    c.histories = [[(x, false), (y, true)], [(y, true), (x, false), (x, true)],
        [(y, true), (x, false), (x, true)]] ∧
      (∃ shared, (step c.state (.equal "p" "q")).2.result = .ok (.flags true shared)) ∧
      (∃ text, (step c.state (.render "p")).2.result = .ok (.text text) ∧
        (step c.state (.render "q")).2.result = .ok (.text text)) ∧
      Assignment.ofText? "x: False| y: True" =
        some ((Assignment.empty.insert y true).insert x false) := by
  intro x y steps c
  have hHistories : c.histories = [[(x, false), (y, true)], [(y, true), (x, false), (x, true)],
      [(y, true), (x, false), (x, true)]] := by decide +kernel
  obtain ⟨hCompare, -, hRead, -⟩ := texts_are_canonical .info steps
  obtain ⟨past, past', same, shared, items, items', text, text', ⟨hPast, hPast'⟩, hEqual, -,
    ⟨hText, hText'⟩, hTfae⟩ := hCompare "p" "q" 0 2 (by decide +kernel) (by decide +kernel)
  change c.histories[0]? = some past at hPast
  change c.histories[2]? = some past' at hPast'
  rw [hHistories] at hPast hPast'
  injection hPast with hPast
  injection hPast' with hPast'
  have hLatest : ∀ n, past.lookup n = past'.lookup n := by
    intro n
    rw [← hPast, ← hPast']
    simp only [Table.lookup_cons_eq, List.lookup_nil]
    by_cases hx : n = x
    · subst hx
      rfl
    · simp only [if_neg hx]
  have hSame : same = true := (hTfae.out 0 4).mpr hLatest
  have hTexts : text = text' := (hTfae.out 3 4).mpr hLatest
  refine ⟨hHistories, ⟨shared, hSame ▸ hEqual⟩, ⟨text, hText, hTexts ▸ hText'⟩, ?_⟩
  exact (hRead _ _).mpr (by decide +kernel)

end Session

end TruthTable
