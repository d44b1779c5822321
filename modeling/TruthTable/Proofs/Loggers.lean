import TruthTable.Log.Registry

/-!
# Messages are written once, at the level set last

Scribes share loggers, and a logger and its handlers have levels of their own.
Whatever is done with them, a logger keeps one handler, both have the level
that was set last for its name, and nothing is passed on. So a message is
written once or not at all.

Main results:

* `lines_eq`       — a logger with a level writes what reaches it, once.
* `level?_perform` — an operation sets the levels that `Operation.settings`
  names, and no others.
* `level?_after`   — the level of a name is the one set last for it.
* `Extends.after`  — scribes keep their names, and the shared scribe stays.
* `written_once_at_last_level` — all of it, for every sequence of operations.
-/

namespace TruthTable.Log

/-- A line is the message, marked where it is a detail. -/
theorem Entry.line_eq (e : Entry) :
    e.line = (if e.level = .debug then "[DEBUG] " else "") ++ e.message ++ "\n" := by
  obtain ⟨level, message⟩ := e
  cases level <;> rfl

namespace Registry

variable {r r' : Registry} {name n : String} {scribe : Nat} {level : Level}

-- ---------------------------------------------------------------------------
-- Writing
-- ---------------------------------------------------------------------------

/-- The lineage of a name starts with the name. -/
theorem lineage_eq_cons (name : String) : ∃ above, lineage name = name :: above := by
  unfold lineage
  split
  · rename_i hRoot
    exact ⟨[], by rw [hRoot]⟩
  · exact ⟨_, rfl⟩

/-- An entry reaches the one handler of its logger and goes no further. -/
theorem reached_lineage {l : Logger} (h : r.loggers.lookup name = some l) :
    r.reached (lineage name) = [⟨l.level⟩] := by
  obtain ⟨above, hLineage⟩ := lineage_eq_cons name
  have hSingle : l.Single := r.single _ (Table.mem_of_lookup h)
  rw [hLineage, reached]
  simp [h, hSingle.handlers, hSingle.passesOn]

/-- What reaches the level of the logger is written once. -/
theorem lines_eq (hName : r.nameOf? scribe = some name) (hLevel : r.level? name = some level)
    (e : Entry) : r.lines scribe e = if e.passes level then [e.line] else [] := by
  obtain ⟨l, hLogger, rfl⟩ := Option.map_eq_some_iff.mp hLevel
  rw [lines, hName]
  simp only [hLevel, reached_lineage hLogger]
  split
  · rename_i hPasses
    simp [hPasses]
  · rfl

/-- The logger of a scribe has a level. -/
theorem exists_level (h : r.nameOf? scribe = some name) : ∃ level, r.level? name = some level := by
  have hKnown := r.known name (List.mem_of_getElem? h)
  obtain ⟨l, hLogger⟩ := Option.isSome_iff_exists.mp hKnown
  exact ⟨l.level, by rw [level?, hLogger, Option.map_some]⟩

-- ---------------------------------------------------------------------------
-- What the operations do
-- ---------------------------------------------------------------------------

/-- A new scribe sets the level of the logger with its name, and no other. -/
theorem level?_create (r : Registry) (name : String) (level : Level) (n : String) :
    (r.create name level).1.level? n =
      if n = properName name then some level else r.level? n := by
  show ((Table.put r.loggers (properName name) _).lookup n).map _ = _
  rw [Table.lookup_put]
  split
  · rfl
  · rfl

/-- A new scribe has the name that it was asked for, made proper. -/
theorem nameOf?_create (r : Registry) (name : String) (level : Level) :
    (r.create name level).1.nameOf? (r.create name level).2 = some (properName name) := by
  show (r.scribes ++ [properName name])[r.scribes.length]? = _
  simp

/-- Setting the level of a scribe sets that of the logger with its name, and no
other. -/
theorem level?_setLevel (h : r.nameOf? scribe = some name) (level : Level) (n : String) :
    (r.setLevel scribe level).level? n = if n = name then some level else r.level? n := by
  obtain ⟨old, hOld⟩ := exists_level h
  obtain ⟨l, hLogger, -⟩ := Option.map_eq_some_iff.mp hOld
  unfold setLevel
  simp only [h]
  rw [level?, Table.lookup_adjust]
  split
  · rename_i hn
    rw [hn, hLogger]
    rfl
  · rfl

/-- A scribe that does not exist sets no level. -/
theorem setLevel_of_unknown (h : r.nameOf? scribe = none) (level : Level) :
    r.setLevel scribe level = r := by
  unfold setLevel
  simp only [h]

/-- Setting a level renames no scribe. -/
@[simp]
theorem nameOf?_setLevel (r : Registry) (scribe : Nat) (level : Level) :
    (r.setLevel scribe level).nameOf? = r.nameOf? := by
  unfold setLevel
  split <;> rfl

@[simp]
theorem shared_setLevel (r : Registry) (scribe : Nat) (level : Level) :
    (r.setLevel scribe level).shared = r.shared := by
  unfold setLevel
  split <;> rfl

/-- A shared scribe that is there stays as it is. -/
theorem getShared_of_shared (h : r.shared = some scribe) (asked : String) :
    r.getShared asked = (r, scribe) := by
  unfold getShared
  simp only [h]

/-- A shared scribe that has to be made is made as any other is, at the level
`info`. -/
theorem getShared_of_none (h : r.shared = none) (asked : String) :
    (r.getShared asked).1.level? = (r.create asked .info).1.level? ∧
    (r.getShared asked).1.nameOf? = (r.create asked .info).1.nameOf? ∧
    (r.getShared asked).2 = (r.create asked .info).2 := by
  unfold getShared
  simp only [h]
  exact ⟨rfl, rfl, rfl⟩

/-- The scribe that is handed out is the shared one from then on. -/
theorem shared_getShared (r : Registry) (asked : String) :
    (r.getShared asked).1.shared = some (r.getShared asked).2 := by
  unfold getShared
  split
  · assumption
  · rfl

/-- The name that the shared logger has, or has when the next level is set for it. -/
def sharedName (r : Registry) : String :=
  (r.shared.bind r.nameOf?).getD standardName

/-- The shared scribe has a name: its own, or the one that it is made for. -/
theorem nameOf?_getShared (r : Registry) (asked : String) :
    (r.getShared asked).1.nameOf? (r.getShared asked).2 =
      some (if r.shared = none then properName asked else r.sharedName) := by
  cases h : r.shared with
  | none =>
    obtain ⟨-, hNames, hScribe⟩ := getShared_of_none h asked
    rw [hNames, hScribe, nameOf?_create, if_pos rfl]
  | some scribe =>
    have hMade : scribe < r.scribes.length := r.sharedMade scribe h
    rw [getShared_of_shared h, if_neg (by simp)]
    show r.nameOf? scribe = _
    simp [sharedName, h, nameOf?, hMade]

-- ---------------------------------------------------------------------------
-- Settings
-- ---------------------------------------------------------------------------

/-- What asking for the shared scribe sets: the level of its logger, if it has
to be made. -/
def askingSets (r : Registry) (asked : String) : List (String × Level) :=
  if r.shared = none then [(properName asked, .info)] else []

end Registry

/-- The levels that an operation sets, each with the name of the logger, the
latest first. -/
def Operation.settings (r : Registry) : Operation → List (String × Level)
  | .create name level => [(Registry.properName name, level)]
  | .get name => r.askingSets name
  | .setLevel scribe level => ((r.nameOf? scribe).map (·, level)).toList
  | .setSharedLevel level => (r.sharedName, level) :: r.askingSets Registry.standardName
  | .configure verbose debug =>
    (r.sharedName, Registry.flagLevel verbose debug) :: r.askingSets Registry.standardName
  | .log _ _ => []

namespace Registry

variable {r r' : Registry} {name n : String} {scribe : Nat} {level : Level}

/-- Asking for the shared scribe sets the level of its logger if it has to be
made. -/
theorem level?_getShared (r : Registry) (asked n : String) :
    (r.getShared asked).1.level? n = ((r.askingSets asked).lookup n).or (r.level? n) := by
  cases h : r.shared with
  | none =>
    obtain ⟨hLevels, -, -⟩ := getShared_of_none h asked
    rw [hLevels, level?_create, askingSets, if_pos h, Table.lookup_cons_eq]
    split <;> rfl
  | some scribe =>
    rw [getShared_of_shared h, askingSets, if_neg (by simp [h])]
    rfl

/-- Setting the shared level sets that of the shared logger, which may have to
be made. -/
theorem level?_setSharedLevel (r : Registry) (level : Level) (n : String) :
    (r.setSharedLevel level).level? n =
      (((r.sharedName, level) :: r.askingSets standardName).lookup n).or (r.level? n) := by
  have hName := nameOf?_getShared r standardName
  -- a shared scribe that is made for this has the standard name
  have hShared : (if r.shared = none then properName standardName else r.sharedName) =
      r.sharedName := by
    split
    · rename_i h
      simp [sharedName, h, properName, standardName]
    · rfl
  rw [hShared] at hName
  show ((r.getShared standardName).1.setLevel (r.getShared standardName).2 level).level? n = _
  rw [level?_setLevel hName, level?_getShared, Table.lookup_cons_eq]
  split <;> rfl

/-- **What an operation does to levels.** It sets those that its settings name,
to the latest of them, and keeps all others. -/
theorem level?_perform (r : Registry) (op : Operation) (n : String) :
    (r.perform op).1.level? n = ((op.settings r).lookup n).or (r.level? n) := by
  cases op with
  | create name level =>
    show (r.create name level).1.level? n = _
    rw [level?_create, Operation.settings, Table.lookup_cons_eq]
    split <;> rfl
  | get name => exact level?_getShared r name n
  | setLevel scribe level =>
    show (r.setLevel scribe level).level? n = _
    cases h : r.nameOf? scribe with
    | none =>
      rw [setLevel_of_unknown h, Operation.settings, h]
      rfl
    | some name =>
      rw [level?_setLevel h, Operation.settings, h]
      simp only [Option.map_some, Option.toList_some, Table.lookup_cons_eq]
      split <;> rfl
  | setSharedLevel level => exact level?_setSharedLevel r level n
  | configure verbose debug => exact level?_setSharedLevel r (flagLevel verbose debug) n
  | log scribe e => rfl

-- ---------------------------------------------------------------------------
-- Scribes
-- ---------------------------------------------------------------------------

/-- No scribe is lost or gets another name, and a shared scribe stays it. -/
structure Extends (r r' : Registry) : Prop where
  nameOf : ∀ {scribe name}, r.nameOf? scribe = some name → r'.nameOf? scribe = some name
  shared : ∀ {scribe}, r.shared = some scribe → r'.shared = some scribe

theorem Extends.refl (r : Registry) : Extends r r :=
  ⟨id, id⟩

theorem Extends.trans {r'' : Registry} (h : Extends r r') (h' : Extends r' r'') : Extends r r'' :=
  ⟨fun hName => h'.nameOf (h.nameOf hName), fun hShared => h'.shared (h.shared hShared)⟩

/-- A new scribe takes the place of none. -/
theorem extends_create (r : Registry) (name : String) (level : Level) :
    Extends r (r.create name level).1 where
  nameOf := by
    intro scribe n h
    obtain ⟨hMade, -⟩ := List.getElem?_eq_some_iff.mp h
    show (r.scribes ++ [properName name])[scribe]? = some n
    rw [List.getElem?_append_left hMade]
    exact h
  shared := id

/-- Asking for the shared scribe loses no other. -/
theorem extends_getShared (r : Registry) (asked : String) : Extends r (r.getShared asked).1 := by
  cases h : r.shared with
  | none =>
    obtain ⟨-, hNames, -⟩ := getShared_of_none h asked
    refine ⟨fun hName => ?_, fun hShared => ?_⟩
    · rw [hNames]
      exact (extends_create r asked .info).nameOf hName
    · rw [h] at hShared
      cases hShared
  | some scribe =>
    rw [getShared_of_shared h]
    exact .refl r

theorem extends_setLevel (r : Registry) (scribe : Nat) (level : Level) :
    Extends r (r.setLevel scribe level) :=
  ⟨fun h => by rw [nameOf?_setLevel, h], fun h => by rw [shared_setLevel, h]⟩

theorem extends_setSharedLevel (r : Registry) (level : Level) :
    Extends r (r.setSharedLevel level) :=
  (extends_getShared r standardName).trans (extends_setLevel _ _ level)

/-- No operation loses a scribe or renames one. -/
theorem extends_perform (r : Registry) (op : Operation) : Extends r (r.perform op).1 := by
  cases op with
  | create name level => exact extends_create r name level
  | get name => exact extends_getShared r name
  | setLevel scribe level => exact extends_setLevel r scribe level
  | setSharedLevel level => exact extends_setSharedLevel r level
  | configure verbose debug => exact extends_setSharedLevel r _
  | log scribe e => exact .refl r

-- ---------------------------------------------------------------------------
-- Sequences of operations
-- ---------------------------------------------------------------------------

/-- The registry after operations. -/
def after (r : Registry) (ops : List Operation) : Registry :=
  ops.foldl (fun r op => (r.perform op).1) r

/-- The levels that operations set, the latest first. -/
def settings (r : Registry) : List Operation → List (String × Level)
  | [] => []
  | op :: ops => settings (r.perform op).1 ops ++ op.settings r

/-- The level of a name is the one set last for it. -/
theorem level?_after (r : Registry) (ops : List Operation) (n : String) :
    (r.after ops).level? n = ((r.settings ops).lookup n).or (r.level? n) := by
  induction ops generalizing r with
  | nil => rfl
  | cons op ops ih =>
    show ((r.perform op).1.after ops).level? n = _
    rw [ih, level?_perform, settings, List.lookup_append, Option.or_assoc]

/-- No sequence of operations loses a scribe or renames one. -/
theorem extends_after (r : Registry) (ops : List Operation) : Extends r (r.after ops) := by
  induction ops generalizing r with
  | nil => exact .refl r
  | cons op ops ih => exact (extends_perform r op).trans (ih (r.perform op).1)

/--
**Every message is written once or not at all, after the level set last.**
After any operations, a scribe for the logger `name` writes a message exactly
once if its level reaches the one that was set last for `name`, by whichever
scribe and operation, and does not write it otherwise; and some level was set.
The line is the message, marked where it is a detail. Nothing but logging
writes, and logging changes nothing. A scribe keeps its name; the shared scribe
gets the name that it is first asked for by, and whoever asks later, by
whatever name, is given the same one.
-/
theorem written_once_at_last_level (past : List Operation) :
    let r := empty.after past
    (∀ scribe name, r.nameOf? scribe = some name →
      ∃ level, (empty.settings past).lookup name = some level ∧
        ∀ e : Entry, r.perform (.log scribe e) =
          (r, if level.number ≤ e.level.number then
            [(if e.level = .debug then "[DEBUG] " else "") ++ e.message ++ "\n"] else [])) ∧
    (∀ op : Operation, (∀ scribe e, op ≠ .log scribe e) → (r.perform op).2 = []) ∧
    (∀ name level later, ((r.create name level).1.after later).nameOf? (r.create name level).2 =
      some (properName name)) ∧
    (∀ asked, r.shared = none →
      (r.getShared asked).1.nameOf? (r.getShared asked).2 = some (properName asked)) ∧
    ∀ asked later other,
      ((r.getShared asked).1.after later).getShared other =
        ((r.getShared asked).1.after later, (r.getShared asked).2) ∧
      ((r.getShared asked).1.after later).nameOf? (r.getShared asked).2 =
        (r.getShared asked).1.nameOf? (r.getShared asked).2 := by
  intro r
  refine ⟨?_, ?_, ?_, ?_, ?_⟩
  · intro scribe name hName
    obtain ⟨level, hLevel⟩ := exists_level hName
    -- the registry was empty at first, so the level comes from a setting
    have hLast : (empty.settings past).lookup name = some level := by
      have := level?_after empty past name
      rw [hLevel] at this
      simpa [level?, empty] using this.symm
    refine ⟨level, hLast, fun e => ?_⟩
    show (r, r.lines scribe e) = _
    rw [lines_eq hName hLevel, ← e.line_eq]
    simp only [Entry.passes, decide_eq_true_eq]
  · intro op hOp
    cases op with
    | log scribe e => exact absurd rfl (hOp scribe e)
    | _ => rfl
  · intro name level later
    exact (extends_after _ later).nameOf (nameOf?_create r name level)
  · intro asked hNone
    rw [nameOf?_getShared, if_pos hNone]
  · intro asked later other
    have hExtends := extends_after (r.getShared asked).1 later
    have hShared := hExtends.shared (shared_getShared r asked)
    have hName := nameOf?_getShared r asked
    exact ⟨getShared_of_shared hShared other, by rw [hExtends.nameOf hName, hName]⟩

/-- The level that the first scribe for `a` sets holds for the second one too,
and the logger above keeps out of it: a message through the second one is
written once, and a detail is not. -/
theorem written_once_at_last_level_sample :
    let past : List Operation :=
      [.create "a" .debug, .create "" .debug, .create "a" .error, .setLevel 0 .info, .get "b"]
    let r := empty.after past
    r.nameOf? 2 = some "a" ∧
      (r.perform (.log 2 ⟨.info, "m"⟩)).2 = ["m\n"] ∧
      (r.perform (.log 2 ⟨.debug, "m"⟩)).2 = [] := by
  intro past r
  have hName : r.nameOf? 2 = some "a" := by decide
  obtain ⟨level, hLast, hWrites⟩ := (written_once_at_last_level past).1 2 "a" hName
  have hInfo : (empty.settings past).lookup "a" = some .info := by decide
  have hLevel : level = .info := by
    rw [hInfo] at hLast
    injection hLast with hLast
    exact hLast.symm
  rw [hLevel] at hWrites
  refine ⟨hName, ?_, ?_⟩
  · rw [hWrites]
    rfl
  · rw [hWrites]
    rfl

end Registry

end TruthTable.Log
