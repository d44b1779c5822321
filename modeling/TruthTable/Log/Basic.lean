import TruthTable.Fault

/-!
# Log entries

Operations note what they do as leveled entries. Which entries are written is decided when they are
written, by a threshold; no operation depends on it.

`Logged` is the type of computations that may fail and note entries: the entries noted before a
fault are kept.
-/

namespace TruthTable

namespace Log

/-- The levels of entries, from the least to the most important. -/
inductive Level where
  | debug
  | info
  | warning
  | error
  deriving DecidableEq

/-- The number of a level. -/
def Level.number : Level → Nat
  | .debug => 10
  | .info => 20
  | .warning => 30
  | .error => 40

/-- A noted message. -/
structure Entry where
  level : Level
  message : String

/-- The name of a level number below `info`. -/
def numberName (number : Int) : String :=
  if number = 10 then "DEBUG"
  else if number = 0 then "NOTSET"
  else "Level " ++ toString number

/-- A message as it is written: alone from `info` on, and after the name of its level below. -/
def layout (number : Int) (message : String) : String :=
  if 20 ≤ number then message else "[" ++ numberName number ++ "] " ++ message

/-- The entry passes the threshold. -/
def Entry.passes (threshold : Level) (e : Entry) : Bool :=
  threshold.number ≤ e.level.number

/-- The line that is written for an entry. -/
def Entry.line (e : Entry) : String :=
  layout e.level.number e.message ++ "\n"

/-- What is written of the entries under a threshold. -/
def written (threshold : Level) (entries : List Entry) : String :=
  String.join ((entries.filter (Entry.passes threshold)).map Entry.line)

end Log

/-! ## Computations that note entries -/

/-- The outcome of a computation with the entries that it noted. -/
structure Logged (α : Type) where
  entries : List Log.Entry
  result : Except Fault α

namespace Logged

instance : Monad Logged where
  pure a := ⟨[], .ok a⟩
  bind x f :=
    match x.result with
    | .ok a =>
      let y := f a
      ⟨x.entries ++ y.entries, y.result⟩
    | .error fault => ⟨x.entries, .error fault⟩

/-- A computation that notes nothing. -/
def lift {α : Type} (x : Except Fault α) : Logged α :=
  ⟨[], x⟩

/-- Notes entries. -/
def note (entries : List Log.Entry) : Logged Unit :=
  ⟨entries, .ok ()⟩

instance {α : Type} : Coe (Except Fault α) (Logged α) := ⟨lift⟩

@[simp]
theorem result_pure {α : Type} (a : α) : (pure a : Logged α).result = .ok a :=
  rfl

@[simp]
theorem result_lift {α : Type} (x : Except Fault α) : (lift x).result = x :=
  rfl

@[simp]
theorem result_note (entries : List Log.Entry) : (note entries).result = .ok () :=
  rfl

/-- What is noted has no influence on the result. -/
@[simp]
theorem result_bind {α β : Type} (x : Logged α) (k : α → Logged β) :
    (x >>= k).result = x.result >>= fun a => (k a).result := by
  obtain ⟨entries, result⟩ := x
  cases result with
  | ok a => rfl
  | error fault => rfl

/-- What is noted comes from the first computation, or from the second one where that is reached. -/
theorem mem_entries_bind {α β : Type} {x : Logged α} {k : α → Logged β} {e : Log.Entry}
    (h : e ∈ (x >>= k).entries) : e ∈ x.entries ∨ ∃ a, x.result = .ok a ∧ e ∈ (k a).entries := by
  obtain ⟨entries, result⟩ := x
  cases result with
  | ok a =>
    rcases List.mem_append.mp h with h | h
    · exact .inl h
    · exact .inr ⟨a, rfl, h⟩
  | error fault => exact .inl h

end Logged

end TruthTable
