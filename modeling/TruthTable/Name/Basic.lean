/-!
# Names of propositional variables

A name is an ASCII letter followed by ASCII letters and digits. Names are ordered by code point,
so upper case comes before lower case and `x10` before `x2`.
-/

namespace TruthTable

/-- A letter, then letters or digits, all ASCII. -/
def isName (s : String) : Bool :=
  match s.toList with
  | [] => false
  | c :: cs => c.isAlpha && cs.all Char.isAlphanum

/-- The name of a propositional variable. -/
structure Name where
  /-- The characters of the name. -/
  text : String
  /-- A letter, then letters or digits. -/
  valid : isName text = true
  deriving DecidableEq

namespace Name

/-- The name with the given characters, if they form one. -/
def ofString? (s : String) : Option Name :=
  if h : isName s = true then some ⟨s, h⟩ else none

instance : LT Name := ⟨fun a b => a.text < b.text⟩

instance (a b : Name) : Decidable (a < b) :=
  inferInstanceAs (Decidable (a.text < b.text))

theorem lt_trans {a b c : Name} (hab : a < b) (hbc : b < c) : a < c :=
  String.lt_trans hab hbc

theorem lt_irrefl (a : Name) : ¬ a < a :=
  String.lt_irrefl a.text

/-- Two names of which neither comes first are the same. -/
theorem eq_of_not_lt {a b : Name} (hab : ¬ a < b) (hba : ¬ b < a) : a = b := by
  have h : a.text = b.text := String.le_antisymm (String.not_lt.mp hba) (String.not_lt.mp hab)
  cases a
  cases b
  simp_all

end Name

end TruthTable
