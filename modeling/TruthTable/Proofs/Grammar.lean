import TruthTable.Parser

/-!
# The grammar of formula text

A stratified grammar with one nonterminal per strength of binding:

    Iff  ::= Imp | Imp IFF Iff
    Imp  ::= Or  | Or IMPLIES Imp
    Or   ::= Xor | Or OR Xor
    Xor  ::= And | Xor XOR And
    And  ::= Neg | And AND Neg
    Neg  ::= NOT Neg | Atom
    Atom ::= ID | TRUE | FALSE | LPAREN Iff RPAREN

`Derives s tokens f` says that the tokens derive the formula `f` from the
nonterminal `s`. The grammar knows nothing of the parser: it has neither
frames nor a table of strengths.

Main results:

* `Derives.weaken`      — what a stratum derives, every weaker one derives.
* `Derives.connect`     — the five productions with a connective as one rule.
* `Derives.byShape`     — induction over derivations with one case for all
  unit productions and one for all connectives.
-/

namespace TruthTable

/-- The nonterminals, from the weakest to the strongest binding. -/
inductive Stratum where
  | iff
  | imp
  | or
  | xor
  | and
  | neg
  | atom

/-- The tokens derive the formula from the nonterminal. -/
inductive Derives : Stratum → List Token → Formula → Prop
  -- Iff ::= Imp | Imp IFF Iff
  | iffUnit {ts f} : Derives .imp ts f → Derives .iff ts f
  | iff {ts us t f g} : Derives .imp ts f → t.kind = .connective .iff → Derives .iff us g →
      Derives .iff (ts ++ t :: us) (f.iff g)
  -- Imp ::= Or | Or IMPLIES Imp
  | impUnit {ts f} : Derives .or ts f → Derives .imp ts f
  | imp {ts us t f g} : Derives .or ts f → t.kind = .connective .implies → Derives .imp us g →
      Derives .imp (ts ++ t :: us) (f.implies g)
  -- Or ::= Xor | Or OR Xor
  | orUnit {ts f} : Derives .xor ts f → Derives .or ts f
  | or {ts us t f g} : Derives .or ts f → t.kind = .connective .or → Derives .xor us g →
      Derives .or (ts ++ t :: us) (f.or g)
  -- Xor ::= And | Xor XOR And
  | xorUnit {ts f} : Derives .and ts f → Derives .xor ts f
  | xor {ts us t f g} : Derives .xor ts f → t.kind = .connective .xor → Derives .and us g →
      Derives .xor (ts ++ t :: us) (f.xor g)
  -- And ::= Neg | And AND Neg
  | andUnit {ts f} : Derives .neg ts f → Derives .and ts f
  | and {ts us t f g} : Derives .and ts f → t.kind = .connective .and → Derives .neg us g →
      Derives .and (ts ++ t :: us) (f.and g)
  -- Neg ::= NOT Neg | Atom
  | not {ts t f} : t.kind = .not → Derives .neg ts f → Derives .neg (t :: ts) (.not f)
  | negUnit {ts f} : Derives .atom ts f → Derives .neg ts f
  -- Atom ::= ID | TRUE | FALSE | LPAREN Iff RPAREN
  | name {t n} : t.kind = .name → t.text = n.text → Derives .atom [t] (.var n)
  | constant {t b} : t.kind = .constant b → Derives .atom [t] (.constant b)
  | group {ts t u f} : t.kind = .opening → Derives .iff ts f → u.kind = .closing →
      Derives .atom (t :: ts ++ [u]) f

-- ---------------------------------------------------------------------------
-- Strata as numbers
-- ---------------------------------------------------------------------------

/-- How strongly a nonterminal binds. -/
def Stratum.level : Stratum → Nat
  | .iff => 0
  | .imp => 1
  | .or => 2
  | .xor => 3
  | .and => 4
  | .neg => 5
  | .atom => 6

/-- A unit production leads from each stratum to the next weaker one. -/
theorem Derives.unit {s s' : Stratum} {ts : List Token} {f : Formula}
    (h : Derives s ts f) (hLevel : s.level = s'.level + 1) : Derives s' ts f := by
  cases s' <;> cases s <;> simp only [Stratum.level] at hLevel <;> try omega
  · exact .iffUnit h
  · exact .impUnit h
  · exact .orUnit h
  · exact .xorUnit h
  · exact .andUnit h
  · exact .negUnit h

/-- What a stratum derives, every weaker stratum derives. -/
theorem Derives.weaken {s s' : Stratum} {ts : List Token} {f : Formula}
    (h : Derives s ts f) (hLevel : s'.level ≤ s.level) : Derives s' ts f := by
  -- one unit production per level in between
  obtain ⟨k, hk⟩ := Nat.exists_eq_add_of_le hLevel
  induction k generalizing s with
  | zero =>
    have hEq : s = s' := by
      cases s <;> cases s' <;> simp_all [Stratum.level]
    exact hEq ▸ h
  | succ k ih =>
    obtain ⟨r, hr⟩ : ∃ r : Stratum, s.level = r.level + 1 := by
      cases s
      · simp only [Stratum.level] at hk; omega
      · exact ⟨.iff, rfl⟩
      · exact ⟨.imp, rfl⟩
      · exact ⟨.or, rfl⟩
      · exact ⟨.xor, rfl⟩
      · exact ⟨.and, rfl⟩
      · exact ⟨.neg, rfl⟩
    exact ih (h.unit hr) (by omega) (by omega)

-- ---------------------------------------------------------------------------
-- The productions with a connective
-- ---------------------------------------------------------------------------

namespace Connective

/-- The nonterminal whose production holds the connective. -/
def stratum : Connective → Stratum
  | .iff => .iff
  | .implies => .imp
  | .or => .or
  | .xor => .xor
  | .and => .and

/-- The nonterminal of the left operand. -/
def leftStratum : Connective → Stratum
  | .iff => .imp
  | .implies => .or
  | .or => .or
  | .xor => .xor
  | .and => .and

/-- The nonterminal of the right operand. -/
def rightStratum : Connective → Stratum
  | .iff => .iff
  | .implies => .imp
  | .or => .xor
  | .xor => .and
  | .and => .neg

/-- The left operand binds at least as strongly as the connective. -/
theorem stratum_le_leftStratum (c : Connective) : c.stratum.level ≤ c.leftStratum.level := by
  cases c <;> decide

theorem stratum_le_rightStratum (c : Connective) : c.stratum.level ≤ c.rightStratum.level := by
  cases c <;> decide

/-- A negation can stand on the left of every connective. -/
theorem leftStratum_le_neg (c : Connective) : c.leftStratum.level ≤ Stratum.neg.level := by
  cases c <;> decide

theorem rightStratum_le_neg (c : Connective) : c.rightStratum.level ≤ Stratum.neg.level := by
  cases c <;> decide

end Connective

/-- The five productions with a connective as one rule. -/
theorem Derives.connect (c : Connective) {ts us : List Token} {t : Token} {f g : Formula}
    (hLeft : Derives c.leftStratum ts f) (hToken : t.kind = .connective c)
    (hRight : Derives c.rightStratum us g) :
    Derives c.stratum (ts ++ t :: us) (c.apply f g) := by
  cases c with
  | iff => exact .iff hLeft hToken hRight
  | implies => exact .imp hLeft hToken hRight
  | or => exact .or hLeft hToken hRight
  | xor => exact .xor hLeft hToken hRight
  | and => exact .and hLeft hToken hRight

/--
Induction over derivations by the shape of the last production: the six unit
productions are one case, and so are the five with a connective.
-/
@[elab_as_elim]
theorem Derives.byShape {motive : ∀ s ts f, Derives s ts f → Prop}
    (weaken : ∀ {s s' ts f} (hLevel : s'.level ≤ s.level) (h : Derives s ts f),
      motive s ts f h → motive s' ts f (h.weaken hLevel))
    (connect : ∀ (c : Connective) {ts us t f g} (hLeft : Derives c.leftStratum ts f)
      (hToken : t.kind = .connective c) (hRight : Derives c.rightStratum us g),
      motive c.leftStratum ts f hLeft → motive c.rightStratum us g hRight →
      motive c.stratum (ts ++ t :: us) (c.apply f g) (hLeft.connect c hToken hRight))
    (not : ∀ {ts t f} (hToken : t.kind = .not) (h : Derives .neg ts f),
      motive .neg ts f h → motive .neg (t :: ts) (.not f) (.not hToken h))
    (name : ∀ {t n} (hToken : t.kind = .name) (hText : t.text = n.text),
      motive .atom [t] (.var n) (.name hToken hText))
    (constant : ∀ {t b} (hToken : t.kind = .constant b),
      motive .atom [t] (.constant b) (.constant hToken))
    (group : ∀ {ts t u f} (hOpen : t.kind = .opening) (h : Derives .iff ts f)
      (hClose : u.kind = .closing), motive .iff ts f h →
      motive .atom (t :: ts ++ [u]) f (.group hOpen h hClose))
    {s : Stratum} {ts : List Token} {f : Formula} (h : Derives s ts f) : motive s ts f h := by
  induction h with
  | iffUnit h ih => exact weaken (by decide) h ih
  | iff hl hToken hr ihl ihr => exact connect .iff hl hToken hr ihl ihr
  | impUnit h ih => exact weaken (by decide) h ih
  | imp hl hToken hr ihl ihr => exact connect .implies hl hToken hr ihl ihr
  | orUnit h ih => exact weaken (by decide) h ih
  | or hl hToken hr ihl ihr => exact connect .or hl hToken hr ihl ihr
  | xorUnit h ih => exact weaken (by decide) h ih
  | xor hl hToken hr ihl ihr => exact connect .xor hl hToken hr ihl ihr
  | andUnit h ih => exact weaken (by decide) h ih
  | and hl hToken hr ihl ihr => exact connect .and hl hToken hr ihl ihr
  | not hToken h ih => exact not hToken h ih
  | negUnit h ih => exact weaken (by decide) h ih
  | name hToken hText => exact name hToken hText
  | constant hToken => exact constant hToken
  | group hOpen h hClose ih => exact group hOpen h hClose ih

/-- Nothing is derived from no tokens. -/
theorem Derives.ne_nil {s : Stratum} {ts : List Token} {f : Formula} (h : Derives s ts f) :
    ts ≠ [] := by
  induction h using Derives.byShape with
  | weaken _ _ ih => exact ih
  | connect => simp
  | not => simp
  | name => simp
  | constant => simp
  | group => simp

end TruthTable
