import TruthTable.Proofs.Recognition
import TruthTable.Proofs.Rereading

/-!
# Reading back the text of a formula

`Formula.wording` lists the lexemes of the text of a formula. They are split
without an obstacle, and unless a name is a keyword their tokens derive the
reread formula.

Main results:

* `ofText_text`       — the text is split into its lexemes.
* `told_readInto`     — the tokens derive what is reread, from any place on.
* `parse_text`        — the text is read as `reread`, when no name is a keyword.
* `render_reads_back` — the round trip: which formulas come back, and what of
  the others does.
-/

namespace TruthTable

-- ---------------------------------------------------------------------------
-- Names and keywords
-- ---------------------------------------------------------------------------

namespace Formula

/-- No variable is spelled as a keyword. -/
def KeywordFree (f : Formula) : Prop :=
  ∀ n ∈ f.names.toList, n.text ∉ keywords

theorem keywordFree_not {a : Formula} : KeywordFree (.not a) ↔ a.KeywordFree := by
  simp only [KeywordFree, mem_names, leaves_not]

theorem keywordFree_binary {op : Operator} {l r : Formula} :
    KeywordFree (.binary op l r) ↔ l.KeywordFree ∧ r.KeywordFree := by
  simp only [KeywordFree, mem_names, leaves_binary, List.mem_append]
  constructor
  · intro h
    exact ⟨fun n hn => h n (.inl hn), fun n hn => h n (.inr hn)⟩
  · rintro ⟨hl, hr⟩ n (hn | hn)
    · exact hl n hn
    · exact hr n hn

end Formula

-- ---------------------------------------------------------------------------
-- The lexemes of the text
-- ---------------------------------------------------------------------------

/-- The primitive connective among those of formula text. -/
def Operator.connective : Operator → Connective
  | .and => .and
  | .or => .or

/-- The word for a connective is spelled as a name is. -/
def Operator.spelling : Operator → Name
  | .and => ⟨"and", rfl⟩
  | .or => ⟨"or", rfl⟩

theorem Operator.text_spelling (op : Operator) : op.spelling.text = op.word := by
  cases op <;> rfl

/-- The word for a constant is spelled as a name is. -/
def constantSpelling : Bool → Name
  | true => ⟨"True", rfl⟩
  | false => ⟨"False", rfl⟩

theorem text_constantSpelling (b : Bool) : (constantSpelling b).text = Value.ofBool b := by
  cases b <;> rfl

namespace Formula

/-- The lexemes of the text, with `gap` before the first one. -/
def wording (gap : List Char) : Formula → Wording
  | .hole => []
  | .constant b => [(gap, .word (constantSpelling b))]
  | .var n => [(gap, .word n)]
  | .not a =>
    (gap, .symbol .opening) :: ([], .word ⟨"not", rfl⟩) ::
      (a.wording [' '] ++ [([], .symbol .closing)])
  | .binary op l r => l.wording gap ++ ([' '], .word op.spelling) :: r.wording [' ']

/-- The wording spells the text. -/
theorem chars_wording {f : Formula} (h : f.Complete) (gap : List Char) :
    (f.wording gap).chars = gap ++ f.text.toList := by
  induction f generalizing gap with
  | hole => exact absurd h id
  | constant b => simp [wording, Wording.chars, Lexeme.chars, text, text_constantSpelling]
  | var n => simp [wording, Wording.chars, Lexeme.chars, text]
  | not a ih =>
    simp [wording, Wording.chars, Wording.chars_append, Lexeme.chars, Symbol.chars, text, ih h]
  | binary op l r ihl ihr =>
    simp [wording, Wording.chars, Wording.chars_append, Lexeme.chars, text, ihl h.1, ihr h.2,
      Operator.text_spelling]

/-- The gap stands before the first lexeme. -/
theorem wording_eq_cons {f : Formula} (h : f.Complete) (gap : List Char) :
    ∃ x rest, f.wording gap = (gap, x) :: rest := by
  induction f with
  | hole => exact absurd h id
  | constant b => exact ⟨_, _, rfl⟩
  | var n => exact ⟨_, _, rfl⟩
  | not a => exact ⟨_, _, rfl⟩
  | binary op l r ihl =>
    obtain ⟨x, rest, hl⟩ := ihl h.1
    refine ⟨x, rest ++ ([' '], .word op.spelling) :: r.wording [' '], ?_⟩
    rw [wording, hl, List.cons_append]

/-- Two words of the text are never run together. -/
theorem spaced_wording {f : Formula} (h : f.Complete) {gap : List Char}
    (hGap : ∀ c ∈ gap, Lexing.isSkipped c = true) : (f.wording gap).Spaced := by
  have hNil : Wording.Spaced [] := ⟨by simp, .nil⟩
  have hSpace : ∀ c ∈ [' '], Lexing.isSkipped c = true := by
    intro c hc
    rw [List.mem_singleton.mp hc]
    rfl
  induction f generalizing gap with
  | hole => exact absurd h id
  | constant b => exact hNil.cons hGap (by simp)
  | var n => exact hNil.cons hGap (by simp)
  | not a ih =>
    obtain ⟨x, rest, ha⟩ := wording_eq_cons (f := a) h [' ']
    have hClose : Wording.Spaced [([], .symbol .closing)] := hNil.cons (by simp) (by simp)
    have hOperand := (ih h hSpace).append hClose (by simp [Lexeme.isWord])
    -- a space separates the word `not` from the operand
    have hNot : Wording.Spaced (([], .word ⟨"not", rfl⟩) :: _) :=
      hOperand.cons (by simp) (by simp [ha])
    exact hNot.cons hGap (by simp [Lexeme.isWord])
  | binary op l r ihl ihr =>
    obtain ⟨x, rest, hr⟩ := wording_eq_cons h.2 [' ']
    have hRight := (ihr h.2 hSpace).cons (x := .word op.spelling) hSpace (by simp [hr])
    exact (ihl h.1 hGap).append hRight (by simp)

/-- The text of a formula is split into its lexemes. -/
theorem ofText_text {f : Formula} (h : f.Complete) :
    Lexing.ofText f.text.toList = ⟨(f.wording []).tokens 0, none⟩ := by
  have hSpaced : (f.wording []).Spaced := spaced_wording h (by simp)
  have hPrinted : Lexing.splitFrom 0 (Wording.chars _ ++ []) = _ :=
    Wording.splitFrom_printed hSpaced (by simp) 0
  rwa [List.append_nil, chars_wording h] at hPrinted

end Formula

-- ---------------------------------------------------------------------------
-- The text is read as the reread formula
-- ---------------------------------------------------------------------------

/-- The tokens derive the sum and the product. -/
inductive Reading.Told : List Token → Reading → Prop
  | product {ts p} : Derives .and ts p → Told ts ⟨none, p⟩
  | sum {ts us t s p} : Derives .or ts s → t.kind = .connective .or → Derives .and us p →
      Told (ts ++ t :: us) ⟨some s, p⟩

/-- The tokens lead up to the place. -/
inductive Slot.Opened : List Token → Slot → Prop
  | start : Opened [] .start
  | negated {t} : t.kind = .not → Opened [t] .negated
  | after {ts t done} {op : Operator} : Reading.Told ts done →
      t.kind = .connective op.connective → Opened (ts ++ [t]) (.after done op)

/-- What was read derives from `Or`. -/
theorem Reading.Told.total {ts : List Token} {done : Reading} (h : Reading.Told ts done) :
    Derives .or ts done.total := by
  cases h with
  | product hp => exact hp.weaken (by decide)
  | sum hs hToken hp => exact .or hs hToken (hp.weaken (by decide))

/-- An operand in its place makes a reading. -/
theorem Slot.Opened.fill {ts us : List Token} {slot : Slot} {x : Formula}
    (h : Slot.Opened ts slot) (hx : Derives .neg us x) :
    Reading.Told (ts ++ us) (slot.fill x) := by
  cases h with
  | start => exact .product (hx.weaken (by decide))
  | negated hToken => exact .product (.andUnit (.not hToken hx))
  | @after ts t done op hDone hToken =>
    rw [List.append_assoc, List.singleton_append]
    cases op with
    | or => exact .sum hDone.total hToken (.andUnit hx)
    | and =>
      -- the product grows; the sum before it stays
      cases hDone with
      | product hp => exact .product (.and hp hToken hx)
      | sum hs hOr hp =>
        rw [List.append_assoc, List.cons_append]
        exact .sum hs hOr (.and hp hToken hx)

namespace Formula

/-- **Rereading, in context.** The tokens of a text, after those that lead up
to a place, derive what is read from that place on. -/
theorem told_readInto {f : Formula} (h : f.Complete) (hNames : f.KeywordFree) {ts : List Token}
    {slot : Slot} (hSlot : Slot.Opened ts slot) (gap : List Char) (start : Nat) :
    Reading.Told (ts ++ (f.wording gap).tokens start) (f.readInto slot) := by
  induction f generalizing ts slot gap start with
  | hole => exact absurd h id
  | constant b =>
    refine hSlot.fill (.negUnit (.constant ?_))
    cases b <;> rfl
  | var n =>
    have hName : n.text ∉ keywords := hNames n (mem_names.mpr (by simp))
    refine hSlot.fill (.negUnit (.name ?_ ?_))
    · exact (ofWord_eq_name_iff _).mpr (by rwa [String.ofList_toList])
    · exact String.ofList_toList
  | not a ih =>
    -- the word `not` and the operand, wherever they stand, are read as one sum
    have hInside : ∀ t : Token, t.kind = .not → ∀ start,
        Derives .iff (t :: (a.wording [' ']).tokens start) (a.readInto .negated).total := by
      intro t hToken start
      have hTold := ih h (keywordFree_not.mp hNames) (.negated hToken) [' '] start
      exact hTold.total.weaken (by decide)
    refine hSlot.fill (.negUnit ?_)
    rw [wording, Wording.tokens, Wording.tokens, Wording.tokens_append]
    exact .group rfl (hInside _ rfl _) rfl
  | binary op l r ihl ihr =>
    obtain ⟨hl, hr⟩ := keywordFree_binary.mp hNames
    have hLeft := ihl h.1 hl hSlot gap start
    -- what is read of the left operand is where the right operand goes on
    have hRight : ∀ t : Token, t.kind = .connective op.connective → ∀ start', Reading.Told
        (ts ++ ((l.wording gap).tokens start ++ t :: (r.wording [' ']).tokens start'))
        (r.readInto (.after (l.readInto slot) op)) := by
      intro t hToken start'
      have hTold := ihr h.2 hr (.after hLeft hToken) [' '] start'
      simpa using hTold
    rw [wording, Wording.tokens_append, Wording.tokens]
    exact hRight _ (by cases op <;> rfl) _

/-- The text is read as the reread formula, when no name is a keyword. -/
theorem parse_text {f : Formula} (h : f.Complete) (hNames : f.KeywordFree) :
    parse f.text = .ok f.reread := by
  rw [parse_eq_ok_iff, ofText_text h]
  have hTold := told_readInto h hNames .start [] 0
  exact ⟨rfl, hTold.total.weaken (by decide)⟩

end Formula

-- ---------------------------------------------------------------------------
-- The round trip
-- ---------------------------------------------------------------------------

/-- Every name of a derived formula stands among the tokens. -/
theorem Derives.exists_name {s : Stratum} {ts : List Token} {f : Formula} (h : Derives s ts f)
    {n : Name} (hn : n ∈ f.leaves) : ∃ t ∈ ts, t.kind = .name ∧ t.text = n.text := by
  induction h using Derives.byShape with
  | weaken _ _ ih => exact ih hn
  | @connect c ts us t f g _ _ _ ihl ihr =>
    rcases (c.mem_leaves_apply f g n).mp hn with hn | hn
    · obtain ⟨u, hu, hName⟩ := ihl hn
      exact ⟨u, List.mem_append_left _ hu, hName⟩
    · obtain ⟨u, hu, hName⟩ := ihr hn
      exact ⟨u, List.mem_append_right _ (List.mem_cons_of_mem _ hu), hName⟩
  | not _ _ ih =>
    obtain ⟨u, hu, hName⟩ := ih hn
    exact ⟨u, List.mem_cons_of_mem _ hu, hName⟩
  | @name t m hToken hText =>
    obtain rfl : n = m := by simpa using hn
    exact ⟨t, List.mem_cons_self, hToken, hText⟩
  | constant => simp at hn
  | group _ _ _ ih =>
    obtain ⟨u, hu, hName⟩ := ih hn
    exact ⟨u, List.mem_append_left _ (List.mem_cons_of_mem _ hu), hName⟩

/-- No formula that was read has a keyword for a name. -/
theorem keywordFree_of_parse {source : String} {f : Formula} (h : parse source = .ok f) :
    f.KeywordFree := by
  intro n hn
  obtain ⟨t, ht, hKind, hText⟩ := (parse_eq_ok_iff.mp h).2.exists_name (Formula.mem_names.mp hn)
  obtain ⟨w, hName, hWord⟩ := Lexing.exists_name ht hKind
  rwa [← hText, hName]

/--
**The round trip through text.** Every formula without holes has a text. If no
variable is spelled as a keyword, the text is read as a formula with the same
leaves from left to right and as many negations, conjunctions and
disjunctions. It is read as the formula itself exactly when no variable is
spelled as a keyword and the formula is readable.
-/
theorem render_reads_back (f : Formula) (hf : f.Complete) :
    ∃ source, f.render = .ok source ∧
      (f.KeywordFree → ∃ g, parse source = .ok g ∧ g.fringe = f.fringe ∧
        g.negations = f.negations ∧ g.uses .and = f.uses .and ∧ g.uses .or = f.uses .or) ∧
      (parse source = .ok f ↔ f.KeywordFree ∧ f.Readable) := by
  refine ⟨f.text, Formula.render_complete hf, ?_, ?_⟩
  · intro hNames
    exact ⟨f.reread, Formula.parse_text hf hNames, f.fringe_reread, f.negations_reread,
      f.uses_reread .and, f.uses_reread .or⟩
  · constructor
    · intro hParse
      have hNames := keywordFree_of_parse hParse
      -- the text is read as the reread formula, so the two are one
      rw [Formula.parse_text hf hNames] at hParse
      injection hParse with hReread
      exact ⟨hNames, Formula.reread_eq_iff.mp hReread⟩
    · rintro ⟨hNames, hReadable⟩
      rw [Formula.parse_text hf hNames, Formula.reread_eq_iff.mpr hReadable]

/-- The negation of a conjunction does not come back; the conjunction of a
negation does. -/
theorem render_reads_back_sample :
    let p : Formula := .var ⟨"p", rfl⟩
    let q : Formula := .var ⟨"q", rfl⟩
    let f : Formula := .not (.and p q)
    let g : Formula := .and (.not p) q
    (f.Complete ∧ ∃ source, f.render = .ok source ∧ parse source ≠ .ok f) ∧
      g.Complete ∧ ∃ source, g.render = .ok source ∧ parse source = .ok g := by
  intro p q f g
  have hf : f.Complete := ⟨trivial, trivial⟩
  have hg : g.Complete := ⟨trivial, trivial⟩
  have hNames : g.KeywordFree := by
    simp [g, p, q, Formula.KeywordFree, Formula.mem_names, Formula.and, keywords]
  have hReadable : g.Readable := ⟨rfl, rfl, ⟨rfl, trivial⟩, trivial⟩
  obtain ⟨source, hRender, -, hBack⟩ := render_reads_back f hf
  obtain ⟨source', hRender', -, hBack'⟩ := render_reads_back g hg
  refine ⟨⟨hf, source, hRender, ?_⟩, hg, source', hRender', hBack'.mpr ⟨hNames, hReadable⟩⟩
  intro hSelf
  obtain ⟨-, hOperand, -⟩ := hBack.mp hSelf
  cases hOperand

end TruthTable
