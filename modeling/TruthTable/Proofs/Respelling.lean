import Mathlib.Data.List.Forall2
import TruthTable.Proofs.MaximalMunch
import TruthTable.Proofs.Recognition

/-!
# Spelling and spacing carry no meaning

Text without illegal characters is a printed wording: lexemes in order, each
after its separators, and separators at the end. Splitting gives back the
lexemes, and of these the grammar sees no more than their kinds and the texts
of names. So a text may be spaced anew, and its connectives spelled anew,
without a change to the formula that it is read as.

Main results:

* `exists_printed`   — text that is split to its end is a printed wording.
* `Derives.alike`    — what tokens derive is told by their kinds and by the
  texts of names.
* `splitting_undoes_printing` — both, for every text that is read.
-/

namespace TruthTable

/-- What a spelling stands for; what no table lists is a name. -/
def TokenKind.ofSpelling (s : String) : TokenKind :=
  ((symbolTable ++ keywordTable).lookup s).getD .name

/-- No word is spelled as a symbol is. -/
theorem lookup_symbolTable (w : Name) : symbolTable.lookup w.text = none := by
  refine Option.eq_none_iff_forall_ne_some.mpr fun kind hKind => ?_
  obtain ⟨x, hChars, -⟩ := mem_symbolTable_iff.mp (Table.mem_of_lookup hKind)
  obtain ⟨c, cs, hSymbol, hNotWord, -⟩ := x.head_chars
  have hMem : c ∈ w.text.toList := by simp [hChars, hSymbol]
  rw [Name.isAlphanum_of_mem hMem] at hNotWord
  cases hNotWord

theorem Lexeme.kind_eq_ofSpelling (x : Lexeme) : x.kind = .ofSpelling (String.ofList x.chars) := by
  cases x with
  | word w =>
    unfold TokenKind.ofSpelling
    rw [Lexeme.chars, String.ofList_toList, List.lookup_append, lookup_symbolTable, Option.none_or]
    exact ofWord_eq_lookup w.text
  | symbol s => cases s <;> decide

namespace Wording

/-- The text is the wording, followed by separators, and no two words touch. -/
structure Printed (l : Wording) (cs : List Char) : Prop where
  spaced : Spaced l
  text : ∃ trailing, cs = chars l ++ trailing ∧ ∀ c ∈ trailing, Lexing.isSkipped c = true

/-- The lexemes are the same in order, up to the spelling of those that are no
names and up to what stands before them. -/
def Respelled (l l' : Wording) : Prop :=
  List.Forall₂ (fun x y => x.2.kind = y.2.kind ∧ (x.2.kind = .name → x.2.chars = y.2.chars)) l l'

-- ---------------------------------------------------------------------------
-- Printed wordings
-- ---------------------------------------------------------------------------

theorem Printed.ofText {l : Wording} {cs : List Char} (h : Printed l cs) :
    Lexing.ofText cs = ⟨tokens 0 l, none⟩ := by
  obtain ⟨trailing, rfl, hTrailing⟩ := h.text
  exact splitFrom_printed h.spaced hTrailing 0

/-- A separator may be put in front of a printed wording: before its first
lexeme, or before the separators at the end. -/
theorem exists_printed_skip {l : Wording} {cs : List Char} {c : Char} (h : Printed l cs)
    (hSkipped : Lexing.isSkipped c = true) : ∃ l', Printed l' (c :: cs) := by
  obtain ⟨trailing, rfl, hTrailing⟩ := h.text
  cases l with
  | nil =>
    exact ⟨[], h.spaced, c :: trailing, rfl, List.forall_mem_cons.mpr ⟨hSkipped, hTrailing⟩⟩
  | cons piece l =>
    obtain ⟨gap, x⟩ := piece
    obtain ⟨hGap, hGaps⟩ := List.forall_mem_cons.mp h.spaced.gaps
    refine ⟨(c :: gap, x) :: l, ⟨?_, ?_⟩, trailing, rfl, hTrailing⟩
    · exact List.forall_mem_cons.mpr ⟨List.forall_mem_cons.mpr ⟨hSkipped, hGap⟩, hGaps⟩
    · -- what stands before the first lexeme is told apart by no neighbour
      exact List.isChain_cons.mpr (List.isChain_cons.mp h.spaced.words)

/-- A lexeme may be put in front of a printed wording, if no letter or digit
continues it. -/
theorem Printed.cons {l : Wording} {cs : List Char} (h : Printed l cs) (x : Lexeme)
    (hNext : x.isWord = true → ∀ d ∈ cs.head?, d.isAlphanum = false) :
    Printed (([], x) :: l) (x.chars ++ cs) := by
  obtain ⟨trailing, rfl, hTrailing⟩ := h.text
  refine ⟨h.spaced.cons (List.forall_mem_nil _) fun y hy hWord hWord' hGap => ?_, trailing, ?_,
    hTrailing⟩
  · -- a word right after this one would start with a letter
    obtain ⟨l, rfl⟩ : ∃ rest, l = y :: rest := List.head?_eq_some_iff.mp hy
    obtain ⟨gap, x'⟩ := y
    obtain rfl : gap = [] := hGap
    cases x' with
    | symbol s => cases hWord'
    | word w =>
      obtain ⟨c, rest, hText, hAlpha, -⟩ := w.toList_text
      have hHead : c.isAlphanum = false := by
        refine hNext hWord c ?_
        simp [chars, Lexeme.chars, hText]
      rw [Char.isAlphanum, hAlpha, Bool.true_or] at hHead
      cases hHead
  · rw [chars, List.nil_append, List.append_assoc]

/-- Text that is split to its end is a printed wording. -/
theorem exists_printed {start : Nat} {cs : List Char}
    (h : (Lexing.splitFrom start cs).obstacle = none) : ∃ l, Printed l cs := by
  fun_induction Lexing.splitFrom start cs with
  | case1 start =>
    exact ⟨[], ⟨List.forall_mem_nil _, .nil⟩, [], rfl, List.forall_mem_nil _⟩
  | case2 start c rest hSkipped ih =>
    obtain ⟨l, hPrinted⟩ := ih h
    exact exists_printed_skip hPrinted hSkipped
  | case3 => cases h
  | case4 start c rest hSkipped kind more hLexeme stop token others ih =>
    obtain ⟨l, hPrinted⟩ := ih h
    obtain ⟨x, hChars, -, -, hWord⟩ := Lexing.lexeme?_eq_some hLexeme
    have hText : x.chars ++ rest.drop more = c :: rest := by
      rw [hChars, List.cons_append, List.take_append_drop]
    refine ⟨([], x) :: l, hText ▸ hPrinted.cons x fun hx d hd => ?_⟩
    rw [hWord hx] at hd
    exact head?_drop_takeWhile _ _ hd

end Wording

-- ---------------------------------------------------------------------------
-- What the grammar sees of a token
-- ---------------------------------------------------------------------------

/-- The tokens differ in their places and in the spelling of what is no name. -/
structure Token.Alike (t u : Token) : Prop where
  kind : t.kind = u.kind
  text : t.kind = .name → t.text = u.text

/-- What tokens derive is told by their kinds and by the texts of names. -/
theorem Derives.alike {s : Stratum} {ts us : List Token} {f : Formula} (h : Derives s ts f)
    (hAlike : List.Forall₂ Token.Alike us ts) : Derives s us f := by
  induction h using Derives.byShape generalizing us with
  | weaken hLevel _ ih => exact (ih hAlike).weaken hLevel
  | @connect c ts us' t _ _ _ hToken _ ihLeft ihRight =>
    have hLeft := List.forall₂_take_append us ts (t :: us') hAlike
    have hRest := List.forall₂_drop_append us ts (t :: us') hAlike
    obtain ⟨u, vs, hHead, hRight, hDrop⟩ := List.forall₂_cons_right_iff.mp hRest
    rw [← List.take_append_drop ts.length us, hDrop]
    exact (ihLeft hLeft).connect c (hHead.kind.trans hToken) (ihRight hRight)
  | not hToken _ ih =>
    obtain ⟨u, vs, hHead, hRest, rfl⟩ := List.forall₂_cons_right_iff.mp hAlike
    exact .not (hHead.kind.trans hToken) (ih hRest)
  | name hToken hText =>
    obtain ⟨u, vs, hHead, hRest, rfl⟩ := List.forall₂_cons_right_iff.mp hAlike
    obtain rfl := List.forall₂_nil_right_iff.mp hRest
    have hKind := hHead.kind.trans hToken
    exact .name hKind ((hHead.text hKind).trans hText)
  | constant hToken =>
    obtain ⟨u, vs, hHead, hRest, rfl⟩ := List.forall₂_cons_right_iff.mp hAlike
    obtain rfl := List.forall₂_nil_right_iff.mp hRest
    exact .constant (hHead.kind.trans hToken)
  | @group ts t u _ hOpen _ hClose ih =>
    obtain ⟨t', vs, hHead, hRest, rfl⟩ := List.forall₂_cons_right_iff.mp hAlike
    have hInner := List.forall₂_take_append vs ts [u] hRest
    have hLast := List.forall₂_drop_append vs ts [u] hRest
    obtain ⟨u', rest, hEnd, hNil, hDrop⟩ := List.forall₂_cons_right_iff.mp hLast
    obtain rfl := List.forall₂_nil_right_iff.mp hNil
    rw [← List.take_append_drop ts.length vs, hDrop]
    exact .group (hHead.kind.trans hOpen) (ih hInner) (hEnd.kind.trans hClose)

namespace Wording

/-- The tokens of respelled wordings are alike, wherever the wordings stand. -/
theorem Respelled.alike {l l' : Wording} (h : Respelled l l') (start start' : Nat) :
    List.Forall₂ Token.Alike (tokens start' l') (tokens start l) := by
  unfold Respelled at h
  induction h generalizing start start' with
  | nil => exact .nil
  | cons hHead _ ih =>
    obtain ⟨hKind, hName⟩ := hHead
    refine .cons ⟨hKind.symm, fun hx => ?_⟩ (ih _ _)
    exact congrArg String.ofList (hName (hKind.trans hx)).symm

/-- A printed wording is read as what its tokens derive. -/
theorem Printed.parse_eq_ok_iff {l : Wording} {source : String} (h : Printed l source.toList)
    {f : Formula} : parse source = .ok f ↔ Derives .iff (tokens 0 l) f := by
  rw [TruthTable.parse_eq_ok_iff, h.ofText]
  exact and_iff_right rfl

/--
**Splitting undoes printing, for any spelling and spacing.** A printed wording
is split into its lexemes, each with what its spelling stands for and at its
place, and without an obstacle. Every text that is read is a printed wording,
and any other print of it, spelled and spaced anew, is read as the same formula.
-/
theorem splitting_undoes_printing :
    (∀ (l : Wording) (cs : List Char), Printed l cs → Lexing.ofText cs = ⟨tokens 0 l, none⟩) ∧
    (∀ x : Lexeme, x.kind = .ofSpelling (String.ofList x.chars)) ∧
    ∀ (source : String) (f : Formula), parse source = .ok f →
      (∃ l, Printed l source.toList) ∧
      ∀ (l l' : Wording) (other : String), Printed l source.toList → Printed l' other.toList →
        Respelled l l' → parse other = .ok f := by
  refine ⟨fun l cs => Printed.ofText, Lexeme.kind_eq_ofSpelling, fun source f hParse => ⟨?_, ?_⟩⟩
  · exact exists_printed (TruthTable.parse_eq_ok_iff.mp hParse).1
  · intro l l' other hPrinted hOther hRespelled
    have hDerives := hPrinted.parse_eq_ok_iff.mp hParse
    exact hOther.parse_eq_ok_iff.mpr (hDerives.alike (hRespelled.alike 0 0))

/-- A formula spelled with symbols and nothing between them is the same formula
in words, with separators of all kinds. -/
theorem splitting_undoes_printing_sample :
    parse "!p&q" = .ok (.and (.not (.var ⟨"p", rfl⟩)) (.var ⟨"q", rfl⟩)) ∧
      parse "\tnot p and\r\nq " = .ok (.and (.not (.var ⟨"p", rfl⟩)) (.var ⟨"q", rfl⟩)) ∧
      Lexing.ofText "\tnot p and\r\nq ".toList =
        ⟨[⟨.not, "not", 1, 4⟩, ⟨.name, "p", 5, 6⟩, ⟨.connective .and, "and", 7, 10⟩,
          ⟨.name, "q", 12, 13⟩], none⟩ := by
  have hSymbols : Printed [([], .symbol .bang), ([], .word ⟨"p", rfl⟩), ([], .symbol .ampersand),
      ([], .word ⟨"q", rfl⟩)] "!p&q".toList :=
    ⟨⟨by simp, by simp [Lexeme.isWord]⟩, [], rfl, List.forall_mem_nil _⟩
  have hWords : Printed [(['\t'], .word ⟨"not", rfl⟩), ([' '], .word ⟨"p", rfl⟩),
      ([' '], .word ⟨"and", rfl⟩), (['\r', '\n'], .word ⟨"q", rfl⟩)]
      "\tnot p and\r\nq ".toList :=
    ⟨⟨by simp [Lexing.isSkipped], by simp⟩, [' '], rfl, by simp [Lexing.isSkipped]⟩
  have hParse : parse "!p&q" = .ok (.and (.not (.var ⟨"p", rfl⟩)) (.var ⟨"q", rfl⟩)) := by
    have hNot : Derives .neg [⟨.not, "!", 0, 1⟩, ⟨.name, "p", 1, 2⟩] (.not (.var ⟨"p", rfl⟩)) :=
      .not rfl (.negUnit (.name rfl rfl))
    have hAnd : Derives .and ([_, _] ++ ⟨.connective .and, "&", 2, 3⟩ :: [⟨.name, "q", 3, 4⟩])
        (.and _ (.var ⟨"q", rfl⟩)) := .and (.andUnit hNot) rfl (.negUnit (.name rfl rfl))
    exact hSymbols.parse_eq_ok_iff.mpr (hAnd.weaken (by decide))
  refine ⟨hParse, (splitting_undoes_printing.2.2 _ _ hParse).2 _ _ _ hSymbols hWords ?_,
    splitting_undoes_printing.1 _ _ hWords⟩
  unfold Respelled
  simp [Lexeme.kind, Symbol.kind, TokenKind.ofWord]

end Wording

end TruthTable
