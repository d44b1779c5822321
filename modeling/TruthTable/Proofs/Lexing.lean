import Mathlib.Data.List.Chain
import Mathlib.Data.List.TakeWhile
import TruthTable.Proofs.Names
import TruthTable.Text.Basic
import TruthTable.Token.Lexer

/-!
# Splitting text into lexemes

A lexeme is a word (a letter, then letters and digits) or one of the eleven
symbols. A `Wording` is a list of lexemes, each with the separators before it.

Main results:

* `splitFrom_printed`   — splitting a printed wording gives back its lexemes at
  their places, when two neighbouring words have a separator between them.
* `splitFrom_blank`     — text of blank characters only has no tokens, though
  the splitting may meet a character that is blank and no separator.
* `exists_lexeme`       — every token is a lexeme at its place in the text.
* `exists_name`         — a token that is read as a name has the text of a name
  and is no keyword.
-/

namespace TruthTable

-- ---------------------------------------------------------------------------
-- Blank text
-- ---------------------------------------------------------------------------

/-- Nothing is left without the blank ends exactly when all is blank. -/
theorem Text.strip_eq_nil_iff {cs : List Char} :
    Text.strip cs = [] ↔ ∀ c ∈ cs, Text.isBlank c = true := by
  rw [Text.strip, Text.stripEnd, List.reverse_eq_nil_iff, List.dropWhile_eq_nil_iff]
  constructor
  · intro h
    -- a character that is kept at the front would be blank and not blank
    have hNil : cs.dropWhile Text.isBlank = [] := by
      by_contra hKept
      have hHead := List.head_dropWhile_not Text.isBlank hKept
      have hBlank := h _ (List.mem_reverse.mpr (List.head_mem hKept))
      rw [hHead] at hBlank
      cases hBlank
    exact List.dropWhile_eq_nil_iff.mp hNil
  · intro h c hc
    rw [List.dropWhile_eq_nil_iff.mpr h] at hc
    simp at hc

theorem isBlank_of_isAlpha {c : Char} (h : c.isAlpha = true) : Text.isBlank c = false := by
  have hRange := toNat_of_isAlpha h
  simp [Text.isBlank]
  omega

namespace Lexing

theorem isSkipped_of_isAlpha {c : Char} (h : c.isAlpha = true) : isSkipped c = false := by
  rw [Bool.eq_false_iff]
  intro hSkipped
  simp only [isSkipped, Bool.or_eq_true, decide_eq_true_eq] at hSkipped
  rcases hSkipped with ((rfl | rfl) | rfl) | rfl <;> exact absurd h (by decide)

/-- What is skipped continues no word. -/
theorem isAlphanum_of_isSkipped {c : Char} (h : isSkipped c = true) : c.isAlphanum = false := by
  simp only [isSkipped, Bool.or_eq_true, decide_eq_true_eq] at h
  rcases h with ((rfl | rfl) | rfl) | rfl <;> decide

/-- No token starts with a blank character. -/
theorem lexeme?_of_isBlank {c : Char} (h : Text.isBlank c = true) (rest : List Char) :
    lexeme? c rest = none := by
  unfold lexeme?
  split
  · rename_i hAlpha
    rw [isBlank_of_isAlpha hAlpha] at h
    cases h
  · split
    case h_12 => rfl
    all_goals exact absurd h (by decide)

-- ---------------------------------------------------------------------------
-- One step of the splitting
-- ---------------------------------------------------------------------------

theorem splitFrom_skip {c : Char} (h : isSkipped c = true) (start : Nat) (rest : List Char) :
    splitFrom start (c :: rest) = splitFrom (start + 1) rest := by
  rw [splitFrom, if_pos h]

/-- Separators move the place and leave no trace. -/
theorem splitFrom_gap {gap : List Char} (h : ∀ c ∈ gap, isSkipped c = true) (start : Nat)
    (rest : List Char) : splitFrom start (gap ++ rest) = splitFrom (start + gap.length) rest := by
  induction gap generalizing start with
  | nil => rfl
  | cons c gap ih =>
    rw [List.cons_append, splitFrom_skip (h c List.mem_cons_self),
      ih fun d hd => h d (List.mem_cons_of_mem _ hd)]
    congr 1
    simp only [List.length_cons]
    omega

/-- A token is taken where one starts. -/
theorem splitFrom_token {c : Char} {rest : List Char} {kind : TokenKind} {more : Nat}
    (hSkipped : isSkipped c = false) (hLexeme : lexeme? c rest = some (kind, more)) (start : Nat) :
    splitFrom start (c :: rest) =
      ⟨⟨kind, String.ofList (c :: rest.take more), start, start + 1 + more⟩ ::
          (splitFrom (start + 1 + more) (rest.drop more)).tokens,
        (splitFrom (start + 1 + more) (rest.drop more)).obstacle⟩ := by
  rw [splitFrom, if_neg (by simp [hSkipped]), hLexeme]

/-- A character that starts no token ends the splitting. -/
theorem splitFrom_obstacle {c : Char} {rest : List Char} (hSkipped : isSkipped c = false)
    (hLexeme : lexeme? c rest = none) (start : Nat) :
    splitFrom start (c :: rest) = ⟨[], some (c, start)⟩ := by
  rw [splitFrom, if_neg (by simp [hSkipped]), hLexeme]

/-- Text of blank characters only has no tokens. -/
theorem splitFrom_blank {cs : List Char} (h : ∀ c ∈ cs, Text.isBlank c = true) (start : Nat) :
    (splitFrom start cs).tokens = [] := by
  induction cs generalizing start with
  | nil => rw [splitFrom]
  | cons c cs ih =>
    cases hSkipped : isSkipped c with
    | true =>
      rw [splitFrom_skip hSkipped]
      exact ih (fun d hd => h d (List.mem_cons_of_mem _ hd)) _
    | false => rw [splitFrom_obstacle hSkipped (lexeme?_of_isBlank (h c List.mem_cons_self) cs)]

end Lexing

-- ---------------------------------------------------------------------------
-- Keywords
-- ---------------------------------------------------------------------------

/-- The words that are no names in formula text. -/
def keywords : List String :=
  ["true", "True", "false", "False", "not", "and", "or", "xor"]

/-- A word is a name unless it is a keyword. -/
theorem ofWord_eq_name_iff (word : List Char) :
    TokenKind.ofWord word = .name ↔ String.ofList word ∉ keywords := by
  unfold TokenKind.ofWord
  split <;> simp_all [keywords]

-- ---------------------------------------------------------------------------
-- Lexemes and wordings
-- ---------------------------------------------------------------------------

/-- The spellings that are not words. -/
inductive Symbol where
  | doubleArrow
  | doubleStroke
  | arrow
  | stroke
  | bang
  | tilde
  | ampersand
  | bar
  | caret
  | opening
  | closing

/-- The characters of a symbol. -/
def Symbol.chars : Symbol → List Char
  | .doubleArrow => ['<', '-', '>']
  | .doubleStroke => ['<', '=', '>']
  | .arrow => ['-', '>']
  | .stroke => ['=', '>']
  | .bang => ['!']
  | .tilde => ['~']
  | .ampersand => ['&']
  | .bar => ['|']
  | .caret => ['^']
  | .opening => ['(']
  | .closing => [')']

/-- What a symbol stands for. -/
def Symbol.kind : Symbol → TokenKind
  | .doubleArrow => .connective .iff
  | .doubleStroke => .connective .iff
  | .arrow => .connective .implies
  | .stroke => .connective .implies
  | .bang => .not
  | .tilde => .not
  | .ampersand => .connective .and
  | .bar => .connective .or
  | .caret => .connective .xor
  | .opening => .opening
  | .closing => .closing

/-- A spelling: a word or a symbol. The words are the texts that names have. -/
inductive Lexeme where
  | word (w : Name)
  | symbol (s : Symbol)

namespace Lexeme

def isWord : Lexeme → Bool
  | .word _ => true
  | .symbol _ => false

def chars : Lexeme → List Char
  | .word w => w.text.toList
  | .symbol s => s.chars

def kind : Lexeme → TokenKind
  | .word w => .ofWord w.text.toList
  | .symbol s => s.kind

/-- The token of a lexeme that stands at `start`. -/
def token (x : Lexeme) (start : Nat) : Token :=
  ⟨x.kind, String.ofList x.chars, start, start + x.chars.length⟩

end Lexeme

/-- A symbol neither continues a word nor is skipped. -/
theorem Symbol.head_chars (s : Symbol) : ∃ c cs, s.chars = c :: cs ∧ c.isAlphanum = false ∧
    Lexing.isSkipped c = false := by
  cases s <;> exact ⟨_, _, rfl, by decide, by decide⟩

namespace Lexing

/-- A symbol is taken, whatever follows it. -/
theorem lexeme?_symbol {s : Symbol} {c : Char} {cs : List Char} (h : s.chars = c :: cs)
    (rest : List Char) : lexeme? c (cs ++ rest) = some (s.kind, cs.length) := by
  cases s <;> obtain ⟨rfl, rfl⟩ := List.cons.inj h <;> rfl

/-- A word is taken up to the first character that is no letter or digit. -/
theorem lexeme?_word {c : Char} {cs rest : List Char} (hAlpha : c.isAlpha = true)
    (hWord : ∀ d ∈ cs, d.isAlphanum = true) (hNext : ∀ d ∈ rest.head?, d.isAlphanum = false) :
    lexeme? c (cs ++ rest) = some (.ofWord (c :: cs), cs.length) := by
  have hStop : rest.takeWhile Char.isAlphanum = [] := by
    cases rest with
    | nil => rfl
    | cons d rest => exact List.takeWhile_cons_of_neg (by simp [hNext d rfl])
  unfold lexeme?
  rw [if_pos hAlpha, List.takeWhile_append_of_pos hWord, hStop, List.append_nil]

/-- What the lexer takes is the characters of a lexeme; a word is taken as far
as letters and digits reach. -/
theorem lexeme?_eq_some {c : Char} {rest : List Char} {kind : TokenKind} {more : Nat}
    (h : lexeme? c rest = some (kind, more)) :
    ∃ x : Lexeme, x.chars = c :: rest.take more ∧ x.chars.length = more + 1 ∧ x.kind = kind ∧
      (x.isWord = true → more = (rest.takeWhile Char.isAlphanum).length) := by
  unfold lexeme? at h
  split at h
  · rename_i hAlpha
    simp only [Option.some.injEq, Prod.mk.injEq] at h
    obtain ⟨rfl, rfl⟩ := h
    have hTake : rest.take (rest.takeWhile Char.isAlphanum).length =
        rest.takeWhile Char.isAlphanum :=
      (List.prefix_iff_eq_take.mp (List.takeWhile_prefix _)).symm
    have hWord : isName (String.ofList (c :: rest.takeWhile Char.isAlphanum)) = true := by
      simp only [isName, String.toList_ofList, hAlpha, Bool.true_and]
      exact List.all_takeWhile
    refine ⟨.word ⟨_, hWord⟩, ?_, ?_, ?_, fun _ => rfl⟩
    · rw [Lexeme.chars, String.toList_ofList, hTake]
    · rw [Lexeme.chars, String.toList_ofList, List.length_cons]
    · rw [Lexeme.kind, String.toList_ofList]
  · -- one symbol for each spelling; the two arrows of equivalence come first
    split at h <;> simp only [Option.some.injEq, Prod.mk.injEq, reduceCtorEq] at h <;>
      obtain ⟨rfl, rfl⟩ := h
    · exact ⟨.symbol .doubleArrow, rfl, rfl, rfl, nofun⟩
    · exact ⟨.symbol .doubleStroke, rfl, rfl, rfl, nofun⟩
    · exact ⟨.symbol .arrow, rfl, rfl, rfl, nofun⟩
    · exact ⟨.symbol .stroke, rfl, rfl, rfl, nofun⟩
    · exact ⟨.symbol .bang, rfl, rfl, rfl, nofun⟩
    · exact ⟨.symbol .tilde, rfl, rfl, rfl, nofun⟩
    · exact ⟨.symbol .ampersand, rfl, rfl, rfl, nofun⟩
    · exact ⟨.symbol .bar, rfl, rfl, rfl, nofun⟩
    · exact ⟨.symbol .caret, rfl, rfl, rfl, nofun⟩
    · exact ⟨.symbol .opening, rfl, rfl, rfl, nofun⟩
    · exact ⟨.symbol .closing, rfl, rfl, rfl, nofun⟩

/-- Every token is a lexeme at its place in the text. -/
theorem exists_lexeme {start : Nat} {cs : List Char} {t : Token}
    (ht : t ∈ (splitFrom start cs).tokens) :
    ∃ (x : Lexeme) (place : Nat), start ≤ place ∧ t = x.token place ∧
      x.chars <+: cs.drop (place - start) := by
  fun_induction splitFrom start cs with
  | case1 => simp at ht
  | case2 start c rest hSkipped ih =>
    obtain ⟨x, place, hPlace, hToken, hChars⟩ := ih ht
    have hDrop : place - start = place - (start + 1) + 1 := by omega
    exact ⟨x, place, by omega, hToken, by rwa [hDrop, List.drop_succ_cons]⟩
  | case3 => simp at ht
  | case4 start c rest hSkipped kind more hLexeme stop token others ih =>
    rcases List.mem_cons.mp ht with rfl | ht
    · obtain ⟨x, hChars, hLength, hKind, -⟩ := lexeme?_eq_some hLexeme
      refine ⟨x, start, Nat.le_refl start, ?_, ?_⟩
      · rw [Lexeme.token, hKind, hLength, hChars, Nat.add_comm more 1, ← Nat.add_assoc]
      · rw [Nat.sub_self, List.drop_zero, hChars]
        exact List.cons_prefix_cons.mpr ⟨rfl, List.take_prefix more rest⟩
    · obtain ⟨x, place, hPlace, hToken, hChars⟩ := ih ht
      have hDrop : place - start = (more + (place - stop)) + 1 := by omega
      exact ⟨x, place, by omega, hToken, by rwa [hDrop, List.drop_succ_cons, ← List.drop_drop]⟩

/-- A token that is read as a name has the text of a name that is no
keyword. -/
theorem exists_name {start : Nat} {cs : List Char} {t : Token}
    (ht : t ∈ (splitFrom start cs).tokens) (hKind : t.kind = .name) :
    ∃ w : Name, t.text = w.text ∧ w.text ∉ keywords := by
  obtain ⟨x, place, -, rfl, -⟩ := exists_lexeme ht
  cases x with
  | word w =>
    have hWord := (ofWord_eq_name_iff _).mp hKind
    rw [String.ofList_toList] at hWord
    exact ⟨w, String.ofList_toList, hWord⟩
  | symbol s => cases s <;> cases hKind

/-- A lexeme is taken whole; after a word no letter or digit may follow. -/
theorem lexeme?_chars (x : Lexeme) {rest : List Char}
    (hNext : x.isWord = true → ∀ d ∈ rest.head?, d.isAlphanum = false) :
    ∃ c cs, x.chars = c :: cs ∧ isSkipped c = false ∧
      lexeme? c (cs ++ rest) = some (x.kind, cs.length) := by
  cases x with
  | word w =>
    obtain ⟨c, cs, hChars, hAlpha, hWord⟩ := w.toList_text
    refine ⟨c, cs, hChars, isSkipped_of_isAlpha hAlpha, ?_⟩
    rw [Lexeme.kind, hChars]
    exact lexeme?_word hAlpha hWord (hNext rfl)
  | symbol s =>
    obtain ⟨c, cs, hChars, -, hSkipped⟩ := s.head_chars
    exact ⟨c, cs, hChars, hSkipped, lexeme?_symbol hChars rest⟩

/-- A lexeme is split off whole. -/
theorem splitFrom_lexeme (x : Lexeme) {rest : List Char}
    (hNext : x.isWord = true → ∀ d ∈ rest.head?, d.isAlphanum = false) (start : Nat) :
    splitFrom start (x.chars ++ rest) =
      ⟨x.token start :: (splitFrom (start + x.chars.length) rest).tokens,
        (splitFrom (start + x.chars.length) rest).obstacle⟩ := by
  obtain ⟨c, cs, hChars, hSkipped, hLexeme⟩ := lexeme?_chars x hNext
  have hStop : start + 1 + cs.length = start + x.chars.length := by
    rw [hChars, List.length_cons]
    omega
  rw [Lexeme.token, hChars, List.cons_append, splitFrom_token hSkipped hLexeme, hStop,
    List.take_left, List.drop_left, hChars]

end Lexing

/-- Lexemes in order, each with the characters before it. -/
abbrev Wording := List (List Char × Lexeme)

namespace Wording

/-- The text of a wording. -/
def chars : Wording → List Char
  | [] => []
  | (gap, x) :: rest => gap ++ (x.chars ++ chars rest)

/-- The tokens of a wording that starts at `start`. -/
def tokens (start : Nat) : Wording → List Token
  | [] => []
  | (gap, x) :: rest =>
    x.token (start + gap.length) :: tokens (start + gap.length + x.chars.length) rest

/-- Nothing but separators stands between lexemes, and something stands
between two words. -/
structure Spaced (l : Wording) : Prop where
  gaps : ∀ piece ∈ l, ∀ c ∈ piece.1, Lexing.isSkipped c = true
  words : l.IsChain fun x y => x.2.isWord = true → y.2.isWord = true → y.1 ≠ []

theorem chars_append (l m : Wording) : chars (l ++ m) = chars l ++ chars m := by
  induction l with
  | nil => rfl
  | cons piece l ih =>
    obtain ⟨gap, x⟩ := piece
    simp [chars, ih]

/-- The tokens of two wordings, those of the second one moved behind the first. -/
theorem tokens_append (start : Nat) (l m : Wording) :
    tokens start (l ++ m) = tokens start l ++ tokens (start + (chars l).length) m := by
  induction l generalizing start with
  | nil => rfl
  | cons piece l ih =>
    obtain ⟨gap, x⟩ := piece
    simp [tokens, chars, ih, Nat.add_assoc]

/-- A lexeme may be put in front of a spaced wording, if it is a symbol or if
something stands after it. -/
theorem Spaced.cons {gap : List Char} {x : Lexeme} {l : Wording} (h : Spaced l)
    (hGap : ∀ c ∈ gap, Lexing.isSkipped c = true)
    (hNext : ∀ y ∈ l.head?, x.isWord = true → y.2.isWord = true → y.1 ≠ []) :
    Spaced ((gap, x) :: l) where
  gaps := by
    intro piece hPiece
    rcases List.mem_cons.mp hPiece with rfl | hPiece
    · exact hGap
    · exact h.gaps piece hPiece
  words := List.isChain_cons.mpr ⟨hNext, h.words⟩

/-- Spaced wordings may be joined, if the second starts with a symbol or after
a separator. -/
theorem Spaced.append {l m : Wording} (hl : Spaced l) (hm : Spaced m)
    (hNext : ∀ y ∈ m.head?, y.2.isWord = true → y.1 ≠ []) : Spaced (l ++ m) where
  gaps := by
    intro piece hPiece
    rcases List.mem_append.mp hPiece with hPiece | hPiece
    · exact hl.gaps piece hPiece
    · exact hm.gaps piece hPiece
  words := hl.words.append hm.words fun _ _ y hy _ => hNext y hy

/-- After a word of a spaced wording comes no letter or digit. -/
theorem Spaced.next {x : Lexeme} {gap trailing : List Char} {l : Wording}
    (h : Spaced ((gap, x) :: l)) (hTrailing : ∀ c ∈ trailing, Lexing.isSkipped c = true)
    (hWord : x.isWord = true) : ∀ d ∈ (chars l ++ trailing).head?, d.isAlphanum = false := by
  intro d hd
  match l, h with
  | [], _ =>
    exact Lexing.isAlphanum_of_isSkipped (hTrailing d (List.mem_of_mem_head? hd))
  | (e :: gap', y) :: l, h =>
    have hSkipped := h.gaps (e :: gap', y) (by simp) e List.mem_cons_self
    have hEq : d = e := by simpa [chars, eq_comm] using hd
    exact hEq ▸ Lexing.isAlphanum_of_isSkipped hSkipped
  | ([], y) :: l, h =>
    -- nothing between: the neighbour is a symbol
    have hWords := (List.isChain_cons_cons.mp h.words).1 hWord
    cases y with
    | word w => exact absurd rfl (hWords rfl)
    | symbol s =>
      obtain ⟨e, cs, hChars, hHead, -⟩ := s.head_chars
      have hEq : d = e := by simpa [chars, Lexeme.chars, hChars, eq_comm] using hd
      exact hEq ▸ hHead

/--
**Splitting undoes printing.** A spaced wording, followed by separators only,
is split into its lexemes at their places, and no obstacle is met.
-/
theorem splitFrom_printed {l : Wording} (h : Spaced l) {trailing : List Char}
    (hTrailing : ∀ c ∈ trailing, Lexing.isSkipped c = true) (start : Nat) :
    Lexing.splitFrom start (chars l ++ trailing) = ⟨tokens start l, none⟩ := by
  induction l generalizing start with
  | nil =>
    have hGap := Lexing.splitFrom_gap hTrailing start []
    rw [List.append_nil] at hGap
    rw [chars, List.nil_append, hGap, Lexing.splitFrom]
    rfl
  | cons piece l ih =>
    obtain ⟨gap, x⟩ := piece
    have hRest : Spaced l :=
      ⟨fun piece hp => h.gaps piece (List.mem_cons_of_mem _ hp), h.words.tail⟩
    have hGap : ∀ c ∈ gap, Lexing.isSkipped c = true := h.gaps (gap, x) List.mem_cons_self
    rw [chars, List.append_assoc, List.append_assoc, Lexing.splitFrom_gap hGap,
      Lexing.splitFrom_lexeme x (h.next hTrailing), ih hRest]
    rfl

end Wording

end TruthTable
