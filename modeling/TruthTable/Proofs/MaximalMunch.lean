import Mathlib.Order.Bounds.Basic
import TruthTable.Proofs.Lexing
import TruthTable.Table

/-!
# The splitting of a text is its maximal munch

What the tokens of a text are, said by positions and without a loop: they stand
in the text in order, words are as long as they can be, nothing but separators
stands between them, and they end at the least position that can be neither
skipped nor the start of a token. `MaximalMunch text start l` says this of the
text from a position on, so that it can be followed along the splitting: each
case of one step of the splitting is an equivalence.

Main results:

* `stands_iff`          — the tokens that can stand at a position are those that
  the lexer takes there.
* `maximalMunch_end`, `maximalMunch_skip`, `maximalMunch_obstacle`,
  `maximalMunch_token` — one step.
* `maximalMunch_iff`    — the splitting from a position on.
* `tokens_are_maximal_munch` — a splitting is that of the text exactly when it
  is its maximal munch.
-/

namespace TruthTable

-- ---------------------------------------------------------------------------
-- Spellings
-- ---------------------------------------------------------------------------

/-- The spellings that are no words, with what they stand for. -/
def symbolTable : List (String × TokenKind) :=
  [("<->", .connective .iff), ("<=>", .connective .iff), ("->", .connective .implies),
   ("=>", .connective .implies), ("!", .not), ("~", .not), ("&", .connective .and),
   ("|", .connective .or), ("^", .connective .xor), ("(", .opening), (")", .closing)]

/-- The words that are no names, with what they stand for. -/
def keywordTable : List (String × TokenKind) :=
  [("true", .constant true), ("True", .constant true), ("false", .constant false),
   ("False", .constant false), ("not", .not), ("and", .connective .and), ("or", .connective .or),
   ("xor", .connective .xor)]

/-- The table lists the symbols. -/
theorem mem_symbolTable_iff {s : String} {kind : TokenKind} :
    (s, kind) ∈ symbolTable ↔ ∃ x : Symbol, s.toList = x.chars ∧ kind = x.kind := by
  constructor
  · intro h
    simp only [symbolTable, List.mem_cons, Prod.mk.injEq, List.not_mem_nil, or_false] at h
    rcases h with ⟨rfl, rfl⟩ | ⟨rfl, rfl⟩ | ⟨rfl, rfl⟩ | ⟨rfl, rfl⟩ | ⟨rfl, rfl⟩ | ⟨rfl, rfl⟩ |
      ⟨rfl, rfl⟩ | ⟨rfl, rfl⟩ | ⟨rfl, rfl⟩ | ⟨rfl, rfl⟩ | ⟨rfl, rfl⟩
    · exact ⟨.doubleArrow, rfl, rfl⟩
    · exact ⟨.doubleStroke, rfl, rfl⟩
    · exact ⟨.arrow, rfl, rfl⟩
    · exact ⟨.stroke, rfl, rfl⟩
    · exact ⟨.bang, rfl, rfl⟩
    · exact ⟨.tilde, rfl, rfl⟩
    · exact ⟨.ampersand, rfl, rfl⟩
    · exact ⟨.bar, rfl, rfl⟩
    · exact ⟨.caret, rfl, rfl⟩
    · exact ⟨.opening, rfl, rfl⟩
    · exact ⟨.closing, rfl, rfl⟩
  · rintro ⟨x, hText, rfl⟩
    have hs : s = String.ofList x.chars := by rw [← hText, String.ofList_toList]
    rw [hs]
    cases x <;> decide

/-- The kind of a word stands in the table of keywords, or it is a name. -/
theorem ofWord_eq_lookup (s : String) :
    TokenKind.ofWord s.toList = (keywordTable.lookup s).getD .name := by
  unfold TokenKind.ofWord
  rw [String.ofList_toList]
  split <;> simp_all [keywordTable, Table.lookup_cons_eq]

/-- A token can start here: with a letter, or with a symbol. -/
def Starts (cs : List Char) : Prop :=
  (∃ c ∈ cs.head?, c.isAlpha = true) ∨ ∃ spelling ∈ symbolTable, spelling.1.toList <+: cs

/-- A token can start exactly where the lexer takes one. -/
theorem starts_iff (c : Char) (rest : List Char) :
    Starts (c :: rest) ↔ Lexing.lexeme? c rest ≠ none := by
  constructor
  · rintro (⟨d, hd, hAlpha⟩ | ⟨⟨s, kind⟩, hSymbol, hPrefix⟩)
    · obtain rfl : c = d := Option.some.inj hd
      simp [Lexing.lexeme?, hAlpha]
    · obtain ⟨x, hChars, -⟩ := mem_symbolTable_iff.mp hSymbol
      obtain ⟨d, cs, hx, -, -⟩ := x.head_chars
      simp only [hChars, hx] at hPrefix
      obtain ⟨rfl, later, rfl⟩ := List.cons_prefix_cons.mp hPrefix
      simp [Lexing.lexeme?_symbol hx later]
  · intro hSome
    obtain ⟨⟨kind, more⟩, hLexeme⟩ := Option.ne_none_iff_exists'.mp hSome
    obtain ⟨x, hChars, -, -, -⟩ := Lexing.lexeme?_eq_some hLexeme
    cases x with
    | word w =>
      obtain ⟨d, cs, hText, hAlpha, -⟩ := w.toList_text
      obtain ⟨rfl, -⟩ := List.cons.inj (hText.symm.trans hChars)
      exact .inl ⟨d, rfl, hAlpha⟩
    | symbol x =>
      refine .inr ⟨(String.ofList x.chars, x.kind), ?_, ?_⟩
      · exact mem_symbolTable_iff.mpr ⟨x, String.toList_ofList, rfl⟩
      · show (String.ofList x.chars).toList <+: c :: rest
        rw [String.toList_ofList, show x.chars = c :: rest.take more from hChars]
        exact List.cons_prefix_cons.mpr ⟨rfl, List.take_prefix more rest⟩

-- ---------------------------------------------------------------------------
-- Tokens in a text
-- ---------------------------------------------------------------------------

/-- The token is a piece of the text, spelled as a symbol or as a word that no
letter or digit continues. -/
structure Token.StandsIn (t : Token) (text : List Char) : Prop where
  start_lt_stop : t.start < t.stop
  stop_le : t.stop ≤ text.length
  text_eq : t.text.toList = (text.take t.stop).drop t.start
  spelled : (t.text, t.kind) ∈ symbolTable ∨
    isName t.text = true ∧ (∀ c, text[t.stop]? = some c → c.isAlphanum = false) ∧
      t.kind = (keywordTable.lookup t.text).getD .name

namespace Token.StandsIn

variable {t : Token} {text : List Char}

/-- The text from the token on is that of the token and what follows it. -/
theorem drop_eq (h : t.StandsIn text) :
    text.drop t.start = t.text.toList ++ text.drop t.stop := by
  have hLength : t.start ≤ (text.take t.stop).length := by
    rw [List.length_take, Nat.min_eq_left h.stop_le]
    exact Nat.le_of_lt h.start_lt_stop
  rw [h.text_eq, ← List.drop_append_of_le_length hLength, List.take_append_drop]

/-- A token is as long as its text. -/
theorem stop_eq (h : t.StandsIn text) : t.stop = t.start + t.text.toList.length := by
  have hStop := h.stop_le
  have hStart := h.start_lt_stop
  rw [h.text_eq, List.length_drop, List.length_take]
  omega

/-- A token that stands in a text is spelled as a lexeme, which is maximal if it
is a word. -/
theorem exists_lexeme (h : t.StandsIn text) : ∃ x : Lexeme, x.chars = t.text.toList ∧
    x.kind = t.kind ∧ (x.isWord = true → ∀ d ∈ (text.drop t.stop).head?, d.isAlphanum = false) := by
  rcases h.spelled with hSymbol | ⟨hName, hNext, hKind⟩
  · obtain ⟨x, hChars, hKind⟩ := mem_symbolTable_iff.mp hSymbol
    exact ⟨.symbol x, hChars.symm, hKind.symm, nofun⟩
  · refine ⟨.word ⟨t.text, hName⟩, rfl, ?_, fun _ d hd => ?_⟩
    · rw [hKind, ← ofWord_eq_lookup]
      rfl
    · rw [List.head?_drop] at hd
      exact hNext d hd

end Token.StandsIn

/-- The first member after those that are taken fails the test. -/
theorem head?_drop_takeWhile {α : Type} (p : α → Bool) (xs : List α) {x : α}
    (h : (xs.drop (xs.takeWhile p).length).head? = some x) : p x = false := by
  induction xs with
  | nil => cases h
  | cons y xs ih =>
    cases hy : p y with
    | true =>
      rw [List.takeWhile_cons_of_pos hy, List.length_cons, List.drop_succ_cons] at h
      exact ih h
    | false =>
      rw [List.takeWhile_cons_of_neg (by simp [hy]), List.length_nil, List.drop_zero] at h
      exact Option.some.inj h ▸ hy

/-- The tokens that can stand at a position are those that the lexer takes
there. -/
theorem stands_iff {text rest : List Char} {c : Char} {start : Nat} {t : Token}
    (hText : text.drop start = c :: rest) : t.StandsIn text ∧ t.start = start ↔
      Lexing.isSkipped c = false ∧ ∃ kind more, Lexing.lexeme? c rest = some (kind, more) ∧
        t = ⟨kind, String.ofList (c :: rest.take more), start, start + 1 + more⟩ := by
  constructor
  · rintro ⟨hStands, rfl⟩
    obtain ⟨x, hChars, hKind, hNext⟩ := hStands.exists_lexeme
    obtain ⟨d, cs, hx, hSkipped, hLexeme⟩ := Lexing.lexeme?_chars x hNext
    have hDrop := hStands.drop_eq
    rw [hText, ← hChars, hx, List.cons_append] at hDrop
    obtain ⟨rfl, rfl⟩ := List.cons.inj hDrop
    refine ⟨hSkipped, x.kind, cs.length, hLexeme, ?_⟩
    have hStop := hStands.stop_eq
    rw [← hChars, hx, List.length_cons] at hStop
    obtain ⟨kind, s, start, stop⟩ := t
    simp only [Token.mk.injEq, true_and]
    refine ⟨hKind.symm, ?_, ?_⟩
    · rw [List.take_left, ← hx, hChars, String.ofList_toList]
    · simp only at hStop
      omega
  · rintro ⟨hSkipped, kind, more, hLexeme, rfl⟩
    obtain ⟨x, hChars, hLength, hKind, hWord⟩ := Lexing.lexeme?_eq_some hLexeme
    have hMore : more ≤ rest.length := by
      have := congrArg List.length hChars
      simp only [hLength, List.length_cons, List.length_take] at this
      omega
    have hSize := congrArg List.length hText
    simp only [List.length_drop, List.length_cons] at hSize
    have hStop : text.drop (start + 1 + more) = rest.drop more := by
      rw [Nat.add_assoc, ← List.drop_drop, hText, Nat.add_comm 1 more, List.drop_succ_cons]
    refine ⟨⟨?_, ?_, ?_, ?_⟩, rfl⟩
    · show start < start + 1 + more
      omega
    · show start + 1 + more ≤ text.length
      omega
    · show (String.ofList (c :: rest.take more)).toList = (text.take (start + 1 + more)).drop start
      rw [String.toList_ofList, List.drop_take, hText,
        show start + 1 + more - start = more + 1 by omega, List.take_succ_cons]
    · cases x with
      | symbol x =>
        refine .inl (mem_symbolTable_iff.mpr ⟨x, ?_, hKind.symm⟩)
        rw [String.toList_ofList]
        exact hChars.symm
      | word w =>
        have hName : w.text = String.ofList (c :: rest.take more) := by
          rw [← hChars]
          exact String.ofList_toList.symm
        refine .inr ⟨?_, ?_, ?_⟩
        · exact hName ▸ w.valid
        · intro d hd
          rw [← List.head?_drop, hStop, hWord rfl] at hd
          exact head?_drop_takeWhile _ _ hd
        · rw [← hKind, ← hName, ← ofWord_eq_lookup]
          rfl

-- ---------------------------------------------------------------------------
-- Segmentations
-- ---------------------------------------------------------------------------

namespace Lexing

/-- No token covers the position. -/
def Outside (l : Lexing) (i : Nat) : Prop :=
  ∀ t ∈ l.tokens, ¬ (t.start ≤ i ∧ i < t.stop)

/-- The positions from `start` on that no token covers, whose character is not
skipped and where no token can start. -/
def illegal (l : Lexing) (text : List Char) (start : Nat) : Set Nat :=
  {i | start ≤ i ∧ l.Outside i ∧
    (∃ c, text[i]? = some c ∧ isSkipped c = false) ∧ ¬ Starts (text.drop i)}

/-- Where the splitting stops. -/
def reach (l : Lexing) (text : List Char) : Nat :=
  (l.obstacle.map Prod.snd).getD text.length

/-- The tokens stand in the text from `start` on, in order, with nothing but
separators between them, up to the end of the text or the least illegal
position. -/
structure MaximalMunch (l : Lexing) (text : List Char) (start : Nat) : Prop where
  stands : ∀ t ∈ l.tokens, t.StandsIn text
  bounds : ∀ t ∈ l.tokens, start ≤ t.start ∧ t.stop ≤ l.reach text
  ordered : l.tokens.Pairwise fun t u => t.stop ≤ u.start
  gaps : ∀ i c, start ≤ i → i < l.reach text → l.Outside i → text[i]? = some c →
    isSkipped c = true
  obstacle_iff : ∀ c p, l.obstacle = some (c, p) ↔
    IsLeast (l.illegal text start) p ∧ text[p]? = some c

variable {text rest : List Char} {c : Char} {start : Nat} {l : Lexing}

/-- A position is outside of the first token and of the others. -/
theorem outside_cons {t : Token} {ts : List Token} {o : Option (Char × Nat)} {i : Nat} :
    Outside ⟨t :: ts, o⟩ i ↔ ¬ (t.start ≤ i ∧ i < t.stop) ∧ Outside ⟨ts, o⟩ i :=
  List.forall_mem_cons

/-- Of the positions of the first token none is illegal. -/
theorem illegal_cons {t : Token} {ts : List Token} {o : Option (Char × Nat)}
    (hPiece : t.start < t.stop) :
    illegal ⟨t :: ts, o⟩ text t.start = illegal ⟨ts, o⟩ text t.stop := by
  ext i
  simp only [illegal, Set.mem_ofPred_eq, outside_cons]
  constructor
  · rintro ⟨hStart, ⟨hNotIn, hOutside⟩, hChar⟩
    exact ⟨by omega, hOutside, hChar⟩
  · rintro ⟨hStop, hOutside, hChar⟩
    exact ⟨by omega, ⟨by omega, hOutside⟩, hChar⟩

/-- A separator may be left out at the front. -/
theorem illegal_skip (hText : text[start]? = some c) (hSkipped : isSkipped c = true) :
    l.illegal text start = l.illegal text (start + 1) := by
  ext i
  simp only [illegal, Set.mem_ofPred_eq]
  constructor
  · rintro ⟨hStart, hOutside, ⟨d, hd, hKept⟩, hStarts⟩
    have hNe : i ≠ start := by
      rintro rfl
      obtain rfl : c = d := Option.some.inj (hText.symm.trans hd)
      rw [hSkipped] at hKept
      cases hKept
    exact ⟨by omega, hOutside, ⟨d, hd, hKept⟩, hStarts⟩
  · rintro ⟨hStart, hIllegal⟩
    exact ⟨by omega, hIllegal⟩

theorem getElem?_of_drop (hText : text.drop start = c :: rest) : text[start]? = some c := by
  rw [← List.head?_drop, hText]
  rfl

theorem lt_length_of_drop (hText : text.drop start = c :: rest) : start < text.length := by
  have hLength := congrArg List.length hText
  simp only [List.length_drop, List.length_cons] at hLength
  omega

namespace MaximalMunch

/-- The splitting stops nowhere before it starts. -/
theorem le_reach (h : l.MaximalMunch text start) (hStart : start ≤ text.length) :
    start ≤ l.reach text := by
  unfold reach
  cases hObstacle : l.obstacle with
  | none => exact hStart
  | some obstacle =>
    obtain ⟨c, p⟩ := obstacle
    exact ((h.obstacle_iff c p).mp hObstacle).1.1.1

/-- Only a token that starts at the first position covers it. -/
theorem exists_first (h : l.MaximalMunch text start) (hIn : ¬ l.Outside start) :
    ∃ t ts, l.tokens = t :: ts ∧ t.StandsIn text ∧ t.start = start := by
  unfold Outside at hIn
  push Not at hIn
  obtain ⟨t, ht, hStart, hStop⟩ := hIn
  have hBound := (h.bounds t ht).1
  have hOrdered := h.ordered
  have hStands := h.stands
  cases hTokens : l.tokens with
  | nil =>
    rw [hTokens] at ht
    cases ht
  | cons u us =>
    rw [hTokens] at ht hOrdered hStands
    refine ⟨u, us, rfl, hStands u List.mem_cons_self, ?_⟩
    rcases List.mem_cons.mp ht with rfl | ht
    · omega
    · -- a token before the one that starts here would end here at the latest
      have hBefore := (List.pairwise_cons.mp hOrdered).1 t ht
      have hPiece := (hStands u List.mem_cons_self).start_lt_stop
      have hFirst := (h.bounds u (hTokens ▸ List.mem_cons_self)).1
      omega

/-- Where a token can start, the first position is covered. -/
theorem not_outside (h : l.MaximalMunch text start) (hText : text.drop start = c :: rest)
    (hSkipped : isSkipped c = false) (hLexeme : lexeme? c rest ≠ none) : ¬ l.Outside start := by
  intro hOutside
  have hChar := getElem?_of_drop hText
  have hLength := lt_length_of_drop hText
  rcases Nat.eq_or_lt_of_le (h.le_reach (Nat.le_of_lt hLength)) with hReach | hReach
  · -- the splitting stops here: at an obstacle, for the text goes on
    unfold reach at hReach
    cases hObstacle : l.obstacle with
    | none =>
      rw [hObstacle] at hReach
      exact absurd hReach (Nat.ne_of_lt hLength)
    | some obstacle =>
      obtain ⟨d, p⟩ := obstacle
      rw [hObstacle] at hReach
      obtain rfl : start = p := hReach
      have hIllegal := ((h.obstacle_iff d start).mp hObstacle).1.1
      exact hIllegal.2.2.2 (hText ▸ (starts_iff c rest).mpr hLexeme)
  · have hGap := h.gaps start c (Nat.le_refl start) hReach hOutside hChar
    rw [hSkipped] at hGap
    cases hGap

end MaximalMunch

-- ---------------------------------------------------------------------------
-- One step
-- ---------------------------------------------------------------------------

theorem maximalMunch_end (hText : text.drop start = []) :
    l.MaximalMunch text start ↔ l = ⟨[], none⟩ := by
  have hLength := List.drop_eq_nil_iff.mp hText
  have hNone : ∀ l : Lexing, l.illegal text start = ∅ := by
    intro l
    refine Set.eq_empty_iff_forall_notMem.mpr fun i hi => ?_
    obtain ⟨hStart, -, ⟨c, hc, -⟩, -⟩ := hi
    rw [List.getElem?_eq_none (by omega)] at hc
    cases hc
  constructor
  · intro h
    obtain ⟨tokens, obstacle⟩ := l
    have hObstacle : obstacle = none := by
      refine Option.eq_none_iff_forall_ne_some.mpr fun ⟨c, p⟩ hObstacle => ?_
      have hLeast := ((h.obstacle_iff c p).mp hObstacle).1.1
      rw [hNone] at hLeast
      exact hLeast
    have hTokens : tokens = [] := by
      refine List.eq_nil_iff_forall_not_mem.mpr fun t ht => ?_
      have hBound := (h.bounds t ht).1
      have hPiece := (h.stands t ht).start_lt_stop
      have hStop := (h.stands t ht).stop_le
      omega
    rw [hObstacle, hTokens]
  · rintro rfl
    refine ⟨nofun, nofun, .nil, fun i c hStart hReach => ?_, fun c p => ?_⟩
    · have hStop : i < text.length := hReach
      omega
    · refine ⟨nofun, fun hLeast => ?_⟩
      have hIllegal := hLeast.1.1
      rw [hNone] at hIllegal
      exact hIllegal.elim

/-- Before a separator and after it the same is left to split. -/
theorem maximalMunch_skip (hText : text.drop start = c :: rest) (hSkipped : isSkipped c = true) :
    l.MaximalMunch text start ↔ l.MaximalMunch text (start + 1) := by
  have hChar := getElem?_of_drop hText
  constructor
  · intro h
    refine ⟨h.stands, fun t ht => ⟨?_, (h.bounds t ht).2⟩, h.ordered,
      fun i d hStart => h.gaps i d (by omega), fun d p => ?_⟩
    · have hStart := (h.bounds t ht).1
      have hNe : t.start ≠ start := by
        intro hAt
        have hKept := ((stands_iff hText).mp ⟨h.stands t ht, hAt⟩).1
        rw [hSkipped] at hKept
        cases hKept
      omega
    · rw [h.obstacle_iff, illegal_skip hChar hSkipped]
  · intro h
    refine ⟨h.stands, fun t ht => ⟨?_, (h.bounds t ht).2⟩, h.ordered,
      fun i d hStart hReach hOutside hd => ?_, fun d p => ?_⟩
    · exact Nat.le_of_succ_le (h.bounds t ht).1
    · rcases Nat.eq_or_lt_of_le hStart with rfl | hAfter
      · exact Option.some.inj (hChar.symm.trans hd) ▸ hSkipped
      · exact h.gaps i d hAfter hReach hOutside hd
    · rw [h.obstacle_iff, illegal_skip hChar hSkipped]

/-- Where no token starts, the splitting stops. -/
theorem maximalMunch_obstacle (hText : text.drop start = c :: rest) (hSkipped : isSkipped c = false)
    (hLexeme : lexeme? c rest = none) :
    l.MaximalMunch text start ↔ l = ⟨[], some (c, start)⟩ := by
  have hChar := getElem?_of_drop hText
  have hIllegal : ∀ l : Lexing, l.Outside start → IsLeast (l.illegal text start) start := by
    intro l hOutside
    refine ⟨⟨Nat.le_refl start, hOutside, ⟨c, hChar, hSkipped⟩, ?_⟩, fun i hi => hi.1⟩
    rw [hText, starts_iff, not_not]
    exact hLexeme
  constructor
  · intro h
    obtain ⟨tokens, obstacle⟩ := l
    have hOutside : Outside ⟨tokens, obstacle⟩ start := by
      by_contra hIn
      obtain ⟨t, ts, -, hFirst⟩ := h.exists_first hIn
      obtain ⟨-, kind, more, hSome, -⟩ := (stands_iff hText).mp hFirst
      rw [hLexeme] at hSome
      cases hSome
    obtain rfl : obstacle = some (c, start) :=
      (h.obstacle_iff c start).mpr ⟨hIllegal _ hOutside, hChar⟩
    have hTokens : tokens = [] := by
      refine List.eq_nil_iff_forall_not_mem.mpr fun t ht => ?_
      have hPiece := (h.stands t ht).start_lt_stop
      obtain ⟨hStart, hStop⟩ := h.bounds t ht
      have hStop : t.stop ≤ start := hStop
      omega
    rw [hTokens]
  · rintro rfl
    refine ⟨nofun, nofun, .nil, fun i d hStart hReach => ?_, fun d p => ?_⟩
    · have hBefore : i < start := hReach
      omega
    · have hLeast := hIllegal ⟨[], some (c, start)⟩ nofun
      constructor
      · intro hObstacle
        cases hObstacle
        exact ⟨hLeast, hChar⟩
      · rintro ⟨hOther, hd⟩
        obtain rfl := hLeast.unique hOther
        rw [Option.some.inj (hChar.symm.trans hd)]

/-- Where a token starts, it comes first, and the rest is split behind it. -/
theorem maximalMunch_token {kind : TokenKind} {more : Nat}
    (hText : text.drop start = c :: rest) (hSkipped : isSkipped c = false)
    (hLexeme : lexeme? c rest = some (kind, more)) :
    l.MaximalMunch text start ↔ ∃ others : Lexing, others.MaximalMunch text (start + 1 + more) ∧
      l = ⟨⟨kind, String.ofList (c :: rest.take more), start, start + 1 + more⟩ :: others.tokens,
        others.obstacle⟩ := by
  constructor
  · intro h
    obtain ⟨tokens, obstacle⟩ := l
    obtain ⟨t, ts, rfl, hFirst⟩ := h.exists_first (h.not_outside hText hSkipped (by simp [hLexeme]))
    obtain ⟨hStands, rfl⟩ := hFirst
    obtain ⟨-, kind', more', hSome, hToken⟩ := (stands_iff hText).mp ⟨hStands, rfl⟩
    obtain ⟨rfl, rfl⟩ : kind = kind' ∧ more = more' := by simpa [hLexeme] using hSome
    have hStop : t.stop = t.start + 1 + more := congrArg Token.stop hToken
    obtain ⟨hAfter, hOrdered⟩ := List.pairwise_cons.mp h.ordered
    refine ⟨⟨ts, obstacle⟩, ?_, by rw [← hToken]⟩
    rw [← hStop]
    refine ⟨fun u hu => h.stands u (List.mem_cons_of_mem _ hu), fun u hu => ⟨hAfter u hu, ?_⟩,
      hOrdered, fun i d hi hReach hOutside => ?_, fun d p => ?_⟩
    · exact (h.bounds u (List.mem_cons_of_mem _ hu)).2
    · have hPiece := hStands.start_lt_stop
      exact h.gaps i d (by omega) hReach (outside_cons.mpr ⟨by omega, hOutside⟩)
    · rw [← illegal_cons hStands.start_lt_stop]
      exact h.obstacle_iff d p
  · rintro ⟨others, h, rfl⟩
    obtain ⟨ts, obstacle⟩ := others
    obtain ⟨hStands, -⟩ := (stands_iff hText).mpr ⟨hSkipped, kind, more, hLexeme, rfl⟩
    generalize hToken : (⟨kind, String.ofList (c :: rest.take more), start, start + 1 + more⟩ :
      Token) = t at hStands ⊢
    obtain rfl : start = t.start := congrArg Token.start hToken
    have hStop : t.start + 1 + more = t.stop := congrArg Token.stop hToken
    rw [hStop] at h
    have hPiece := hStands.start_lt_stop
    refine ⟨List.forall_mem_cons.mpr ⟨hStands, h.stands⟩, List.forall_mem_cons.mpr ⟨?_, ?_⟩,
      List.pairwise_cons.mpr ⟨fun u hu => (h.bounds u hu).1, h.ordered⟩,
      fun i d hi hReach hOutside => ?_, fun d p => ?_⟩
    · exact ⟨Nat.le_refl _, h.le_reach hStands.stop_le⟩
    · intro u hu
      have hStart := (h.bounds u hu).1
      exact ⟨by omega, (h.bounds u hu).2⟩
    · obtain ⟨hNotIn, hOutside⟩ := outside_cons.mp hOutside
      exact h.gaps i d (by omega) hReach hOutside
    · rw [illegal_cons hPiece]
      exact h.obstacle_iff d p

-- ---------------------------------------------------------------------------
-- The whole splitting
-- ---------------------------------------------------------------------------

/-- From every position on, the maximal munch is the splitting of the rest. -/
theorem maximalMunch_iff (text : List Char) (start : Nat) (l : Lexing) :
    l.MaximalMunch text start ↔ l = splitFrom start (text.drop start) := by
  generalize hText : text.drop start = cs
  fun_induction splitFrom start cs generalizing l with
  | case1 start => exact maximalMunch_end hText
  | case2 start c rest hSkipped ih =>
    rw [maximalMunch_skip hText hSkipped]
    exact ih l (by rw [← List.drop_drop, hText]; rfl)
  | case3 start c rest hSkipped hLexeme =>
    exact maximalMunch_obstacle hText (by simpa using hSkipped) hLexeme
  | case4 start c rest hSkipped kind more hLexeme stop token others ih =>
    have hRest : text.drop stop = rest.drop more := by
      rw [← List.drop_drop, ← List.drop_drop, hText]
      rfl
    rw [maximalMunch_token hText (by simpa using hSkipped) hLexeme]
    constructor
    · rintro ⟨others', hOthers, rfl⟩
      rw [(ih others' hRest).mp hOthers]
    · rintro rfl
      exact ⟨others, (ih others hRest).mpr rfl, rfl⟩

/--
**The tokens of a text are its maximal munch.** Every text has exactly one
segmentation that is one, the splitting of the text: its tokens stand in it in
order and apart, words are maximal and are names unless they are keywords, what
stands between them is skipped, and it ends at the end of the text or at the
least illegal position, whose character is reported.
-/
theorem tokens_are_maximal_munch (text : List Char) (l : Lexing) :
    l.MaximalMunch text 0 ↔ l = ofText text := by
  rw [maximalMunch_iff, List.drop_zero, ofText]

end Lexing

end TruthTable
