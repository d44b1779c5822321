import TruthTable.Proofs.ReadBack
import TruthTable.Proofs.Report
import TruthTable.Proofs.Scan
import TruthTable.Proofs.Surface

/-!
# What is read from text

The lexer and the names of variables follow the same pattern, written twice: a
letter, then letters and digits. So a word of the text always makes a variable,
no fault of an argument comes up while text is read, and whatever was read can
be evaluated, listed and reported on.

Main results:

* `complete_of_parse`     — what was read has no holes.
* `isName_iff_one_token`  — names are exactly the texts that are one token
  spelled as a word.
* `parse_eq_var_iff`      — names that are no keywords are exactly the texts
  that are read as the variable of that name.
* `parsed_text_is_sound`  — nothing that comes from text is refused as an
  argument.
-/

namespace TruthTable

-- ---------------------------------------------------------------------------
-- Formulas read from text
-- ---------------------------------------------------------------------------

/-- What tokens derive has no holes. -/
theorem Derives.complete {s : Stratum} {ts : List Token} {f : Formula} (h : Derives s ts f) :
    f.Complete := by
  induction h using Derives.byShape with
  | weaken _ _ ih => exact ih
  | connect c _ _ _ ihl ihr => exact Connective.complete_apply ihl ihr
  | not _ _ ih => exact ih
  | name => trivial
  | constant => trivial
  | group _ _ _ ih => exact ih

/-- What a text is read as has no holes. -/
theorem complete_of_parse {source : String} {f : Formula} (h : parse source = .ok f) :
    f.Complete :=
  (parse_eq_ok_iff.mp h).2.complete

-- ---------------------------------------------------------------------------
-- Words
-- ---------------------------------------------------------------------------

/-- The token is spelled as a word: a name, a constant, or a connective in
letters. -/
def Token.Worded (t : Token) : Prop :=
  t.kind = .name ∨ (∃ b, t.kind = .constant b) ∨ (t.kind = .not ∧ t.text = "not") ∨
    (t.kind = .connective .and ∧ t.text = "and") ∨ (t.kind = .connective .or ∧ t.text = "or") ∨
    (t.kind = .connective .xor ∧ t.text = "xor")

/-- The tokens that are spelled as words are those of words. -/
theorem Lexeme.worded_token_iff (x : Lexeme) (place : Nat) :
    (x.token place).Worded ↔ x.isWord = true := by
  cases x with
  | word w =>
    have hWorded : ((word w).token place).Worded := by
      simp only [Token.Worded, token, kind, chars, TokenKind.ofWord]
      split <;> simp_all
    exact ⟨fun _ => rfl, fun _ => hWorded⟩
  | symbol s =>
    -- a connective in symbols has the kind of a word, but not its text
    cases s <;>
      simp [Token.Worded, token, kind, Symbol.kind, chars, Symbol.chars, isWord]

/-- A name is split into one token. -/
theorem Lexing.ofText_name (w : Name) :
    Lexing.ofText w.text.toList = ⟨[(Lexeme.word w).token 0], none⟩ := by
  have hNext : (Lexeme.word w).isWord = true →
      ∀ d ∈ ([] : List Char).head?, d.isAlphanum = false := by
    simp
  have hSplit := Lexing.splitFrom_lexeme (.word w) hNext 0
  rw [List.append_nil, Lexing.splitFrom] at hSplit
  exact hSplit

/-- A text is a name exactly if it is one token and that a word. -/
theorem isName_iff_one_token (s : String) :
    isName s = true ↔ ∃ t, Lexing.ofText s.toList = ⟨[t], none⟩ ∧ t.start = 0 ∧
      t.stop = s.length ∧ t.Worded := by
  constructor
  · intro hName
    refine ⟨_, Lexing.ofText_name ⟨s, hName⟩, rfl, ?_, ?_⟩
    · rw [Lexeme.token, Lexeme.chars, Nat.zero_add, String.length_toList]
    · exact (Lexeme.worded_token_iff _ _).mpr rfl
  · rintro ⟨t, hSplit, hStart, hStop, hWorded⟩
    have ht : t ∈ (Lexing.splitFrom 0 s.toList).tokens := by
      rw [← Lexing.ofText, hSplit]
      exact List.mem_singleton_self t
    obtain ⟨x, place, -, rfl, hChars⟩ := Lexing.exists_lexeme ht
    cases x with
    | symbol symbol => cases (Lexeme.worded_token_iff _ _).mp hWorded
    | word w =>
      -- the word starts where the text starts and is as long as the text
      have hPlace : place = 0 := hStart
      subst hPlace
      have hLength : w.text.toList.length = s.toList.length :=
        calc w.text.toList.length = 0 + w.text.toList.length := (Nat.zero_add _).symm
          _ = s.length := hStop
          _ = s.toList.length := String.length_toList.symm
      have hText : w.text.toList = s.toList := hChars.eq_of_length hLength
      rw [← String.toList_inj.mp hText]
      exact w.valid

/-- A text is read as the variable with this text exactly if it is a name and no
keyword. -/
theorem parse_eq_var_iff (s : String) :
    (∃ n : Name, n.text = s ∧ parse s = .ok (.var n)) ↔ isName s = true ∧ s ∉ keywords := by
  constructor
  · rintro ⟨n, rfl, hParse⟩
    exact ⟨n.valid, keywordFree_of_parse hParse n (Formula.mem_names.mpr (by simp))⟩
  · rintro ⟨hName, hKeyword⟩
    refine ⟨⟨s, hName⟩, rfl, parse_eq_ok_iff.mpr ?_⟩
    have hKind : TokenKind.ofWord s.toList = .name := by
      rw [ofWord_eq_name_iff, String.ofList_toList]
      exact hKeyword
    have hAtom : Derives .atom [(Lexeme.word ⟨s, hName⟩).token 0] (.var ⟨s, hName⟩) :=
      .name hKind String.ofList_toList
    rw [Lexing.ofText_name ⟨s, hName⟩]
    exact ⟨rfl, hAtom.weaken (by decide)⟩

/--
**Nothing that comes from text is refused as an argument.** Text is read or
refused as text. The names of what was read are names of variables and no
keywords, and its report, its classification and its truth table can be had.
For this the lexer and the variables agree on names: a text is a name exactly
when it is one token that is spelled as a word, and it is read as the variable
of that name exactly when it is a name and no keyword.
-/
theorem parsed_text_is_sound :
    (∀ source, (∃ f, parse source = .ok f) ∨ ∃ cause, parse source = .error (.parse cause)) ∧
    (∀ source f, parse source = .ok f →
      (∀ n ∈ f.names.toList, isName n.text = true ∧ n.text ∉ keywords) ∧
      (∃ text, (Report.text f).result = .ok text) ∧
      (∃ v, (Query.classify.answer (.formula f)).result = .ok (.verdict v)) ∧
      ∃ rows, (Query.truthTable.answer (.formula f)).result = .ok (.table rows)) ∧
    (∀ s, isName s = true ↔ ∃ t, Lexing.ofText s.toList = ⟨[t], none⟩ ∧ t.start = 0 ∧
      t.stop = s.length ∧ t.Worded) ∧
    ∀ s, (∃ n : Name, n.text = s ∧ parse s = .ok (.var n)) ↔ isName s = true ∧ s ∉ keywords := by
  refine ⟨parse_cases, ?_, isName_iff_one_token, parse_eq_var_iff⟩
  intro source f hParse
  have hf : f.Complete := complete_of_parse hParse
  obtain ⟨v, hClassify, -⟩ := Formula.classify_eq hf
  refine ⟨fun n hn => ⟨n.valid, keywordFree_of_parse hParse n hn⟩, Report.exists_text hf,
    ⟨v, ?_⟩, ⟨f.enumeration.rows.map fun a => (a, f.value a.valuation), ?_⟩⟩
  · simp only [Query.answer, Logged.result_bind, Logged.result_pure, result_classified hf,
      hClassify, ok_bind]
  · simp only [Query.answer, Logged.result_bind, Logged.result_pure, result_announced,
      Formula.truthTable_eq hf, ok_bind]

/-- `Not` differs from a keyword in one letter and is the name of a variable. -/
theorem parsed_text_is_sound_sample :
    let f : Formula := .or (.var ⟨"Not", rfl⟩) (.var ⟨"p1", rfl⟩)
    parse "Not or p1" = .ok f ∧ (∃ text, (Report.text f).result = .ok text) ∧
      ∃ n : Name, n.text = "Not" ∧ parse "Not" = .ok (.var n) := by
  intro f
  have hNames : f.KeywordFree := by
    simp [f, Formula.KeywordFree, Formula.mem_names, Formula.or, keywords]
  have hText : f.text = "Not or p1" := by
    simp [f, Formula.or, Formula.text, Operator.word]
  have hParse : parse "Not or p1" = .ok f := hText ▸ Formula.parse_text ⟨trivial, trivial⟩ hNames
  obtain ⟨-, hRead, -, hVar⟩ := parsed_text_is_sound
  exact ⟨hParse, (hRead _ _ hParse).2.1, (hVar "Not").mpr ⟨by decide, by decide⟩⟩

end TruthTable
