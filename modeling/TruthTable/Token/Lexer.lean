import TruthTable.Token.Basic

/-!
# Splitting formula text into tokens

Spaces, tabs, carriage returns and line feeds are skipped. A letter starts a word, which takes all
letters and digits that follow; any other token is one of the symbolic spellings. Splitting stops at
the first character that is neither skipped nor the start of a token, and reports that character
with its position.
-/

namespace TruthTable

/-- The tokens of a text, up to its end or up to the first illegal character. -/
structure Lexing where
  tokens : List Token
  obstacle : Option (Char × Nat)

namespace Lexing

/-- The characters that separate tokens. -/
def isSkipped (c : Char) : Bool :=
  c = ' ' || c = '\t' || c = '\r' || c = '\n'

/-- The token at the head of a text that starts with `c`: its kind, and how many of the characters
that follow `c` belong to it. -/
def lexeme? (c : Char) (rest : List Char) : Option (TokenKind × Nat) :=
  if c.isAlpha then
    let more := rest.takeWhile Char.isAlphanum
    some (.ofWord (c :: more), more.length)
  else
    match c, rest with
    | '<', '-' :: '>' :: _ => some (.connective .iff, 2)
    | '<', '=' :: '>' :: _ => some (.connective .iff, 2)
    | '-', '>' :: _ => some (.connective .implies, 1)
    | '=', '>' :: _ => some (.connective .implies, 1)
    | '!', _ => some (.not, 0)
    | '~', _ => some (.not, 0)
    | '&', _ => some (.connective .and, 0)
    | '|', _ => some (.connective .or, 0)
    | '^', _ => some (.connective .xor, 0)
    | '(', _ => some (.opening, 0)
    | ')', _ => some (.closing, 0)
    | _, _ => none

/-- Splits `text`, which starts at position `start`. -/
def splitFrom (start : Nat) (text : List Char) : Lexing :=
  match text with
  | [] => ⟨[], none⟩
  | c :: rest =>
    if isSkipped c then splitFrom (start + 1) rest
    else
      match lexeme? c rest with
      | none => ⟨[], some (c, start)⟩
      | some (kind, more) =>
        let stop := start + 1 + more
        let token : Token := ⟨kind, String.ofList (c :: rest.take more), start, stop⟩
        let others := splitFrom stop (rest.drop more)
        ⟨token :: others.tokens, others.obstacle⟩
termination_by text.length
decreasing_by all_goals simp only [List.length_drop, List.length_cons]; omega

/-- Splits a text into tokens. -/
def ofText (text : List Char) : Lexing :=
  splitFrom 0 text

end Lexing

end TruthTable
