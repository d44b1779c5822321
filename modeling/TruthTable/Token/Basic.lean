import TruthTable.Formula.Basic

/-!
# Tokens of formula text

Every connective has a symbolic spelling (`&`), most have a word spelling (`and`), and the two are
the same kind of token. Words that are not spellings of a connective or a constant are names.
-/

namespace TruthTable

/-- What a token stands for. -/
inductive TokenKind where
  | constant (value : Bool)
  | name
  | not
  | connective (c : Connective)
  | opening
  | closing
  deriving DecidableEq

/-- The label of a kind in listings and messages. -/
def TokenKind.label : TokenKind → String
  | .constant true => "TRUE"
  | .constant false => "FALSE"
  | .name => "ID"
  | .not => "NOT"
  | .connective .and => "AND"
  | .connective .or => "OR"
  | .connective .xor => "XOR"
  | .connective .implies => "IMPLIES"
  | .connective .iff => "IFF"
  | .opening => "LPAREN"
  | .closing => "RPAREN"

/-- The kind of a word: eight words are spellings of constants and connectives. -/
def TokenKind.ofWord (word : List Char) : TokenKind :=
  match String.ofList word with
  | "true" => .constant true
  | "True" => .constant true
  | "false" => .constant false
  | "False" => .constant false
  | "not" => .not
  | "and" => .connective .and
  | "or" => .connective .or
  | "xor" => .connective .xor
  | _ => .name

/-- A token with its place in the text; `start` and `stop` count characters, and `stop` is the
position after the last one. -/
structure Token where
  kind : TokenKind
  text : String
  start : Nat
  stop : Nat
  deriving DecidableEq

end TruthTable
