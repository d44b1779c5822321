import TruthTable.Argument
import TruthTable.Text.Basic
import TruthTable.Token.Lexer

/-!
# Reading formula text

From the weakest to the strongest binding: equivalence and implication, which group to the right,
then disjunction, exclusive disjunction and conjunction, which group to the left, then negation.
Parentheses group.

The parser reads the tokens once, from left to right. It either expects an operand or has just
completed one, and keeps what waits for its operand as a list of frames, innermost first. The first
obstacle from the left decides the fault: a token that cannot stand where it stands, an illegal
character, or the end of the text.
-/

namespace TruthTable

/-- How strongly a connective binds. -/
def Connective.strength : Connective → Nat
  | .iff => 0
  | .implies => 1
  | .or => 2
  | .xor => 3
  | .and => 4

/-- A chain of this connective groups to the right. -/
def Connective.groupsRight : Connective → Bool
  | .iff => true
  | .implies => true
  | _ => false

/-- In `a c b d e` the operand `b` belongs to `c`. -/
def Connective.keeps (c d : Connective) : Bool :=
  d.strength < c.strength || (d.strength == c.strength && !c.groupsRight)

namespace Parser

/-- What waits for the operand being read. -/
inductive Frame where
  /-- An open parenthesis. -/
  | group
  /-- A negation. -/
  | negation
  /-- A connective with its left operand. -/
  | operand (left : Formula) (c : Connective)

/-- Where the parser stands between two tokens: before an operand, or after one. -/
inductive State where
  | before (frames : List Frame)
  | after (frames : List Frame) (f : Formula)

/-- Gives `f` to the innermost frames that bind it more strongly than a following connective. -/
def reduceFor (next : Connective) : List Frame → Formula → List Frame × Formula
  | .negation :: rest, f => reduceFor next rest (.not f)
  | .operand l c :: rest, f =>
    if c.keeps next then reduceFor next rest (c.apply l f) else (.operand l c :: rest, f)
  | frames, f => (frames, f)

/-- Gives `f` to all frames inside the innermost open parenthesis. -/
def reduceAll : List Frame → Formula → List Frame × Formula
  | .negation :: rest, f => reduceAll rest (.not f)
  | .operand l c :: rest, f => reduceAll rest (c.apply l f)
  | frames, f => (frames, f)

/-- Reads one token. -/
def step : State → Token → Except Fault State
  | .before frames, t =>
    match t.kind with
    | .constant b => .ok (.after frames (.constant b))
    | .name => do
      let f ← Formula.var? (.text t.text)
      return .after frames f
    | .not => .ok (.before (.negation :: frames))
    | .opening => .ok (.before (.group :: frames))
    | _ => .error (.parse (.unexpected t))
  | .after frames f, t =>
    match t.kind with
    | .connective c =>
      let (frames, f) := reduceFor c frames f
      .ok (.before (.operand f c :: frames))
    | .closing =>
      match reduceAll frames f with
      | (.group :: rest, f) => .ok (.after rest f)
      | _ => .error (.parse (.unexpected t))
    | _ => .error (.parse (.unexpected t))

/-- Reads the end of the text. -/
def finish : State → Except Fault Formula
  | .before _ => .error (.parse .unexpectedEnd)
  | .after frames f =>
    match reduceAll frames f with
    | ([], f) => .ok f
    | _ => .error (.parse .unexpectedEnd)

/-- Reads the tokens of a text. -/
def ofLexing (lexing : Lexing) : Except Fault Formula := do
  let state ← lexing.tokens.foldlM step (.before [])
  match lexing.obstacle with
  | some (c, position) => throw (.parse (.illegal ⟨c, position⟩))
  | none => finish state

end Parser

/-- Reads a formula. A text of which nothing is left without the blank characters at its ends is
refused before any token is read. -/
def parse (source : String) : Except Fault Formula :=
  match Text.strip source.toList with
  | [] => .error (.parse .blank)
  | _ :: _ => Parser.ofLexing (Lexing.ofText source.toList)

end TruthTable
