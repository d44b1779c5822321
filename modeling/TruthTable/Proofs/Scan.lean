import TruthTable.Proofs.Lexing
import TruthTable.Proofs.Formula
import TruthTable.Parser

/-!
# The first obstacle from the left

Whether tokens can still become a formula shows without building one. A `Scan`
remembers only whether an operand is expected and how many parentheses are
open, and passes the tokens from left to right. The parser keeps whole frames
instead; `scanOf` forgets all of them but the open parentheses, and the two
stop at the same place for the same reason.

Main results:

* `step_scanOf`    — one token: the parser reads it exactly when the scan passes
  it, and otherwise refuses this very token.
* `run_scanOf`, `run_offending` — the same for a list of tokens.
* `finish_scanOf`  — the end is allowed after an operand with no parenthesis
  open.
* `parse_cases`    — text is read or refused, and nothing else.
* `parse_stops_at_first_obstacle` — text is read, or refused for the first
  obstacle that the scan meets.
-/

namespace TruthTable

-- ---------------------------------------------------------------------------
-- The scan
-- ---------------------------------------------------------------------------

/-- Where a scan stands between two tokens. -/
structure Scan where
  /-- An operand is expected. -/
  expecting : Bool
  /-- How many parentheses are open. -/
  depth : Nat
  deriving DecidableEq

namespace Scan

/-- Before the first token. -/
def start : Scan := ⟨true, 0⟩

/-- Where the end of the text is allowed. -/
def complete : Scan := ⟨false, 0⟩

/-- Passes a token, unless it cannot stand here. -/
def step : Scan → TokenKind → Option Scan
  | ⟨true, depth⟩, .name => some ⟨false, depth⟩
  | ⟨true, depth⟩, .constant _ => some ⟨false, depth⟩
  | ⟨true, depth⟩, .not => some ⟨true, depth⟩
  | ⟨true, depth⟩, .opening => some ⟨true, depth + 1⟩
  | ⟨false, depth⟩, .connective _ => some ⟨true, depth⟩
  | ⟨false, depth + 1⟩, .closing => some ⟨false, depth⟩
  | _, _ => none

/-- Passes tokens from left to right. -/
def run : Scan → List Token → Option Scan
  | s, [] => some s
  | s, t :: ts => (s.step t.kind).bind fun next => next.run ts

/-- A scan passes all tokens, or there is a first one that it does not pass. -/
theorem run_or_offends (s : Scan) (ts : List Token) :
    (∃ s', s.run ts = some s') ∨
      ∃ before t after s', ts = before ++ t :: after ∧ s.run before = some s' ∧
        s'.step t.kind = none := by
  induction ts generalizing s with
  | nil => exact .inl ⟨s, rfl⟩
  | cons t ts ih =>
    cases hStep : s.step t.kind with
    | none => exact .inr ⟨[], t, ts, s, rfl, rfl, hStep⟩
    | some next =>
      rcases ih next with ⟨s', hRun⟩ | ⟨before, u, after, s', rfl, hRun, hOffends⟩
      · exact .inl ⟨s', by simpa [run, hStep] using hRun⟩
      · exact .inr ⟨t :: before, u, after, s', rfl, by simpa [run, hStep] using hRun, hOffends⟩

end Scan

/-- What a scan of the splitting meets first, and the words for it: a token that
cannot stand where it stands, an illegal character after tokens that can, or an
end that comes too early. -/
inductive FirstObstacle (l : Lexing) : ParseFault → String → Prop
  | token {before t after s} : l.tokens = before ++ t :: after →
      Scan.start.run before = some s → s.step t.kind = none →
      FirstObstacle l (.unexpected t)
        ("Syntax error near '" ++ t.text ++ "' (type: " ++ t.kind.label ++ ") at position " ++
          toString t.start)
  | character {c position s} : Scan.start.run l.tokens = some s →
      l.obstacle = some (c, position) →
      FirstObstacle l (.illegal ⟨c, position⟩)
        ("Parse failed: Illegal character '" ++ c.toString ++ "' encountered at position " ++
          toString position)
  | ending {s} : Scan.start.run l.tokens = some s → l.obstacle = none → s ≠ Scan.complete →
      FirstObstacle l .unexpectedEnd "Syntax error: Unexpected end of formula"

/-- The words are those of the fault. -/
theorem FirstObstacle.message_eq {l : Lexing} {cause : ParseFault} {words : String}
    (h : FirstObstacle l cause words) : cause.message = words := by
  cases h with
  | token =>
    unfold ParseFault.message
    rfl
  | character =>
    unfold ParseFault.message IllegalCharacter.message
    simp only [← String.append_assoc, String.reduceAppend]
  | ending =>
    unfold ParseFault.message
    rfl

namespace Parser

-- ---------------------------------------------------------------------------
-- Open parentheses among the frames
-- ---------------------------------------------------------------------------

/-- How many of the frames are open parentheses. -/
def openings : List Frame → Nat
  | [] => 0
  | .group :: rest => openings rest + 1
  | .negation :: rest => openings rest
  | .operand _ _ :: rest => openings rest

/-- A connective closes no parenthesis. -/
theorem openings_reduceFor (d : Connective) (frames : List Frame) (f : Formula) :
    openings (reduceFor d frames f).1 = openings frames := by
  fun_induction reduceFor d frames f with
  | case1 rest f ih => exact ih
  | case2 rest f l c hKeeps ih => exact ih
  | case3 => rfl
  | case4 => rfl

/-- All frames inside the innermost open parenthesis are given up: what is left
is that parenthesis, or nothing. -/
theorem reduceAll_cases (frames : List Frame) (f : Formula) :
    (∃ f', reduceAll frames f = ([], f') ∧ openings frames = 0) ∨
      ∃ rest f', reduceAll frames f = (.group :: rest, f') ∧
        openings frames = openings rest + 1 := by
  fun_induction reduceAll frames f with
  | case1 rest f ih => exact ih
  | case2 rest f l c ih => exact ih
  | case3 frames f hNegation hOperand =>
    match frames with
    | [] => exact .inl ⟨f, rfl, rfl⟩
    | .group :: rest => exact .inr ⟨rest, f, rfl, rfl⟩
    | .negation :: rest => exact absurd rfl (hNegation rest)
    | .operand l c :: rest => exact absurd rfl (hOperand l c rest)

/-- What the scan knows of the parser. -/
def scanOf : State → Scan
  | .before frames => ⟨true, openings frames⟩
  | .after frames _ => ⟨false, openings frames⟩

-- ---------------------------------------------------------------------------
-- The parser stops where the scan stops
-- ---------------------------------------------------------------------------

/-- A name is the text of a variable. -/
def Proper (t : Token) : Prop :=
  t.kind = .name → isName t.text = true

/-- **One token.** The parser reads a token exactly when the scan passes it, and
otherwise the token itself is the fault. -/
theorem step_scanOf (st : State) {t : Token} (hProper : Proper t) :
    (∃ st', step st t = .ok st' ∧ (scanOf st).step t.kind = some (scanOf st')) ∨
      (step st t = .error (.parse (.unexpected t)) ∧ (scanOf st).step t.kind = none) := by
  obtain ⟨kind, text, start, stop⟩ := t
  cases st with
  | before frames =>
    cases kind with
    | constant b => exact .inl ⟨.after frames (.constant b), rfl, rfl⟩
    | name =>
      have hVar : Formula.var? (.text text) = .ok (.var ⟨text, hProper rfl⟩) :=
        Formula.var?_eq_ok_iff.mpr ⟨⟨text, hProper rfl⟩, rfl, rfl⟩
      refine .inl ⟨.after frames (.var ⟨text, hProper rfl⟩), ?_, rfl⟩
      simp only [step, hVar]
      rfl
    | not => exact .inl ⟨.before (.negation :: frames), rfl, rfl⟩
    | opening => exact .inl ⟨.before (.group :: frames), rfl, rfl⟩
    | connective c => exact .inr ⟨rfl, rfl⟩
    | closing => exact .inr ⟨rfl, rfl⟩
  | after frames f =>
    cases kind with
    | connective c =>
      refine .inl ⟨_, rfl, ?_⟩
      simp only [scanOf, Scan.step, openings, openings_reduceFor]
    | closing =>
      rcases reduceAll_cases frames f with ⟨f', hReduce, hOpen⟩ | ⟨rest, f', hReduce, hOpen⟩
      · exact .inr ⟨by simp [step, hReduce], by simp [scanOf, Scan.step, hOpen]⟩
      · exact .inl ⟨.after rest f', by simp [step, hReduce], by simp [scanOf, Scan.step, hOpen]⟩
    | constant b => exact .inr ⟨rfl, rfl⟩
    | name => exact .inr ⟨rfl, rfl⟩
    | not => exact .inr ⟨rfl, rfl⟩
    | opening => exact .inr ⟨rfl, rfl⟩

/-- **Tokens that the scan passes are read.** -/
theorem run_scanOf (st : State) {ts : List Token} {s : Scan} (hProper : ∀ t ∈ ts, Proper t)
    (h : (scanOf st).run ts = some s) :
    ∃ st', ts.foldlM step st = .ok st' ∧ scanOf st' = s := by
  induction ts generalizing st with
  | nil => exact ⟨st, rfl, Option.some.inj h⟩
  | cons t ts ih =>
    rw [Scan.run, Option.bind_eq_some_iff] at h
    obtain ⟨next, hNext, hRun⟩ := h
    rcases step_scanOf st (hProper t List.mem_cons_self) with ⟨st₁, hStep, hScan⟩ | ⟨-, hScan⟩
    · rw [hNext] at hScan
      injection hScan with hScan
      obtain ⟨st', hRest, hEnd⟩ := ih st₁ (fun u hu => hProper u (List.mem_cons_of_mem _ hu))
        (hScan ▸ hRun)
      exact ⟨st', by rw [List.foldlM_cons, hStep, ok_bind, hRest], hEnd⟩
    · rw [hNext] at hScan
      cases hScan

/-- **The first token that the scan does not pass is the fault.** -/
theorem run_offending (st : State) {before after : List Token} {t : Token} {s : Scan}
    (hProper : ∀ u ∈ before ++ t :: after, Proper u) (h : (scanOf st).run before = some s)
    (hOffends : s.step t.kind = none) :
    (before ++ t :: after).foldlM step st = .error (.parse (.unexpected t)) := by
  obtain ⟨st', hRun, rfl⟩ := run_scanOf st (fun u hu => hProper u (List.mem_append_left _ hu)) h
  rw [List.foldlM_append, hRun, ok_bind, List.foldlM_cons]
  rcases step_scanOf st' (hProper t (by simp)) with ⟨st₁, -, hScan⟩ | ⟨hStep, -⟩
  · rw [hOffends] at hScan
    cases hScan
  · rw [hStep]
    rfl

/-- **The end of the text.** -/
theorem finish_scanOf (st : State) :
    (scanOf st = Scan.complete ∧ ∃ f, finish st = .ok f) ∨
      (scanOf st ≠ Scan.complete ∧ finish st = .error (.parse .unexpectedEnd)) := by
  cases st with
  | before frames => exact .inr ⟨by simp [scanOf, Scan.complete], rfl⟩
  | after frames f =>
    rcases reduceAll_cases frames f with ⟨f', hReduce, hOpen⟩ | ⟨rest, f', hReduce, hOpen⟩
    · exact .inl ⟨by rw [scanOf, hOpen, Scan.complete], f', by simp [finish, hReduce]⟩
    · exact .inr ⟨by simp [scanOf, Scan.complete, hOpen], by simp [finish, hReduce]⟩

-- ---------------------------------------------------------------------------
-- Reading a splitting
-- ---------------------------------------------------------------------------

/-- A splitting is read when the scan comes to an allowed end. -/
theorem ofLexing_of_complete {l : Lexing} (hProper : ∀ t ∈ l.tokens, Proper t)
    (hObstacle : l.obstacle = none) (hRun : Scan.start.run l.tokens = some Scan.complete) :
    ∃ f, ofLexing l = .ok f := by
  obtain ⟨st, hRead, hEnd⟩ := run_scanOf (.before []) hProper hRun
  rcases finish_scanOf st with ⟨-, f, hFinish⟩ | ⟨hOpen, -⟩
  · exact ⟨f, by simp only [ofLexing, hRead, ok_bind, hObstacle, hFinish]⟩
  · exact absurd hEnd hOpen

/-- A splitting is refused for the first obstacle that the scan meets. -/
theorem ofLexing_of_firstObstacle {l : Lexing} (hProper : ∀ t ∈ l.tokens, Proper t)
    {cause : ParseFault} {words : String} (h : FirstObstacle l cause words) :
    ofLexing l = .error (.parse cause) := by
  cases h with
  | @token before t after s hTokens hRun hOffends =>
    rw [hTokens] at hProper
    rw [ofLexing, hTokens, run_offending (.before []) hProper hRun hOffends]
    rfl
  | character hRun hObstacle =>
    obtain ⟨st, hRead, -⟩ := run_scanOf (.before []) hProper hRun
    simp only [ofLexing, hRead, ok_bind, hObstacle]
    rfl
  | ending hRun hObstacle hOpen =>
    obtain ⟨st, hRead, rfl⟩ := run_scanOf (.before []) hProper hRun
    rcases finish_scanOf st with ⟨hEnd, -⟩ | ⟨-, hFinish⟩
    · exact absurd hEnd hOpen
    · simp only [ofLexing, hRead, ok_bind, hObstacle, hFinish]

/-- A scan comes to an allowed end or meets an obstacle. -/
theorem complete_or_firstObstacle (l : Lexing) :
    (l.obstacle = none ∧ Scan.start.run l.tokens = some Scan.complete) ∨
      ∃ cause words, FirstObstacle l cause words := by
  rcases Scan.start.run_or_offends l.tokens with
    ⟨s, hRun⟩ | ⟨before, t, after, s, hTokens, hRun, hOffends⟩
  · cases hObstacle : l.obstacle with
    | some obstacle =>
      obtain ⟨c, position⟩ := obstacle
      exact .inr ⟨_, _, .character hRun hObstacle⟩
    | none =>
      by_cases hEnd : s = Scan.complete
      · exact .inl ⟨rfl, hEnd ▸ hRun⟩
      · exact .inr ⟨_, _, .ending hRun hObstacle hEnd⟩
  · exact .inr ⟨_, _, .token hTokens hRun hOffends⟩

end Parser

/-- The names among the tokens of a text are names of variables. -/
theorem proper_ofText (cs : List Char) : ∀ t ∈ (Lexing.ofText cs).tokens, Parser.Proper t := by
  intro t ht hKind
  obtain ⟨w, hText, -⟩ := Lexing.exists_name ht hKind
  exact hText ▸ w.valid

/-- Text that is not blank is split and read. -/
theorem parse_of_not_blank {source : String} (hText : Text.strip source.toList ≠ []) :
    parse source = Parser.ofLexing (Lexing.ofText source.toList) := by
  unfold parse
  split
  · rename_i hBlank
    exact absurd hBlank hText
  · rfl

/-- Text is read as a formula or refused as text; no other fault comes up. -/
theorem parse_cases (source : String) :
    (∃ f, parse source = .ok f) ∨ ∃ cause, parse source = .error (.parse cause) := by
  by_cases hText : Text.strip source.toList = []
  · exact .inr ⟨.blank, by rw [parse, hText]⟩
  · have hProper := proper_ofText source.toList
    rw [parse_of_not_blank hText]
    rcases Parser.complete_or_firstObstacle (Lexing.ofText source.toList) with
      ⟨hObstacle, hEnd⟩ | ⟨cause, words, hFirst⟩
    · exact .inl (Parser.ofLexing_of_complete hProper hObstacle hEnd)
    · exact .inr ⟨cause, Parser.ofLexing_of_firstObstacle hProper hFirst⟩

/--
**Text is refused at the first obstacle from the left.** Text that is not blank
is read exactly when the scan of its tokens comes to an allowed end. It is
refused exactly when the scan meets an obstacle, and then for the first one,
in the words for it.
-/
theorem parse_stops_at_first_obstacle (source : String) (hText : Text.strip source.toList ≠ []) :
    let l := Lexing.ofText source.toList
    ((∃ f, parse source = .ok f) ↔
      l.obstacle = none ∧ Scan.start.run l.tokens = some Scan.complete) ∧
    ∀ fault, parse source = .error fault ↔
      ∃ cause, fault = .parse cause ∧ FirstObstacle l cause fault.message := by
  intro l
  have hProper : ∀ t ∈ l.tokens, Parser.Proper t := proper_ofText source.toList
  rw [parse_of_not_blank hText]
  -- an obstacle and an allowed end exclude each other, since reading has one outcome
  refine ⟨⟨?_, fun h => Parser.ofLexing_of_complete hProper h.1 h.2⟩, fun fault => ⟨?_, ?_⟩⟩
  · rintro ⟨f, hRead⟩
    rcases Parser.complete_or_firstObstacle l with hEnd | ⟨cause, words, hFirst⟩
    · exact hEnd
    · rw [Parser.ofLexing_of_firstObstacle hProper hFirst] at hRead
      cases hRead
  · intro hRead
    rcases Parser.complete_or_firstObstacle l with ⟨hObstacle, hEnd⟩ | ⟨cause, words, hFirst⟩
    · obtain ⟨f, hOk⟩ := Parser.ofLexing_of_complete hProper hObstacle hEnd
      rw [hOk] at hRead
      cases hRead
    · rw [Parser.ofLexing_of_firstObstacle hProper hFirst] at hRead
      injection hRead with hFault
      subst hFault
      refine ⟨cause, rfl, ?_⟩
      rw [Fault.message_parse, hFirst.message_eq]
      exact hFirst
  · rintro ⟨cause, rfl, hFirst⟩
    exact Parser.ofLexing_of_firstObstacle hProper hFirst

/-- In `p & ) $` the parenthesis comes before the illegal character. -/
theorem parse_stops_at_first_obstacle_sample :
    Text.strip "p & ) $".toList ≠ [] ∧
      ∃ fault, parse "p & ) $" = .error fault ∧
        fault.message = "Syntax error near ')' (type: RPAREN) at position 4" := by
  have hText : Text.strip "p & ) $".toList ≠ [] := by decide
  have hTokens : (Lexing.ofText "p & ) $".toList).tokens =
      [⟨.name, "p", 0, 1⟩, ⟨.connective .and, "&", 2, 3⟩] ++ ⟨.closing, ")", 4, 5⟩ :: [] := by
    decide +kernel
  have hFirst := FirstObstacle.token hTokens rfl rfl
  have hFault := ((parse_stops_at_first_obstacle _ hText).2 (.parse (.unexpected _))).mpr
    ⟨_, rfl, hFirst.message_eq ▸ hFirst⟩
  refine ⟨hText, _, hFault, ?_⟩
  rw [Fault.message_parse, hFirst.message_eq]
  cbv

end TruthTable
