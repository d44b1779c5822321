import TruthTable.Proofs.Formula
import TruthTable.Proofs.Grammar
import TruthTable.Proofs.Lexing

/-!
# The parser recognises the grammar

The parser keeps what waits for an operand as a list of frames, and decides
by a table of strengths whether a completed operand goes to the innermost
frame or waits for a stronger connective. The grammar has neither. The two
meet in `demand`, the stratum of the operand that the frames wait for:

* **Completeness** (`run_of_derives`) — what a stratum derives is read
  wherever the frames demand that stratum or a weaker one. The frames that
  are left open over it (`Settles`) are closed by every token that may
  follow.
* **Soundness** (`reads_run`) — the tokens read so far are what the frames
  were opened with (`Pending`), followed by the atom read last (`Reads`).
  Giving an operand to the innermost frame keeps this, because the frames
  below never demand more than the frame's own stratum.

Main results:

* `ofLexing_eq_ok_iff` — reading a splitting succeeds with `f` exactly when it
  has no obstacle and its tokens derive `f` from `Iff`.
* `derives_unique`     — a list of tokens derives at most one formula.
-/

namespace TruthTable

-- ---------------------------------------------------------------------------
-- The table of strengths and the strata
-- ---------------------------------------------------------------------------

/-- A connective keeps its right operand exactly when its production may
stand as the left operand of the connective that follows. -/
theorem Connective.keeps_iff (c d : Connective) :
    c.keeps d = true ↔ d.leftStratum.level ≤ c.stratum.level := by
  cases c <;> cases d <;> decide

/-- A connective gives up its right operand exactly when the production of
the connective that follows may stand as the right operand. -/
theorem Connective.not_keeps_iff (c d : Connective) :
    c.keeps d = false ↔ c.rightStratum.level ≤ d.stratum.level := by
  cases c <;> cases d <;> decide

namespace Parser

/-- The stratum of the operand that the frames wait for. -/
def demand : List Frame → Stratum
  | [] => .iff
  | .group :: _ => .iff
  | .negation :: _ => .neg
  | .operand _ c :: _ => c.rightStratum

/-- Frames never demand an atom. -/
theorem demand_le_neg (frames : List Frame) : (demand frames).level ≤ Stratum.neg.level := by
  match frames with
  | [] => decide
  | .group :: _ => exact (by decide : Stratum.iff.level ≤ Stratum.neg.level)
  | .negation :: _ => exact Nat.le_refl _
  | .operand _ c :: _ => exact c.rightStratum_le_neg

/-- Frames that demand no more than the connective's stratum take nothing
from it. -/
theorem reduceFor_of_demand {d : Connective} {frames : List Frame}
    (hDemand : (demand frames).level ≤ d.stratum.level) (f : Formula) :
    reduceFor d frames f = (frames, f) := by
  match frames, hDemand with
  | [], _ => rfl
  | .group :: _, _ => rfl
  | .negation :: _, hDemand =>
    cases d <;> simp [demand, Stratum.level, Connective.stratum] at hDemand
  | .operand l c :: rest, hDemand =>
    have hKeeps : c.keeps d = false := (c.not_keeps_iff d).mpr hDemand
    simp [reduceFor, hKeeps]

-- ---------------------------------------------------------------------------
-- Completeness: derivations are read
-- ---------------------------------------------------------------------------

/-- The innermost frames `inner`, opened over the operand `g`, make the
formula `f` of it as soon as a connective follows that may stand after the
stratum `s`, or a parenthesis closes, or the text ends. -/
structure Settles (s : Stratum) (inner : List Frame) (g f : Formula) : Prop where
  connective : ∀ (d : Connective) (rest : List Frame), d.leftStratum.level ≤ s.level →
    reduceFor d (inner ++ rest) g = reduceFor d rest f
  closing : ∀ rest : List Frame, reduceAll (inner ++ rest) g = reduceAll rest f

/-- An operand with no frames of its own is settled. -/
theorem Settles.refl (s : Stratum) (f : Formula) : Settles s [] f f :=
  ⟨fun _ _ _ => rfl, fun _ => rfl⟩

theorem Settles.weaken {s s' : Stratum} {inner : List Frame} {g f : Formula}
    (h : Settles s inner g f) (hLevel : s'.level ≤ s.level) : Settles s' inner g f :=
  ⟨fun d rest hd => h.connective d rest (by omega), h.closing⟩

/-- A negation over a settled operand is settled. -/
theorem Settles.negation {inner : List Frame} {g f : Formula}
    (h : Settles .neg inner g f) : Settles .neg (inner ++ [.negation]) g (.not f) := by
  refine ⟨fun d rest hd => ?_, fun rest => ?_⟩
  · rw [List.append_assoc, h.connective d _ hd]
    rfl
  · rw [List.append_assoc, h.closing]
    rfl

/-- A connective over a settled right operand is settled. -/
theorem Settles.operand {c : Connective} {inner : List Frame} {g l r : Formula}
    (h : Settles c.rightStratum inner g r) :
    Settles c.stratum (inner ++ [.operand l c]) g (c.apply l r) := by
  refine ⟨fun d rest hd => ?_, fun rest => ?_⟩
  · have hRight := c.stratum_le_rightStratum
    have hKeeps : c.keeps d = true := (c.keeps_iff d).mpr hd
    rw [List.append_assoc, h.connective d _ (by omega)]
    simp [reduceFor, hKeeps]
  · rw [List.append_assoc, h.closing]
    rfl

/-- Reading goes on from where the first tokens led. -/
theorem run_append {ts us : List Token} {st st' : State} (h : ts.foldlM step st = .ok st') :
    (ts ++ us).foldlM step st = us.foldlM step st' := by
  rw [List.foldlM_append, h, ok_bind]

theorem run_cons {t : Token} {us : List Token} {st st' : State} (h : step st t = .ok st') :
    (t :: us).foldlM step st = us.foldlM step st' := by
  rw [List.foldlM_cons, h, ok_bind]

/-- Where an operand is expected, the name of a variable is one. -/
theorem step_name {t : Token} {n : Name} (hKind : t.kind = .name) (hText : t.text = n.text)
    (frames : List Frame) : step (.before frames) t = .ok (.after frames (.var n)) := by
  have hVar : Formula.var? (.text t.text) = .ok (.var n) :=
    Formula.var?_eq_ok_iff.mpr ⟨n, hText, rfl⟩
  simp only [step, hKind, hVar]
  rfl

/-- After a settled left operand, a connective that the frames below let
through opens a frame over it. -/
theorem step_connective {c : Connective} {t : Token} {frames inner : List Frame} {g l : Formula}
    (hKind : t.kind = .connective c) (hLeft : Settles c.leftStratum inner g l)
    (hDemand : (demand frames).level ≤ c.stratum.level) :
    step (.after (inner ++ frames) g) t = .ok (.before (.operand l c :: frames)) := by
  have hReduce : reduceFor c (inner ++ frames) g = (frames, l) := by
    rw [hLeft.connective c frames (Nat.le_refl _), reduceFor_of_demand hDemand]
  simp [step, hKind, hReduce]

/-- After a settled operand, a closing parenthesis makes an atom of it. -/
theorem step_closing {t : Token} {frames inner : List Frame} {g f : Formula}
    (hKind : t.kind = .closing) (h : Settles .iff inner g f) :
    step (.after (inner ++ .group :: frames) g) t = .ok (.after frames f) := by
  have hReduce : reduceAll (inner ++ .group :: frames) g = (.group :: frames, f) := by
    rw [h.closing]
    rfl
  simp [step, hKind, hReduce]

/--
**Completeness, in context.** Where the frames demand no more than the stratum
`s`, tokens that derive `f` from `s` are read, and the frames left open over
them settle to `f`.
-/
theorem run_of_derives {s : Stratum} {ts : List Token} {f : Formula} (h : Derives s ts f) :
    ∀ frames : List Frame, (demand frames).level ≤ s.level →
      ∃ inner g, ts.foldlM step (.before frames) = .ok (.after (inner ++ frames) g) ∧
        Settles s inner g f := by
  induction h using Derives.byShape with
  | weaken hLevel _ ih =>
    intro frames hDemand
    obtain ⟨inner, g, hRun, hSettles⟩ := ih frames (by omega)
    exact ⟨inner, g, hRun, hSettles.weaken hLevel⟩
  | @connect c ts us t l r _ hToken _ ihl ihr =>
    intro frames hDemand
    have hLeftLevel := c.stratum_le_leftStratum
    obtain ⟨inner, g, hRun, hSettles⟩ := ihl frames (by omega)
    -- the left operand is complete: the connective opens a frame over it
    have hStep := step_connective hToken hSettles hDemand
    obtain ⟨inner', g', hRun', hSettles'⟩ := ihr (.operand l c :: frames) (Nat.le_refl _)
    refine ⟨inner' ++ [.operand l c], g', ?_, hSettles'.operand⟩
    rw [run_append hRun, run_cons hStep, hRun', List.append_assoc]
    rfl
  | @not ts t f hToken _ ih =>
    intro frames _
    have hStep : step (.before frames) t = .ok (.before (.negation :: frames)) := by
      simp [step, hToken]
    obtain ⟨inner, g, hRun, hSettles⟩ := ih (.negation :: frames) (Nat.le_refl _)
    refine ⟨inner ++ [.negation], g, ?_, hSettles.negation⟩
    rw [run_cons hStep, hRun, List.append_assoc]
    rfl
  | @name t n hToken hText =>
    intro frames _
    exact ⟨[], .var n, run_cons (step_name hToken hText frames), .refl _ _⟩
  | @constant t b hToken =>
    intro frames _
    have hStep : step (.before frames) t = .ok (.after frames (.constant b)) := by
      simp [step, hToken]
    exact ⟨[], .constant b, run_cons hStep, .refl _ _⟩
  | @group ts t u f hOpen _ hClose ih =>
    intro frames _
    have hStep : step (.before frames) t = .ok (.before (.group :: frames)) := by
      simp [step, hOpen]
    obtain ⟨inner, g, hRun, hSettles⟩ := ih (.group :: frames) (Nat.le_refl _)
    refine ⟨[], f, ?_, .refl _ _⟩
    rw [List.cons_append, run_cons hStep, run_append hRun,
      run_cons (step_closing hClose hSettles)]
    rfl

-- ---------------------------------------------------------------------------
-- Soundness: what was read is a derivation
-- ---------------------------------------------------------------------------

/-- The frames were opened by reading the tokens. A connective was let
through by the frames below it, so they demand no more than its stratum. -/
inductive Pending : List Frame → List Token → Prop
  | nil : Pending [] []
  | group {frames ts t} : Pending frames ts → t.kind = .opening →
      Pending (.group :: frames) (ts ++ [t])
  | negation {frames ts t} : Pending frames ts → t.kind = .not →
      Pending (.negation :: frames) (ts ++ [t])
  | operand {frames ts us t l} {c : Connective} : Pending frames ts →
      Derives c.leftStratum us l → t.kind = .connective c →
      (demand frames).level ≤ c.stratum.level →
      Pending (.operand l c :: frames) (ts ++ us ++ [t])

/-- The tokens are those of the frames, followed by tokens that derive `f`
from the stratum `s`, which is at least what the frames demand. -/
def Holds (frames : List Frame) (s : Stratum) (f : Formula) (ts : List Token) : Prop :=
  ∃ before last, ts = before ++ last ∧ Pending frames before ∧ Derives s last f ∧
    (demand frames).level ≤ s.level

theorem Holds.weaken {frames : List Frame} {s s' : Stratum} {f : Formula} {ts : List Token}
    (h : Holds frames s f ts) (hLevel : s'.level ≤ s.level)
    (hDemand : (demand frames).level ≤ s'.level) : Holds frames s' f ts := by
  obtain ⟨before, last, hSplit, hPending, hDerives, -⟩ := h
  exact ⟨before, last, hSplit, hPending, hDerives.weaken hLevel, hDemand⟩

/-- Giving the operand to a negation. -/
theorem Holds.negation {frames : List Frame} {s : Stratum} {f : Formula} {ts : List Token}
    (h : Holds (.negation :: frames) s f ts) : Holds frames .neg (.not f) ts := by
  obtain ⟨before, last, rfl, hPending, hDerives, hDemand⟩ := h
  cases hPending with
  | @negation _ ts t hPending hToken =>
    refine ⟨ts, t :: last, by simp, hPending, ?_, demand_le_neg frames⟩
    exact .not hToken (hDerives.weaken hDemand)

/-- Giving the operand to a connective as its right operand. -/
theorem Holds.operand {frames : List Frame} {s : Stratum} {l f : Formula} {c : Connective}
    {ts : List Token} (h : Holds (.operand l c :: frames) s f ts) :
    Holds frames c.stratum (c.apply l f) ts := by
  obtain ⟨before, last, rfl, hPending, hDerives, hDemand⟩ := h
  cases hPending with
  | @operand _ ts us t _ _ hPending hLeft hToken hBelow =>
    refine ⟨ts, us ++ t :: last, by simp, hPending, ?_, hBelow⟩
    exact hLeft.connect c hToken (hDerives.weaken hDemand)

/-- Before a connective: the frames that are left let it through, and what
they hold may stand as its left operand. -/
theorem Holds.reduceFor {d : Connective} {frames : List Frame} {s : Stratum} {f : Formula}
    {ts : List Token} (h : Holds frames s f ts) (hLeft : d.leftStratum.level ≤ s.level) :
    ∃ frames' f', Parser.reduceFor d frames f = (frames', f') ∧
      Holds frames' d.leftStratum f' ts ∧ (demand frames').level ≤ d.stratum.level := by
  have hOwn := d.stratum_le_leftStratum
  induction frames generalizing s f with
  | nil => exact ⟨[], f, rfl, h.weaken hLeft (Nat.zero_le _), Nat.zero_le _⟩
  | cons frame frames ih =>
    cases frame with
    | group => exact ⟨.group :: frames, f, rfl, h.weaken hLeft (Nat.zero_le _), Nat.zero_le _⟩
    | negation => exact ih h.negation d.leftStratum_le_neg
    | operand l c =>
      by_cases hKeeps : c.keeps d = true
      · obtain ⟨frames', f', hReduce, hRest⟩ := ih h.operand ((c.keeps_iff d).mp hKeeps)
        exact ⟨frames', f', by simpa [Parser.reduceFor, hKeeps] using hReduce, hRest⟩
      · -- the connective waits: it may stand inside the right operand of the frame
        rw [Bool.not_eq_true] at hKeeps
        have hBelow : c.rightStratum.level ≤ d.stratum.level := (c.not_keeps_iff d).mp hKeeps
        refine ⟨.operand l c :: frames, f, by simp [Parser.reduceFor, hKeeps], ?_, hBelow⟩
        exact h.weaken hLeft (Nat.le_trans hBelow hOwn)

/-- At a closing parenthesis or at the end: nothing but an open parenthesis
is left, and what it holds derives from `Iff`. -/
theorem Holds.reduceAll {frames : List Frame} {s : Stratum} {f : Formula} {ts : List Token}
    (h : Holds frames s f ts) :
    ∃ frames' f', Parser.reduceAll frames f = (frames', f') ∧ Holds frames' .iff f' ts := by
  induction frames generalizing s f with
  | nil => exact ⟨[], f, rfl, h.weaken (Nat.zero_le _) (Nat.le_refl _)⟩
  | cons frame frames ih =>
    cases frame with
    | group => exact ⟨.group :: frames, f, rfl, h.weaken (Nat.zero_le _) (Nat.le_refl _)⟩
    | negation => exact ih h.negation
    | operand l c => exact ih h.operand

/-- The invariant of the parser: what the tokens read so far have led to. -/
def Reads : State → List Token → Prop
  | .before frames, ts => Pending frames ts
  | .after frames f, ts => Holds frames .atom f ts

/-- Nothing is read at the start. -/
theorem reads_start : Reads (.before []) [] :=
  .nil

/-- An atom where an operand is expected. -/
theorem Reads.atom {frames : List Frame} {ts : List Token} {t : Token} {f : Formula}
    (h : Reads (.before frames) ts) (hAtom : Derives .atom [t] f) :
    Reads (.after frames f) (ts ++ [t]) :=
  ⟨ts, [t], rfl, h, hAtom, Nat.le_trans (demand_le_neg frames) (by decide)⟩

/-- **Soundness, one token.** -/
theorem reads_step {st st' : State} {ts : List Token} {t : Token}
    (h : Reads st ts) (hStep : step st t = .ok st') : Reads st' (ts ++ [t]) := by
  cases st with
  | before frames =>
    simp only [step] at hStep
    split at hStep
    · rename_i b hKind
      injection hStep with hStep
      exact hStep ▸ h.atom (.constant hKind)
    · rename_i hKind
      obtain ⟨f, hVar, hStep⟩ := bind_eq_ok_iff.mp hStep
      obtain ⟨n, hText, rfl⟩ := Formula.var?_eq_ok_iff.mp hVar
      injection hStep with hStep
      exact hStep ▸ h.atom (.name hKind hText)
    · rename_i hKind
      injection hStep with hStep
      exact hStep ▸ Pending.negation h hKind
    · rename_i hKind
      injection hStep with hStep
      exact hStep ▸ Pending.group h hKind
    · cases hStep
  | after frames f =>
    simp only [step] at hStep
    split at hStep
    · rename_i c hKind
      obtain ⟨frames', f', hReduce, hHolds, hBelow⟩ :=
        Holds.reduceFor h (Nat.le_trans c.leftStratum_le_neg (by decide))
      obtain ⟨before, last, rfl, hPending, hDerives, -⟩ := hHolds
      rw [hReduce] at hStep
      injection hStep with hStep
      exact hStep ▸ Pending.operand hPending hDerives hKind hBelow
    · rename_i hKind
      obtain ⟨frames', f', hReduce, before, last, rfl, hPending, hDerives, -⟩ := Holds.reduceAll h
      rw [hReduce] at hStep
      cases hPending with
      | @group frames ts u hPending hOpen =>
        -- the parenthesis that closes meets the innermost one that is open
        injection hStep with hStep
        subst hStep
        refine ⟨ts, u :: last ++ [t], by simp, hPending, .group hOpen hDerives hKind, ?_⟩
        exact Nat.le_trans (demand_le_neg frames) (by decide)
      | nil => cases hStep
      | negation => cases hStep
      | operand => cases hStep
    · cases hStep

/-- **Soundness, all tokens.** -/
theorem reads_run {us : List Token} : ∀ {st st' : State} {ts : List Token},
    Reads st ts → us.foldlM step st = .ok st' → Reads st' (ts ++ us) := by
  induction us with
  | nil =>
    intro st st' ts h hRun
    injection hRun with hRun
    rw [← hRun, List.append_nil]
    exact h
  | cons u us ih =>
    intro st st' ts h hRun
    rw [List.foldlM_cons] at hRun
    obtain ⟨st₁, hStep, hRun⟩ := bind_eq_ok_iff.mp hRun
    have := ih (reads_step h hStep) hRun
    rwa [List.append_assoc] at this

/-- At the end of the text all that was read derives the result. -/
theorem Reads.finish {st : State} {ts : List Token} {f : Formula}
    (h : Reads st ts) (hFinish : Parser.finish st = .ok f) : Derives .iff ts f := by
  cases st with
  | before frames => cases hFinish
  | after frames g =>
    obtain ⟨frames', g', hReduce, before, last, rfl, hPending, hDerives, -⟩ := Holds.reduceAll h
    simp only [Parser.finish, hReduce] at hFinish
    cases hPending with
    | nil =>
      injection hFinish with hFinish
      exact hFinish ▸ hDerives
    | group => cases hFinish
    | negation => cases hFinish
    | operand => cases hFinish

-- ---------------------------------------------------------------------------
-- The parser and the grammar agree
-- ---------------------------------------------------------------------------

/-- Reading tokens to their end gives exactly the formula they derive. -/
theorem run_finish_eq_ok_iff {ts : List Token} {f : Formula} :
    (ts.foldlM step (.before []) >>= finish) = .ok f ↔ Derives .iff ts f := by
  constructor
  · intro h
    obtain ⟨st, hRun, hFinish⟩ := bind_eq_ok_iff.mp h
    exact (reads_run reads_start hRun).finish hFinish
  · intro h
    obtain ⟨inner, g, hRun, hSettles⟩ := run_of_derives h [] (Nat.le_refl _)
    have hReduce : reduceAll (inner ++ []) g = ([], f) := hSettles.closing []
    rw [hRun, ok_bind]
    simp only [finish, hReduce]

/-- A splitting is read as `f` exactly when it met no illegal character and
its tokens derive `f`. -/
theorem ofLexing_eq_ok_iff {lexing : Lexing} {f : Formula} :
    ofLexing lexing = .ok f ↔ lexing.obstacle = none ∧ Derives .iff lexing.tokens f := by
  rw [← run_finish_eq_ok_iff, ofLexing]
  cases lexing.obstacle with
  | none => simp
  | some obstacle =>
    -- an obstacle is a fault whatever was read before it
    rw [bind_eq_ok_iff]
    constructor
    · rintro ⟨st, -, h⟩
      cases h
    · rintro ⟨h, -⟩
      cases h

end Parser

/-- A list of tokens derives at most one formula. -/
theorem derives_unique {ts : List Token} {f g : Formula}
    (hf : Derives .iff ts f) (hg : Derives .iff ts g) : f = g := by
  have h := Parser.run_finish_eq_ok_iff.mpr hf
  rw [Parser.run_finish_eq_ok_iff.mpr hg] at h
  injection h with h
  exact h.symm

/-- Text is read as `f` exactly when it splits into tokens that derive `f`. -/
theorem parse_eq_ok_iff {source : String} {f : Formula} :
    parse source = .ok f ↔ (Lexing.ofText source.toList).obstacle = none ∧
      Derives .iff (Lexing.ofText source.toList).tokens f := by
  unfold parse
  split
  · rename_i hStrip
    -- blank text: refused before splitting, and without tokens when split
    have hTokens : (Lexing.ofText source.toList).tokens = [] :=
      Lexing.splitFrom_blank (Text.strip_eq_nil_iff.mp hStrip) 0
    rw [hTokens]
    constructor
    · intro h
      cases h
    · rintro ⟨-, h⟩
      exact absurd rfl h.ne_nil
  · rw [Parser.ofLexing_eq_ok_iff]

/--
**The parser recognises exactly the grammar.** A text is read as the formula
`f` if and only if it splits into tokens without an illegal character and
these derive `f` from `Iff`; and no list of tokens derives two formulas.
-/
theorem parse_recognises_grammar :
    (∀ (source : String) (f : Formula), parse source = .ok f ↔
      (Lexing.ofText source.toList).obstacle = none ∧
        Derives .iff (Lexing.ofText source.toList).tokens f) ∧
    ∀ (ts : List Token) (f g : Formula), Derives .iff ts f → Derives .iff ts g → f = g :=
  ⟨fun _ _ => parse_eq_ok_iff, fun _ _ _ => derives_unique⟩

/-- The tokens of `!p | q & p` are read as a disjunction with a negation on
its left, and as nothing else. -/
theorem parse_recognises_grammar_sample :
    let p : Formula := .var ⟨"p", rfl⟩
    let q : Formula := .var ⟨"q", rfl⟩
    let tokens : List Token :=
      [⟨.not, "!", 0, 1⟩, ⟨.name, "p", 1, 2⟩, ⟨.connective .or, "|", 3, 4⟩, ⟨.name, "q", 5, 6⟩,
        ⟨.connective .and, "&", 7, 8⟩, ⟨.name, "p", 9, 10⟩]
    Derives .iff tokens (.or (.not p) (.and q p)) ∧
      ∀ g, Derives .iff tokens g → g = .or (.not p) (.and q p) := by
  intro p q tokens
  have hLeft : Derives .neg [⟨.not, "!", 0, 1⟩, ⟨.name, "p", 1, 2⟩] (.not p) :=
    .not rfl (.negUnit (.name rfl rfl))
  have hq : Derives .neg [⟨.name, "q", 5, 6⟩] q := .negUnit (.name rfl rfl)
  have hp : Derives .neg [⟨.name, "p", 9, 10⟩] p := .negUnit (.name rfl rfl)
  have hRight : Derives .and [_, ⟨.connective .and, "&", 7, 8⟩, _] (.and q p) :=
    .and (.andUnit hq) rfl hp
  have hOr : Derives .or tokens (.or (.not p) (.and q p)) :=
    Derives.connect .or (hLeft.weaken (by decide)) rfl (hRight.weaken (by decide))
  have hDerives : Derives .iff tokens _ := hOr.weaken (by decide)
  exact ⟨hDerives, fun g hg => parse_recognises_grammar.2 _ _ _ hg hDerives⟩

end TruthTable
