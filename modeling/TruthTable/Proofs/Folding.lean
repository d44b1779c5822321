import Mathlib.Data.List.Forall2
import TruthTable.Fault
import TruthTable.Formula.Fold

/-!
# The fold on an explicit stack

The loop and the recursion call the same steps in every monad. So what the
loop calls shows by running it with a step that keeps a record of its calls,
and what stands in the record can be told from the recursion. What the two
stacks hold is told from the turns of the loop: each keeps the stacks balanced
and lowers their weight.

Main results:

* `accounts_foldNodesRec` — the record of the recursion: the nodes in
  postorder, each with the results of its operands, up to the first call that
  fails.
* `Turns.weight_le`, `Turns.balanced` — what one turn lowers and keeps, all
  turns do.
* `exists_ends`           — the loop goes by turns, and its record is that of
  their calls.
* `stack_fold_refines_recursion` — all of it, for the fold of a formula.
-/

namespace TruthTable.Formula

/-- The nodes of a formula, operands from left to right before their node. A part
that occurs twice is listed twice. -/
def postorder : Formula → List Formula
  | .hole => [.hole]
  | .constant b => [.constant b]
  | .var n => [.var n]
  | .not a => a.postorder ++ [.not a]
  | .binary op l r => l.postorder ++ (r.postorder ++ [.binary op l r])

-- ---------------------------------------------------------------------------
-- Calls of a step that may fail
-- ---------------------------------------------------------------------------

section Calls

variable {ε α : Type} {step : Call α → Except ε α}

/-- The values of a call are the results of the operands, in order. -/
def Fed (step : Call α → Except ε α) (c : Call α) : Prop :=
  List.Forall₂ (fun g v => g.foldNodesRec step = .ok v) c.node.operands c.values

/-- The step is called for the nodes in order, each time with the results of the
operands, up to the first call that fails. -/
inductive Called (step : Call α → Except ε α) : List Formula → List (Call α) → Option ε → Prop
  | nil : Called step [] [] none
  | ok {c v nodes calls failure} : Fed step c → step c = .ok v →
      Called step nodes calls failure → Called step (c.node :: nodes) (c :: calls) failure
  | error {c e nodes} : Fed step c → step c = .error e → Called step (c.node :: nodes) [c] (some e)

/-- Calls for some nodes, and then calls for others, are the calls for all of
them. -/
theorem Called.append {nodes more : List Formula} {calls others : List (Call α)}
    {failure : Option ε} (h : Called step nodes calls none)
    (hMore : Called step more others failure) :
    Called step (nodes ++ more) (calls ++ others) failure := by
  generalize hNone : (none : Option ε) = first at h
  induction h with
  | nil => exact hMore
  | ok hFed hStep _ ih => exact .ok hFed hStep (ih hNone)
  | error => cases hNone

/-- After a call that fails no other node is looked at. -/
theorem Called.stop {nodes : List Formula} {calls : List (Call α)} {e : ε}
    (h : Called step nodes calls (some e)) (more : List Formula) :
    Called step (nodes ++ more) calls (some e) := by
  generalize hSome : some e = failure at h
  induction h with
  | nil => cases hSome
  | ok hFed hStep _ ih => exact .ok hFed hStep (ih hSome)
  | error hFed hStep => exact .error hFed hStep

/-- Every call is made with the results of the operands. -/
theorem Called.fed {nodes : List Formula} {calls : List (Call α)} {failure : Option ε}
    (h : Called step nodes calls failure) : ∀ c ∈ calls, Fed step c := by
  induction h with
  | nil => exact List.forall_mem_nil _
  | ok hFed _ _ ih => exact List.forall_mem_cons.mpr ⟨hFed, ih⟩
  | error hFed => exact List.forall_mem_singleton.mpr hFed

/-- Where no call fails, there is one for each node. -/
theorem Called.of_none {nodes : List Formula} {calls : List (Call α)}
    (h : Called step nodes calls none) :
    calls.map Call.node = nodes ∧ ∀ c ∈ calls, ∃ v, step c = .ok v := by
  generalize hNone : (none : Option ε) = failure at h
  induction h with
  | nil => exact ⟨rfl, List.forall_mem_nil _⟩
  | @ok c v nodes calls failure _ hStep _ ih =>
    obtain ⟨hNodes, hCalls⟩ := ih hNone
    exact ⟨congrArg (c.node :: ·) hNodes, List.forall_mem_cons.mpr ⟨⟨v, hStep⟩, hCalls⟩⟩
  | error => cases hNone

/-- Where a call fails, it is the last one, and the only one that fails. -/
theorem Called.of_some {nodes : List Formula} {calls : List (Call α)} {e : ε}
    (h : Called step nodes calls (some e)) :
    calls.map Call.node <+: nodes ∧ ∃ before c, calls = before ++ [c] ∧
      (∀ d ∈ before, ∃ v, step d = .ok v) ∧ step c = .error e := by
  generalize hSome : some e = failure at h
  induction h with
  | nil => cases hSome
  | @ok c v nodes calls failure _ hStep _ ih =>
    obtain ⟨hNodes, before, last, rfl, hBefore, hLast⟩ := ih hSome
    exact ⟨List.cons_prefix_cons.mpr ⟨rfl, hNodes⟩, c :: before, last, rfl,
      List.forall_mem_cons.mpr ⟨⟨v, hStep⟩, hBefore⟩, hLast⟩
  | @error c e' nodes _ hStep =>
    cases hSome
    exact ⟨List.cons_prefix_cons.mpr ⟨rfl, List.nil_prefix⟩, [], c, rfl, List.forall_mem_nil _,
      hStep⟩

-- ---------------------------------------------------------------------------
-- The record of the calls
-- ---------------------------------------------------------------------------

/-- The step with a record of its calls, those that fail included. -/
def recorded (step : Call α → Except ε α) (c : Call α) : ExceptT ε (StateM (List (Call α))) α :=
  ExceptT.mk do
    modify (· ++ [c])
    return step c

/-- The outcome of a computation that keeps a record, and the record after it. -/
def recordOf {β : Type} (x : ExceptT ε (StateM (List (Call α))) β) (record : List (Call α)) :
    Except ε β × List (Call α) :=
  x.run.run record

theorem recordOf_recorded (c : Call α) (record : List (Call α)) :
    recordOf (recorded step c) record = (step c, record ++ [c]) :=
  rfl

/-- In a sequence the record goes on, up to the first failure. -/
theorem recordOf_bind {β γ : Type} (x : ExceptT ε (StateM (List (Call α))) β)
    (k : β → ExceptT ε (StateM (List (Call α))) γ) (record : List (Call α)) :
    recordOf (x >>= k) record =
      match recordOf x record with
      | (.ok v, after) => recordOf (k v) after
      | (.error e, after) => (.error e, after) := by
  simp only [recordOf, ExceptT.run_bind, StateT.run_bind]
  generalize x.run.run record = outcome
  obtain ⟨_ | _, _⟩ := outcome
  · rfl
  · rfl

/-- With a record, `x` has the outcome of `y` and puts the calls for the nodes on
the record. -/
def Accounts {β : Type} (step : Call α → Except ε α) (nodes : List Formula)
    (x : ExceptT ε (StateM (List (Call α))) β) (y : Except ε β) : Prop :=
  ∀ record, ∃ calls, recordOf x record = (y, record ++ calls) ∧
    ((∃ v, y = .ok v ∧ Called step nodes calls none) ∨
      ∃ e, y = .error e ∧ Called step nodes calls (some e))

/-- One call of the step puts this call on the record. -/
theorem accounts_recorded {c : Call α} (h : Fed step c) :
    Accounts step [c.node] (recorded step c) (step c) := by
  intro record
  refine ⟨[c], recordOf_recorded c record, ?_⟩
  cases hStep : step c with
  | ok v => exact .inl ⟨v, rfl, .ok h hStep .nil⟩
  | error e => exact .inr ⟨e, rfl, .error h hStep⟩

/-- In a sequence the calls of both parts are recorded, up to the first failure. -/
theorem Accounts.bind {β γ : Type} {nodes more : List Formula}
    {x : ExceptT ε (StateM (List (Call α))) β} {y : Except ε β}
    {k : β → ExceptT ε (StateM (List (Call α))) γ} {l : β → Except ε γ}
    (h : Accounts step nodes x y) (hMore : ∀ v, y = .ok v → Accounts step more (k v) (l v)) :
    Accounts step (nodes ++ more) (x >>= k) (y >>= l) := by
  intro record
  obtain ⟨calls, hRecord, ⟨v, rfl, hCalled⟩ | ⟨e, rfl, hCalled⟩⟩ := h record
  · obtain ⟨others, hOthers, hOutcome⟩ := hMore v rfl (record ++ calls)
    refine ⟨calls ++ others, ?_, ?_⟩
    · rw [recordOf_bind, hRecord, ← List.append_assoc]
      exact hOthers
    · exact hOutcome.imp (fun ⟨w, hw, hRest⟩ => ⟨w, hw, hCalled.append hRest⟩)
        fun ⟨e, he, hRest⟩ => ⟨e, he, hCalled.append hRest⟩
  · exact ⟨calls, by rw [recordOf_bind, hRecord]; rfl, .inr ⟨e, rfl, hCalled.stop more⟩⟩

/-- **The record of the recursion.** The step is called for the nodes in
postorder, up to the first call that fails. -/
theorem accounts_foldNodesRec (step : Call α → Except ε α) (f : Formula) :
    Accounts step f.postorder (f.foldNodesRec (recorded step)) (f.foldNodesRec step) := by
  induction f with
  | hole => exact accounts_recorded .nil
  | constant b => exact accounts_recorded .nil
  | var n => exact accounts_recorded .nil
  | not a ih => exact ih.bind fun v hv => accounts_recorded (.cons hv .nil)
  | binary op l r ihl ihr =>
    exact ihl.bind fun v hv => ihr.bind fun w hw =>
      accounts_recorded (.cons hv (.cons hw .nil))

end Calls

-- ---------------------------------------------------------------------------
-- The turns of the loop
-- ---------------------------------------------------------------------------

namespace Stacks

variable {ε α : Type} {step : Call α → Except ε α}

/-- The loop comes from one pair of stacks to the other by `n` turns, in which
the calls of the step succeed. -/
inductive Turns (step : Call α → Except ε α) : Nat → Stacks α → List (Call α) → Stacks α → Prop
  | refl (s : Stacks α) : Turns step 0 s [] s
  | expand {n s t calls u} : s.next = .expand t → Turns step n t calls u →
      Turns step (n + 1) s calls u
  | finish {n s c after v calls u} : s.next = .finish c.node c.values after → step c = .ok v →
      Turns step n (after v) calls u → Turns step (n + 1) s (c :: calls) u

/-- Every turn makes the stacks lighter. -/
theorem Turns.weight_le {n : Nat} {s t : Stacks α} {calls : List (Call α)}
    (h : Turns step n s calls t) : n + t.weight ≤ s.weight := by
  induction h with
  | refl s => exact Nat.le_of_eq (Nat.zero_add _)
  | expand hNext _ ih =>
    have hTurn := weight_expand hNext
    omega
  | @finish _ _ _ _ v _ _ hNext _ _ ih =>
    have hTurn := weight_finish hNext v
    omega

/-- Turns keep the results in step with the waiting nodes. -/
theorem Turns.balanced {n : Nat} {s t : Stacks α} {calls : List (Call α)}
    (h : Turns step n s calls t) (hs : s.Balanced) : t.Balanced := by
  induction h with
  | refl s => exact hs
  | expand hNext _ ih => exact ih (hs.expand hNext)
  | finish hNext _ _ ih => exact ih (hs.finish hNext _)

/-- At the start the stacks weigh two for each node. -/
theorem weight_start (f : Formula) : (start f : Stacks α).weight = 2 * f.size := by
  simp [weight, start, costs, cost]

/-- At the end no node is left, and one result. -/
theorem Balanced.eq_of_done {s : Stacks α} (hs : s.Balanced) (h : s.next = .done) :
    ∃ v, s = ⟨[], [v]⟩ := by
  obtain ⟨v, hResults⟩ := List.length_eq_one_iff.mp (hs.length_done h)
  have hPending := next_eq_done h
  obtain ⟨pending, results⟩ := s
  exact ⟨v, by cases hPending; cases hResults; rfl⟩

end Stacks

section Ends

variable {ε α : Type} {step : Call α → Except ε α} {s t : Stacks α} {calls : List (Call α)}
  {outcome : Except ε α}

/-- How a loop ends that makes these calls: with one result and no node left, or
at a node whose call fails. -/
inductive Ends (step : Call α → Except ε α) (s : Stacks α) : List (Call α) → Except ε α → Prop
  | ok {n calls v} : Stacks.Turns step n s calls ⟨[], [v]⟩ → Ends step s calls (.ok v)
  | error {n calls t c after e} : Stacks.Turns step n s calls t →
      t.next = .finish c.node c.values after → step c = .error e →
      Ends step s (calls ++ [c]) (.error e)

/-- A turn that expands a node makes no call. -/
theorem Ends.expand (h : Ends step t calls outcome) (hNext : s.next = .expand t) :
    Ends step s calls outcome := by
  cases h with
  | ok hTurns => exact .ok (.expand hNext hTurns)
  | error hTurns hCall hStep => exact .error (.expand hNext hTurns) hCall hStep

/-- A turn that finishes a node makes one call. -/
theorem Ends.finish {c : Call α} {after : α → Stacks α} {v : α}
    (h : Ends step (after v) calls outcome) (hNext : s.next = .finish c.node c.values after)
    (hStep : step c = .ok v) : Ends step s (c :: calls) outcome := by
  cases h with
  | ok hTurns => exact .ok (.finish hNext hStep hTurns)
  | error hTurns hCall hFault => exact .error (.finish hNext hStep hTurns) hCall hFault

/-- **The loop goes by turns**, and with a record it keeps the calls of its
turns. -/
theorem exists_ends (step : Call α → Except ε α) (s : Stacks α) (h : s.Balanced) :
    ∃ calls, Ends step s calls (loop step s h) ∧ ∀ record,
      recordOf (loop (recorded step) s h) record = (loop step s h, record ++ calls) := by
  fun_induction loop step s h with
  | case1 s h hNext =>
    obtain ⟨v, rfl⟩ := h.eq_of_done hNext
    refine ⟨[], .ok (.refl _), fun record => ?_⟩
    rw [loop_done, List.append_nil]
    rfl
  | case2 s h t hNext ih =>
    obtain ⟨calls, hEnds, hRecord⟩ := ih
    exact ⟨calls, hEnds.expand hNext, fun record => by rw [loop_expand h hNext, hRecord]⟩
  | case3 s h node values after hNext ih =>
    let c : Call α := ⟨node, values, (h.enough hNext).2⟩
    cases hStep : step c with
    | error e =>
      refine ⟨[c], .error (.refl s) hNext hStep, fun record => ?_⟩
      rw [loop_finish h hNext, recordOf_bind, recordOf_recorded, hStep]
      rfl
    | ok v =>
      obtain ⟨calls, hEnds, hRecord⟩ := ih v
      refine ⟨c :: calls, hEnds.finish hNext hStep, fun record => ?_⟩
      rw [loop_finish h hNext, recordOf_bind, recordOf_recorded, hStep]
      show recordOf (loop (recorded step) (after v) _) (record ++ [c]) = _
      rw [hRecord, List.append_assoc]
      rfl

end Ends

/--
**The fold on an explicit stack refines the recursion, failures included.** In
every monad the loop calls the same steps as the recursion. A step that may
fail is called for the nodes in postorder, each occurrence once and with the
results of its operands from left to right, up to the first call that fails;
that failure is the outcome, and without one the result of the recursion is.
The loop takes at most two turns for each node, a node that is finished finds
at least as many results as it has operands, and one result is left at the end.
-/
theorem stack_fold_refines_recursion (f : Formula) :
    (∀ (m : Type → Type) [Monad m] [LawfulMonad m] (α : Type) (step : Call α → m α),
      f.foldNodes step = f.foldNodesRec step) ∧
    ∀ (ε α : Type) (step : Call α → Except ε α),
      (∃ calls,
        recordOf (f.foldNodes (recorded step)) [] = (f.foldNodes step, calls) ∧
        Ends step (.start f) calls (f.foldNodes step) ∧
        (∀ c ∈ calls,
          List.Forall₂ (fun g v => g.foldNodesRec step = .ok v) c.node.operands c.values) ∧
        ((∃ v, f.foldNodes step = .ok v ∧ f.foldNodesRec step = .ok v ∧
            calls.map Call.node = f.postorder ∧ ∀ c ∈ calls, ∃ w, step c = .ok w) ∨
          ∃ (e : ε) (before : List (Call α)) (c : Call α),
            f.foldNodes step = .error e ∧ f.foldNodesRec step = .error e ∧
            calls = before ++ [c] ∧ calls.map Call.node <+: f.postorder ∧
            (∀ d ∈ before, ∃ w, step d = .ok w) ∧ step c = .error e)) ∧
      ∀ n calls s, Stacks.Turns step n (.start f) calls s →
        n ≤ 2 * f.size ∧
        (∀ node values after, s.next = .finish node values after →
          node.operands.length ≤ s.results.length) ∧
        (s.next = .done → s.results.length = 1) := by
  refine ⟨fun m _ _ α step => foldNodes_eq_foldNodesRec step f, fun ε α step => ⟨?_, ?_⟩⟩
  · obtain ⟨calls, hEnds, hRecord⟩ := exists_ends step (.start f) (Stacks.balanced_start f)
    obtain ⟨calls', hAccount, hOutcome⟩ := accounts_foldNodesRec step f []
    have hLoop : f.foldNodes step = f.foldNodesRec step := foldNodes_eq_foldNodesRec step f
    -- the loop and the recursion leave the same record
    have hSame : calls' = calls := by
      rw [← foldNodes_eq_foldNodesRec] at hAccount
      exact congrArg Prod.snd (hAccount.symm.trans (hRecord []))
    subst hSame
    refine ⟨calls', hRecord [], hEnds, ?_⟩
    rw [hLoop]
    rcases hOutcome with ⟨v, hValue, hCalled⟩ | ⟨e, hFault, hCalled⟩
    · obtain ⟨hNodes, hCalls⟩ := hCalled.of_none
      exact ⟨hCalled.fed, .inl ⟨v, hValue, hValue, hNodes, hCalls⟩⟩
    · obtain ⟨hNodes, before, c, hCalls, hBefore, hStep⟩ := hCalled.of_some
      exact ⟨hCalled.fed, .inr ⟨e, before, c, hFault, hFault, hCalls, hNodes, hBefore, hStep⟩⟩
  · intro n calls s hTurns
    have hBalanced := hTurns.balanced (Stacks.balanced_start f)
    have hWeight := hTurns.weight_le
    rw [Stacks.weight_start] at hWeight
    exact ⟨by omega, fun node values after hNext => (hBalanced.enough hNext).1,
      hBalanced.length_done⟩

/-- A step that counts nodes and fails at a hole: in `p & !□` the negation and the
conjunction are never reached, and the first two turns finish `p`. -/
theorem stack_fold_refines_recursion_sample :
    let p : Formula := .var ⟨"p", rfl⟩
    let f : Formula := .and p (.not .hole)
    let step : Call Nat → Except String Nat := fun c =>
      if c.node = .hole then .error "hole" else .ok (c.values.foldl (· + ·) 1)
    f.foldNodes step = f.foldNodesRec step ∧
      (∃ before c, recordOf (f.foldNodes (recorded step)) [] = (.error "hole", before ++ [c]) ∧
        (before ++ [c]).map Call.node <+: [p, .hole, .not .hole, f] ∧ step c = .error "hole") ∧
      Stacks.Turns step 2 (.start f) [⟨p, [], rfl⟩] ⟨[⟨.not .hole, false⟩, ⟨f, true⟩], [1]⟩ ∧
      2 ≤ 2 * f.size := by
  intro p f step
  obtain ⟨hLoop, hSteps⟩ := stack_fold_refines_recursion f
  obtain ⟨⟨calls, hRecord, -, -, hOutcome⟩, hTurns⟩ := hSteps String Nat step
  have hSame := hLoop (Except String) Nat step
  have hFault : f.foldNodes step = .error "hole" := by
    rw [hSame]
    rfl
  have hFirst : Stacks.Turns step 1
      ⟨[⟨p, false⟩, ⟨.not .hole, false⟩, ⟨f, true⟩], []⟩ [⟨p, [], rfl⟩]
      ⟨[⟨.not .hole, false⟩, ⟨f, true⟩], [1]⟩ := .finish (v := 1) rfl rfl (.refl _)
  have hTwo := Stacks.Turns.expand (s := .start f) rfl hFirst
  refine ⟨hSame, ?_, hTwo, (hTurns _ _ _ hTwo).1⟩
  rcases hOutcome with ⟨v, hValue, -⟩ | ⟨e, before, c, hError, -, rfl, hNodes, -, hStep⟩
  · rw [hFault] at hValue
    cases hValue
  · rw [hFault] at hError
    cases hError
    exact ⟨before, c, by rw [hRecord, hFault], hNodes, hStep⟩

end TruthTable.Formula
