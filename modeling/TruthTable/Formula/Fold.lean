import TruthTable.Formula.Basic

/-!
# Folding a formula with an explicit stack

`Formula.foldNodes` combines the results of the parts of a formula bottom-up. The nodes still to be
finished and the results not yet consumed are kept on two stacks, so the depth of a formula is
limited by memory alone. A node with operands comes up twice: the first time it goes back on the
stack below its operands, and when it comes up again their results lie on top of the results. The
step function may have effects (fail, for instance); it is called once per node, for the left
operand before the right one and for the operands before the node itself.

`Stacks.next` is one turn of the loop on any two stacks. That no node lacks the results of its
operands when it is finished, and that the loop ends with one result, is the invariant
`Stacks.Balanced`, an argument of the loop.

`Formula.fold` is the same for a step that looks at no more of a node than its own layer.

Main statements: `foldNodes_eq_foldNodesRec` and `fold_eq_foldRec`, the loop calls the same steps as
the fold by structural recursion.
-/

namespace TruthTable

/-- One node of a formula with the results of its operands in place of the operands. -/
inductive Layer (α : Type) where
  | hole
  | constant (value : Bool)
  | var (name : Name)
  | not (operand : α)
  | binary (op : Operator) (left right : α)

namespace Formula

/-- The operands of a node, from left to right. -/
def operands : Formula → List Formula
  | .hole => []
  | .constant _ => []
  | .var _ => []
  | .not a => [a]
  | .binary _ l r => [l, r]

/-- A call of the step function: a node, and the results of its operands from left to right. -/
structure Call (α : Type) where
  node : Formula
  values : List α
  complete : values.length = node.operands.length

/-- The node of a call with the results in place of its operands. -/
def Call.layer {α : Type} : Call α → Layer α
  | ⟨.hole, _, _⟩ => .hole
  | ⟨.constant b, _, _⟩ => .constant b
  | ⟨.var n, _, _⟩ => .var n
  | ⟨.not _, [v], _⟩ => .not v
  | ⟨.binary op _ _, [v, w], _⟩ => .binary op v w

/-- The fold by structural recursion: operands from left to right, then the node. -/
def foldNodesRec {m : Type → Type} [Monad m] {α : Type} (step : Call α → m α) : Formula → m α
  | .hole => step ⟨.hole, [], rfl⟩
  | .constant b => step ⟨.constant b, [], rfl⟩
  | .var n => step ⟨.var n, [], rfl⟩
  | .not a => do
    let v ← foldNodesRec step a
    step ⟨.not a, [v], rfl⟩
  | .binary op l r => do
    let v ← foldNodesRec step l
    let w ← foldNodesRec step r
    step ⟨.binary op l r, [v, w], rfl⟩

/-- The fold by structural recursion for a step that looks at layers only. -/
def foldRec {m : Type → Type} [Monad m] {α : Type} (step : Layer α → m α) : Formula → m α
  | .hole => step .hole
  | .constant b => step (.constant b)
  | .var n => step (.var n)
  | .not a => do
    let v ← foldRec step a
    step (.not v)
  | .binary op l r => do
    let v ← foldRec step l
    let w ← foldRec step r
    step (.binary op v w)

/-! ## The two stacks -/

/-- A node that waits on the stack. It is `expanded` when its operands have been put above it. -/
structure Pending where
  node : Formula
  expanded : Bool

/-- The node is finished when it comes up: it was expanded before, or there is nothing to expand. -/
def Pending.isDue (p : Pending) : Bool :=
  p.expanded || p.node.operands.isEmpty

/-- The nodes that take the place of a node when it is expanded, the leftmost operand on top. -/
def Pending.expansion (p : Pending) : List Pending :=
  p.node.operands.map (⟨·, false⟩) ++ [⟨p.node, true⟩]

/-- The loop between two turns: the nodes to be finished and the results not yet consumed, each
with the top first. -/
structure Stacks (α : Type) where
  pending : List Pending
  results : List α

/-- What the loop does next. -/
inductive Move (α : Type) where
  /-- No node is left. -/
  | done
  /-- A node goes back below its operands. -/
  | expand (after : Stacks α)
  /-- The step is called for a node with these values, and its result is put on the results. -/
  | finish (node : Formula) (values : List α) (after : α → Stacks α)

namespace Stacks

/-- Where the loop starts. -/
def start {α : Type} (f : Formula) : Stacks α :=
  ⟨[⟨f, false⟩], []⟩

/-- One turn of the loop: the topmost node is finished with as many of the topmost results as it has
operands, or it is expanded. -/
@[inline]
def next {α : Type} (s : Stacks α) : Move α :=
  match s.pending with
  | [] => .done
  | p :: rest =>
    let count := p.node.operands.length
    if p.isDue then
      .finish p.node (s.results.take count).reverse fun v => ⟨rest, v :: s.results.drop count⟩
    else .expand ⟨p.expansion ++ rest, s.results⟩

/-- What a waiting node costs at most: two turns per node below it and for itself, one turn when it
is expanded. -/
def cost (p : Pending) : Nat :=
  if p.expanded then 1 else 2 * p.node.size

/-- The cost of all waiting nodes. -/
def costs : List Pending → Nat
  | [] => 0
  | p :: rest => cost p + costs rest

/-- What the rest of the loop costs at most. -/
def weight {α : Type} (s : Stacks α) : Nat :=
  costs s.pending

/-- With `n` results at hand no node lacks the results of its operands when it comes up, and exactly
one result is left at the end. -/
def Suffices : List Pending → Nat → Prop
  | [], n => n = 1
  | ⟨node, true⟩ :: rest, n =>
    node.operands.length ≤ n ∧ Suffices rest (n - node.operands.length + 1)
  | ⟨_, false⟩ :: rest, n => Suffices rest (n + 1)

/-- The results are neither too few nor too many for the waiting nodes. -/
def Balanced {α : Type} (s : Stacks α) : Prop :=
  Suffices s.pending s.results.length

/-! ## What a turn does -/

/-- No waiting node is free. -/
theorem cost_pos (p : Pending) : 0 < cost p := by
  obtain ⟨node, expanded⟩ := p
  cases expanded with
  | true => exact Nat.one_pos
  | false => cases node <;> simp [cost, size]

theorem costs_append (ps rest : List Pending) : costs (ps ++ rest) = costs ps + costs rest := by
  induction ps with
  | nil => exact (Nat.zero_add _).symm
  | cons p ps ih => rw [List.cons_append, costs, costs, ih, Nat.add_assoc]

/-- A node costs more than its expansion. -/
theorem costs_expansion {p : Pending} (h : p.isDue = false) : costs p.expansion < cost p := by
  obtain ⟨node, expanded⟩ := p
  simp only [Pending.isDue, Bool.or_eq_false_iff] at h
  obtain ⟨rfl, hOperands⟩ := h
  cases node with
  | hole => cases hOperands
  | constant b => cases hOperands
  | var n => cases hOperands
  | not a => simp [Pending.expansion, operands, costs, cost, size]; omega
  | binary op l r => simp [Pending.expansion, operands, costs, cost, size]; omega

/-- Each fresh operand brings a result. -/
theorem suffices_fresh (fs : List Formula) (rest : List Pending) (n : Nat) :
    Suffices (fs.map (⟨·, false⟩) ++ rest) n ↔ Suffices rest (n + fs.length) := by
  induction fs generalizing n with
  | nil => rfl
  | cons f fs ih =>
    rw [List.map_cons, List.cons_append, Suffices, ih, List.length_cons, Nat.add_assoc,
      Nat.add_comm 1]

/-- A node that is due finds the results of its operands and leaves its own in their place. -/
theorem Suffices.finish {p : Pending} {rest : List Pending} {n : Nat}
    (h : Suffices (p :: rest) n) (hDue : p.isDue = true) :
    p.node.operands.length ≤ n ∧ Suffices rest (n - p.node.operands.length + 1) := by
  obtain ⟨node, expanded⟩ := p
  cases expanded with
  | true => exact h
  | false =>
    have hNone : node.operands = [] := by simpa [Pending.isDue] using hDue
    simpa [hNone, Suffices] using h

/-- Expanding a node changes nothing for the others: its operands bring what it takes. -/
theorem Suffices.expand {p : Pending} {rest : List Pending} {n : Nat}
    (h : Suffices (p :: rest) n) (hDue : p.isDue = false) : Suffices (p.expansion ++ rest) n := by
  obtain ⟨node, expanded⟩ := p
  simp only [Pending.isDue, Bool.or_eq_false_iff] at hDue
  obtain ⟨rfl, -⟩ := hDue
  rw [Pending.expansion, List.append_assoc, suffices_fresh]
  exact ⟨Nat.le_add_left _ _, by simpa [Suffices] using h⟩

section Turn

variable {α : Type} {s t : Stacks α} {node : Formula} {values : List α} {after : α → Stacks α}

/-- The loop ends when no node waits. -/
theorem next_eq_done (h : s.next = .done) : s.pending = [] := by
  unfold next at h
  split at h
  · assumption
  · split at h <;> cases h

/-- A node is expanded when it comes up for the first time. -/
theorem next_eq_expand (h : s.next = .expand t) : ∃ p rest, s.pending = p :: rest ∧
    p.isDue = false ∧ t = ⟨p.expansion ++ rest, s.results⟩ := by
  unfold next at h
  split at h
  · cases h
  · rename_i p rest hPending
    split at h
    · cases h
    · rename_i hDue
      cases h
      exact ⟨p, rest, hPending, Bool.eq_false_iff.mpr hDue, rfl⟩

/-- A node is finished with the topmost results, one for each operand. -/
theorem next_eq_finish (h : s.next = .finish node values after) : ∃ p rest,
    s.pending = p :: rest ∧ p.isDue = true ∧ node = p.node ∧
      values = (s.results.take p.node.operands.length).reverse ∧
      after = fun v => ⟨rest, v :: s.results.drop p.node.operands.length⟩ := by
  unfold next at h
  split at h
  · cases h
  · rename_i p rest hPending
    split at h
    · rename_i hDue
      cases h
      exact ⟨p, rest, hPending, hDue, rfl, rfl, rfl⟩
    · cases h

/-- Every turn lowers the weight, whatever the step returns. -/
theorem weight_expand (h : s.next = .expand t) : t.weight < s.weight := by
  obtain ⟨p, rest, hPending, hDue, rfl⟩ := next_eq_expand h
  have hCost := costs_expansion hDue
  rw [weight, weight, hPending, costs_append, costs]
  exact Nat.add_lt_add_right hCost _

/-- Finishing a node makes the stacks lighter. -/
theorem weight_finish (h : s.next = .finish node values after) (v : α) :
    (after v).weight < s.weight := by
  obtain ⟨p, rest, hPending, -, -, -, rfl⟩ := next_eq_finish h
  rw [weight, weight, hPending, costs]
  exact Nat.lt_add_of_pos_left (cost_pos p)

/-- At the end there is one result. -/
theorem Balanced.length_done (hs : s.Balanced) (h : s.next = .done) : s.results.length = 1 := by
  rw [Balanced, next_eq_done h] at hs
  exact hs

/-- Expanding a node keeps the results in step. -/
theorem Balanced.expand (hs : s.Balanced) (h : s.next = .expand t) : t.Balanced := by
  obtain ⟨p, rest, hPending, hDue, rfl⟩ := next_eq_expand h
  rw [Balanced, hPending] at hs
  exact hs.expand hDue

/-- A node that is finished finds the results of its operands. -/
theorem Balanced.enough (hs : s.Balanced) (h : s.next = .finish node values after) :
    node.operands.length ≤ s.results.length ∧ values.length = node.operands.length := by
  obtain ⟨p, rest, hPending, hDue, rfl, rfl, -⟩ := next_eq_finish h
  rw [Balanced, hPending] at hs
  have hEnough := (hs.finish hDue).1
  exact ⟨hEnough, by simp [hEnough]⟩

/-- Finishing a node keeps the results in step. -/
theorem Balanced.finish (hs : s.Balanced) (h : s.next = .finish node values after) (v : α) :
    (after v).Balanced := by
  obtain ⟨p, rest, hPending, hDue, -, -, rfl⟩ := next_eq_finish h
  rw [Balanced, hPending] at hs
  simpa [Balanced] using (hs.finish hDue).2

/-- A formula that is gone through leaves its result. -/
theorem Balanced.fresh {f : Formula} {rest : List Pending} {results : List α}
    (h : Balanced ⟨⟨f, false⟩ :: rest, results⟩) (v : α) : Balanced ⟨rest, v :: results⟩ :=
  h

end Turn

theorem balanced_start {α : Type} (f : Formula) : (start f : Stacks α).Balanced := rfl

end Stacks

/-! ## The loop -/

/-- Goes on until no node is left; the result at the bottom is the result of the fold. -/
@[specialize]
def loop {m : Type → Type} [Monad m] {α : Type} (step : Call α → m α) (s : Stacks α)
    (h : s.Balanced) : m α :=
  match hNext : s.next with
  | .done => pure (s.results.getLast (by
      rw [← List.length_pos_iff, h.length_done hNext]
      exact Nat.one_pos))
  | .expand t => loop step t (h.expand hNext)
  | .finish node values after => do
    let v ← step ⟨node, values, (h.enough hNext).2⟩
    loop step (after v) (h.finish hNext v)
termination_by s.weight
decreasing_by
  · exact Stacks.weight_expand hNext
  · exact Stacks.weight_finish hNext v

/-- Combines the parts of a formula bottom-up, on an explicit stack. -/
@[specialize]
def foldNodes {m : Type → Type} [Monad m] {α : Type} (step : Call α → m α) (f : Formula) : m α :=
  loop step (.start f) (Stacks.balanced_start f)

/-- The fold for a step that looks at layers only. -/
@[specialize]
def fold {m : Type → Type} [Monad m] {α : Type} (step : Layer α → m α) (f : Formula) : m α :=
  foldNodes (fun c => step c.layer) f

/-! ## Agreement with structural recursion -/

section Agreement

variable {m : Type → Type} [Monad m] {α : Type} {step : Call α → m α}

theorem loop_done (v : α) (h : Stacks.Balanced ⟨[], [v]⟩) : loop step ⟨[], [v]⟩ h = pure v := by
  rw [loop]
  rfl

theorem loop_expand {s t : Stacks α} (h : s.Balanced) (hNext : s.next = .expand t) :
    loop step s h = loop step t (h.expand hNext) := by
  rw [loop]
  split
  · rename_i hOther; rw [hNext] at hOther; cases hOther
  · rename_i hSame; rw [hNext] at hSame; cases hSame; rfl
  · rename_i hOther; rw [hNext] at hOther; cases hOther

theorem loop_finish {s : Stacks α} {node : Formula} {values : List α} {after : α → Stacks α}
    (h : s.Balanced) (hNext : s.next = .finish node values after) :
    loop step s h = step ⟨node, values, (h.enough hNext).2⟩ >>= fun v =>
      loop step (after v) (h.finish hNext v) := by
  rw [loop]
  split
  · rename_i hOther; rw [hNext] at hOther; cases hOther
  · rename_i hOther; rw [hNext] at hOther; cases hOther
  · rename_i hSame; rw [hNext] at hSame; cases hSame; rfl

/-- Going through a formula puts the result of its recursive fold on the results and goes on with
the rest of the stack. -/
theorem loop_fresh [LawfulMonad m] (f : Formula) (rest : List Pending) (results : List α)
    (h : Stacks.Balanced ⟨⟨f, false⟩ :: rest, results⟩) :
    loop step ⟨⟨f, false⟩ :: rest, results⟩ h =
      foldNodesRec step f >>= fun v => loop step ⟨rest, v :: results⟩ (h.fresh v) := by
  induction f generalizing rest results with
  | hole => exact loop_finish h rfl
  | constant b => exact loop_finish h rfl
  | var n => exact loop_finish h rfl
  | not a ih =>
    have hExpand : Stacks.next ⟨⟨.not a, false⟩ :: rest, results⟩ =
        .expand ⟨⟨a, false⟩ :: ⟨.not a, true⟩ :: rest, results⟩ := rfl
    rw [loop_expand h hExpand, ih, foldNodesRec, bind_assoc]
    exact bind_congr fun v => loop_finish _ rfl
  | binary op l r ihl ihr =>
    have hExpand : Stacks.next ⟨⟨.binary op l r, false⟩ :: rest, results⟩ =
        .expand ⟨⟨l, false⟩ :: ⟨r, false⟩ :: ⟨.binary op l r, true⟩ :: rest, results⟩ := rfl
    rw [loop_expand h hExpand, ihl, foldNodesRec, bind_assoc]
    refine bind_congr fun v => ?_
    rw [ihr, bind_assoc]
    exact bind_congr fun w => loop_finish _ rfl

/-- The fold on an explicit stack calls the same steps as the recursive one. -/
theorem foldNodes_eq_foldNodesRec [LawfulMonad m] (step : Call α → m α) (f : Formula) :
    foldNodes step f = foldNodesRec step f := by
  simp only [foldNodes, Stacks.start, loop_fresh, loop_done, bind_pure]

/-- A step that looks at layers only folds layers. -/
theorem foldNodesRec_layer (step : Layer α → m α) (f : Formula) :
    foldNodesRec (fun c => step c.layer) f = foldRec step f := by
  induction f with
  | hole => rfl
  | constant b => rfl
  | var n => rfl
  | not a ih => rw [foldNodesRec, foldRec, ih]; rfl
  | binary op l r ihl ihr => rw [foldNodesRec, foldRec, ihl, ihr]; rfl

/-- The fold over layers on an explicit stack runs the same steps as the recursive one. -/
theorem fold_eq_foldRec [LawfulMonad m] (step : Layer α → m α) (f : Formula) :
    fold step f = foldRec step f := by
  rw [fold, foldNodes_eq_foldNodesRec, foldNodesRec_layer]

end Agreement

end Formula

end TruthTable
