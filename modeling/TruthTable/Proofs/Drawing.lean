import TruthTable.Graph
import TruthTable.Proofs.Delimiting

/-!
# Drawings show the tree

The parts of a formula are numbered in preorder, and `Graph.parts` lists them
with their numbers. A drawing has one node statement for each part, in this
order, and between them the edges, each after everything that is drawn for the
operand it leads to. The number that the recursion hands on is the number of
the parts met so far, so the parts of an operand lie side by side.

Main results:

* `statements_eq`, `statements_of_deep` — drawing succeeds on every formula
  without holes that there is room for, and on no other.
* `depicts_drawn`          — the nodes, the edges and the numbers of a drawing.
* `decode_drawn`           — the nodes in their order determine the formula.
* `body_unique`            — the text after the comment determines the
  statements.
* `drawing_shows_tree`     — so the text shows the tree, and nothing but it.
* `deep_formula_not_drawn` — a formula that there is no room for.
-/

namespace TruthTable

namespace Formula

/-- The number of levels of nodes, a leaf having one. -/
def depth : Formula → Nat
  | .hole => 1
  | .constant _ => 1
  | .var _ => 1
  | .not a => a.depth + 1
  | .binary _ l r => max l.depth r.depth + 1

/-- There is at least one level. -/
theorem depth_pos (f : Formula) : 0 < f.depth := by
  cases f <;> simp [depth]

/-- A formula under so many negations. -/
def deepen : Nat → Formula → Formula
  | 0, f => f
  | n + 1, f => .not (deepen n f)

/-- Each negation adds a level. -/
theorem depth_deepen (n : Nat) (f : Formula) : (deepen n f).depth = n + f.depth := by
  induction n with
  | zero => exact (Nat.zero_add _).symm
  | succ n ih =>
    rw [deepen, depth, ih]
    omega

/-- Negations bring in no hole. -/
theorem complete_deepen {f : Formula} (hf : f.Complete) (n : Nat) : (deepen n f).Complete := by
  induction n with
  | zero => exact hf
  | succ n ih => exact ih

end Formula

namespace Graph

-- ---------------------------------------------------------------------------
-- Nodes and edges of a list of statements
-- ---------------------------------------------------------------------------

/-- An edge, by the numbers of its ends. -/
structure Link where
  source : Nat
  target : Nat
  side : Edge

/-- The number and the mark of a node statement. -/
@[simp]
def Statement.node? : Statement → Option (Nat × Mark)
  | .node id mark => some (id, mark)
  | .edge .. => none

/-- The edge of an edge statement. -/
@[simp]
def Statement.link? : Statement → Option Link
  | .node .. => none
  | .edge source target side => some ⟨source, target, side⟩

/-- The node statements, in order. -/
abbrev nodes (body : List Statement) : List (Nat × Mark) :=
  body.filterMap Statement.node?

/-- The edge statements, in order. -/
abbrev links (body : List Statement) : List Link :=
  body.filterMap Statement.link?

-- ---------------------------------------------------------------------------
-- Numbered parts
-- ---------------------------------------------------------------------------

/-- The parts of a formula with their numbers: the formula itself, which gets
the number `next`, then the parts of its operands from left to right. -/
def parts (next : Nat) : Formula → List (Nat × Formula)
  | .hole => [(next, .hole)]
  | .constant b => [(next, .constant b)]
  | .var n => [(next, .var n)]
  | .not a => (next, .not a) :: parts (next + 1) a
  | .binary op l r =>
    (next, .binary op l r) :: (parts (next + 1) l ++ parts (next + 1 + l.size) r)

/-- What the node for a formula shows; a hole has none. -/
def mark? : Formula → Option Mark
  | .hole => none
  | .constant b => some (.constant b)
  | .var n => some (.var n)
  | .not _ => some .not
  | .binary op _ _ => some (.binary op)

/-- The edges from a part to its operands. -/
def branches (next : Nat) : Formula → List Link
  | .not _ => [⟨next, next + 1, .only⟩]
  | .binary _ l _ => [⟨next, next + 1, .left⟩, ⟨next, next + 1 + l.size, .right⟩]
  | _ => []

/-- The operands of a part with their numbers. -/
def operands (next : Nat) : Formula → List (Nat × Formula)
  | .not a => [(next + 1, a)]
  | .binary _ l r => [(next + 1, l), (next + 1 + l.size, r)]
  | _ => []

/-- The numbers follow each other. -/
theorem numbers_parts (f : Formula) (next : Nat) :
    (parts next f).map (·.1) = List.range' next f.size := by
  induction f generalizing next with
  | hole => rfl
  | constant b => rfl
  | var n => rfl
  | not a ih => rw [parts, List.map_cons, ih, Formula.size, List.range'_succ]
  | binary op l r ihl ihr =>
    rw [parts, List.map_cons, List.map_append, ihl, ihr, Formula.size, List.range'_succ,
      List.range'_append_1]

/-- The numbers of the parts start at `next`, as many as there are nodes. -/
theorem number_bounds {f : Formula} {next : Nat} {part : Nat × Formula}
    (h : part ∈ parts next f) : next ≤ part.1 ∧ part.1 < next + f.size := by
  have hNumber : part.1 ∈ (parts next f).map (·.1) := List.mem_map_of_mem h
  rw [numbers_parts, List.mem_range'_1] at hNumber
  exact hNumber

theorem self_mem_parts (f : Formula) (next : Nat) : (next, f) ∈ parts next f := by
  cases f <;> simp [parts]

/-- The parts of a part lie side by side. -/
theorem parts_within {f : Formula} {next : Nat} {part : Nat × Formula}
    (h : part ∈ parts next f) : parts part.1 part.2 <:+: parts next f := by
  induction f generalizing next with
  | hole => rw [parts, List.mem_singleton] at h; rw [h]
  | constant b => rw [parts, List.mem_singleton] at h; rw [h]
  | var n => rw [parts, List.mem_singleton] at h; rw [h]
  | not a ih =>
    rw [parts] at h
    rcases List.mem_cons.mp h with rfl | h
    · exact List.infix_rfl
    · exact (ih h).trans (List.infix_cons List.infix_rfl)
  | binary op l r ihl ihr =>
    rw [parts] at h
    rcases List.mem_cons.mp h with rfl | h
    · exact List.infix_rfl
    · rw [parts]
      rcases List.mem_append.mp h with h | h
      · exact (ihl h).trans (List.infix_cons (List.prefix_append _ _).isInfix)
      · exact (ihr h).trans (List.infix_cons (List.suffix_append _ _).isInfix)

/-- The operands of a part are parts. -/
theorem operand_mem_parts {f : Formula} {next : Nat} {part operand : Nat × Formula}
    (h : part ∈ parts next f) (hOperand : operand ∈ operands part.1 part.2) :
    operand ∈ parts next f := by
  refine (parts_within h).subset ?_
  obtain ⟨k, g⟩ := part
  cases g with
  | not a =>
    rw [operands, List.mem_singleton] at hOperand
    rw [hOperand, parts]
    exact List.mem_cons_of_mem _ (self_mem_parts a (k + 1))
  | binary op l r =>
    simp only [operands, List.mem_cons, List.not_mem_nil, or_false] at hOperand
    rw [parts]
    refine List.mem_cons_of_mem _ (List.mem_append.mpr ?_)
    rcases hOperand with rfl | rfl
    · exact .inl (self_mem_parts l _)
    · exact .inr (self_mem_parts r _)
  | _ => cases hOperand

-- ---------------------------------------------------------------------------
-- What is drawn
-- ---------------------------------------------------------------------------

/-- The statements for a formula, by its shape. -/
def drawn (next : Nat) : Formula → List Statement
  | .hole => []
  | .constant b => [.node next (.constant b)]
  | .var n => [.node next (.var n)]
  | .not a => .node next .not :: drawn (next + 1) a ++ [.edge next (next + 1) .only]
  | .binary op l r =>
    .node next (.binary op) :: drawn (next + 1) l ++ [.edge next (next + 1) .left] ++
      drawn (next + 1 + l.size) r ++ [.edge next (next + 1 + l.size) .right]

/-- Drawing succeeds on a formula without holes that there is room for, and uses
one number for each of its nodes. -/
theorem statements_eq {f : Formula} (hf : f.Complete) {room : Nat} (hRoom : f.depth ≤ room)
    (next : Nat) : statements room next f = .ok (drawn next f, next + f.size) := by
  induction f generalizing room next with
  | hole => exact absurd hf id
  | constant b =>
    obtain ⟨room, rfl⟩ := Nat.exists_eq_add_of_le' hRoom
    rfl
  | var n =>
    obtain ⟨room, rfl⟩ := Nat.exists_eq_add_of_le' hRoom
    rfl
  | not a ih =>
    cases room with
    | zero => cases hRoom
    | succ room =>
      rw [statements, ih hf (Nat.le_of_succ_le_succ hRoom), ok_bind]
      simp only [drawn, Formula.size]
      congr 2
      omega
  | binary op l r ihl ihr =>
    cases room with
    | zero => cases hRoom
    | succ room =>
      obtain ⟨hLeft, hRight⟩ := Nat.max_le.mp (Nat.le_of_succ_le_succ hRoom)
      rw [statements, ihl hf.1 hLeft, ok_bind]
      dsimp only
      rw [ihr hf.2 hRight, ok_bind]
      simp only [drawn, Formula.size]
      congr 2
      omega

/-- Drawing fails on a formula that there is no room for. -/
theorem statements_of_deep {f : Formula} (hf : f.Complete) {room : Nat} (hRoom : room < f.depth)
    (next : Nat) : statements room next f = .error .tooDeep := by
  induction f generalizing room next with
  | hole => exact absurd hf id
  | constant b =>
    obtain rfl : room = 0 := Nat.lt_one_iff.mp hRoom
    rfl
  | var n =>
    obtain rfl : room = 0 := Nat.lt_one_iff.mp hRoom
    rfl
  | not a ih =>
    cases room with
    | zero => rfl
    | succ room =>
      rw [statements, ih hf (Nat.lt_of_succ_lt_succ hRoom)]
      rfl
  | binary op l r ihl ihr =>
    cases room with
    | zero => rfl
    | succ room =>
      rw [statements]
      by_cases hLeft : room < l.depth
      · rw [ihl hf.1 hLeft]
        rfl
      · -- the left operand is drawn, so it is the right one that is too deep
        have hRight : room < r.depth := by
          rw [Formula.depth] at hRoom
          omega
        rw [statements_eq hf.1 (Nat.le_of_not_lt hLeft), ok_bind]
        dsimp only
        rw [ihr hf.2 hRight]
        rfl

/-- The nodes drawn are those of the parts, in the order of their numbers. -/
theorem nodes_drawn {f : Formula} (hf : f.Complete) (next : Nat) :
    (nodes (drawn next f)).map (fun node => (node.1, some node.2)) =
      (parts next f).map fun part => (part.1, mark? part.2) := by
  induction f generalizing next with
  | hole => exact absurd hf id
  | constant b => rfl
  | var n => rfl
  | not a ih => simp [drawn, parts, List.filterMap_cons, mark?, ih hf]
  | binary op l r ihl ihr => simp [drawn, parts, List.filterMap_cons, mark?, ihl hf.1, ihr hf.2]

theorem size_pos (f : Formula) : 0 < f.size := by
  cases f <;> simp [Formula.size]

/-- Every edge leads forward, between numbers that the drawing uses. -/
theorem link_bounds {f : Formula} {next : Nat} {e : Link} (h : e ∈ links (drawn next f)) :
    next ≤ e.source ∧ e.source < e.target ∧ e.target < next + f.size := by
  induction f generalizing next with
  | hole => cases h
  | constant b => cases h
  | var n => cases h
  | not a ih =>
    have hSize := size_pos a
    simp only [drawn, List.filterMap_cons, Statement.link?, List.filterMap_nil, List.cons_append,
      List.filterMap_append, List.mem_append, List.mem_cons,
      List.not_mem_nil, or_false] at h
    rw [Formula.size]
    rcases h with h | rfl
    · have hBounds := ih h
      omega
    · simp only
      omega
  | binary op l r ihl ihr =>
    have hLeft := size_pos l
    have hRight := size_pos r
    simp only [drawn, List.filterMap_cons, Statement.link?, List.filterMap_nil, List.cons_append,
      List.filterMap_append, List.mem_append, List.mem_cons,
      List.not_mem_nil, or_false] at h
    rw [Formula.size]
    rcases h with ((h | rfl) | h) | rfl
    · have hBounds := ihl h
      omega
    · simp only
      omega
    · have hBounds := ihr h
      omega
    · simp only
      omega

/-- There is one edge less than there are nodes. -/
theorem length_links (f : Formula) (hf : f.Complete) (next : Nat) :
    (links (drawn next f)).length + 1 = f.size := by
  induction f generalizing next with
  | hole => exact absurd hf id
  | constant b => rfl
  | var n => rfl
  | not a ih =>
    have hBelow : ((drawn (next + 1) a).filterMap Statement.link?).length + 1 = a.size :=
      ih hf (next + 1)
    simp only [drawn, List.filterMap_cons, Statement.link?, List.filterMap_nil, List.cons_append,
      List.filterMap_append, List.length_append, List.length_cons,
      List.length_nil, Formula.size]
    omega
  | binary op l r ihl ihr =>
    have hLeft : ((drawn (next + 1) l).filterMap Statement.link?).length + 1 = l.size :=
      ihl hf.1 (next + 1)
    have hRight : ((drawn (next + 1 + l.size) r).filterMap Statement.link?).length + 1 = r.size :=
      ihr hf.2 (next + 1 + l.size)
    simp only [drawn, List.filterMap_cons, Statement.link?, List.filterMap_nil, List.cons_append,
      List.filterMap_append, List.length_append, List.length_cons,
      List.length_nil, Formula.size]
    omega

/-- Every number but the first is that of one edge's target. -/
theorem count_target {f : Formula} (hf : f.Complete) (next k : Nat) :
    (links (drawn next f)).countP (·.target = k) =
      if next < k ∧ k < next + f.size then 1 else 0 := by
  induction f generalizing next with
  | hole => exact absurd hf id
  | constant b =>
    rw [if_neg (by simp only [Formula.size]; omega)]
    rfl
  | var n =>
    rw [if_neg (by simp only [Formula.size]; omega)]
    rfl
  | not a ih =>
    have hSize := size_pos a
    simp only [drawn, List.filterMap_cons, Statement.link?, List.filterMap_nil, List.cons_append,
      List.filterMap_append, List.countP_append, ih hf,
      List.countP_cons, List.countP_nil, Formula.size, decide_eq_true_eq]
    grind
  | binary op l r ihl ihr =>
    have hLeft := size_pos l
    have hRight := size_pos r
    simp only [drawn, List.filterMap_cons, Statement.link?, List.filterMap_nil, List.cons_append,
      List.filterMap_append, List.countP_append, ihl hf.1,
      ihr hf.2, List.countP_cons, List.countP_nil, Formula.size, decide_eq_true_eq]
    grind

/-- No edge starts at a number that is none of the parts. -/
theorem filter_source_eq_nil {f : Formula} {next k : Nat} (h : k < next ∨ next + f.size ≤ k) :
    (links (drawn next f)).filter (·.source = k) = [] := by
  rw [List.filter_eq_nil_iff]
  intro e he hSource
  have hBounds := link_bounds he
  rw [decide_eq_true_eq] at hSource
  omega

/-- The edges that start at a part lead to its operands. -/
theorem filter_source {f : Formula} {next : Nat} {part : Nat × Formula}
    (h : part ∈ parts next f) :
    (links (drawn next f)).filter (·.source = part.1) = branches part.1 part.2 := by
  induction f generalizing next with
  | hole => rw [parts, List.mem_singleton] at h; rw [h]; rfl
  | constant b => rw [parts, List.mem_singleton] at h; rw [h]; rfl
  | var n => rw [parts, List.mem_singleton] at h; rw [h]; rfl
  | not a ih =>
    simp only [drawn, List.filterMap_cons, Statement.link?, List.filterMap_nil, List.cons_append,
      List.filterMap_append, List.filter_append]
    rcases List.mem_cons.mp h with rfl | h
    · rw [filter_source_eq_nil (.inl (by simp))]
      simp [branches]
    · have hBounds := number_bounds h
      rw [ih h, List.filter_cons_of_neg (by simp; omega)]
      simp
  | binary op l r ihl ihr =>
    simp only [drawn, List.filterMap_cons, Statement.link?, List.filterMap_nil, List.cons_append,
      List.filterMap_append, List.filter_append]
    rcases List.mem_cons.mp h with rfl | h
    · rw [filter_source_eq_nil (.inl (by simp)),
        filter_source_eq_nil (f := r) (.inl (by simp; omega))]
      simp [branches]
    · rcases List.mem_append.mp h with h | h
      · have hBounds := number_bounds h
        rw [ihl h, filter_source_eq_nil (f := r) (.inl (by omega)),
          List.filter_cons_of_neg (by simp; omega), List.filter_cons_of_neg (by simp; omega)]
        simp
      · have hBounds := number_bounds h
        rw [ihr h, filter_source_eq_nil (f := l) (.inr (by omega)),
          List.filter_cons_of_neg (by simp; omega), List.filter_cons_of_neg (by simp; omega)]
        simp

/-- The statements show the formula: a node for each part, numbered in preorder
from 0, and an edge from each part to each of its operands. -/
structure Depicts (body : List Statement) (f : Formula) : Prop where
  /-- The nodes are those of the parts, in the order of the numbers. -/
  marks : (nodes body).map (fun node => (node.1, some node.2)) =
    (parts 0 f).map fun part => (part.1, mark? part.2)
  numbers : (nodes body).map (·.1) = List.range f.size
  count_links : (links body).length + 1 = f.size
  /-- Every node but the first is the target of one edge. -/
  one_parent : ∀ k, (links body).countP (·.target = k) = if 0 < k ∧ k < f.size then 1 else 0
  forward : ∀ e ∈ links body, e.source < e.target
  /-- A negation has one edge without label, and a connective one edge to each
  side. -/
  outgoing : ∀ part ∈ parts 0 f,
    (links body).filter (·.source = part.1) = branches part.1 part.2
  /-- The edges lead to the operands. -/
  reached : ∀ part ∈ parts 0 f, (branches part.1 part.2).map (·.target) =
    (operands part.1 part.2).map (·.1) ∧ ∀ a ∈ operands part.1 part.2, a ∈ parts 0 f
  /-- The parts of a part have numbers without a gap. -/
  contiguous : ∀ part ∈ parts 0 f, parts part.1 part.2 <:+: parts 0 f ∧
    (parts part.1 part.2).map (·.1) = List.range' part.1 part.2.size

/-- What is drawn for a complete formula shows it. -/
theorem depicts_drawn {f : Formula} (hf : f.Complete) : Depicts (drawn 0 f) f where
  marks := nodes_drawn hf 0
  numbers := by
    have hMarks := congrArg (List.map (·.1)) (nodes_drawn hf 0)
    simp only [List.map_map, Function.comp_def] at hMarks
    rw [hMarks, numbers_parts, List.range_eq_range']
  count_links := length_links f hf 0
  one_parent := by
    intro k
    simpa using count_target hf 0 k
  forward := fun e he => (link_bounds he).2.1
  outgoing := fun part hPart => filter_source hPart
  reached := by
    intro part hPart
    refine ⟨?_, fun a ha => operand_mem_parts hPart ha⟩
    cases part.2 <;> rfl
  contiguous := fun part hPart => ⟨parts_within hPart, numbers_parts part.2 part.1⟩

-- ---------------------------------------------------------------------------
-- Reading the formula off the nodes
-- ---------------------------------------------------------------------------

/-- Puts a node above the formulas that were read after it. -/
def assemble : Mark → List Formula → List Formula
  | .constant b, read => .constant b :: read
  | .var n, read => .var n :: read
  | .not, a :: read => .not a :: read
  | .binary op, l :: r :: read => .binary op l r :: read
  | _, read => read

/-- The formula whose nodes in preorder are the given ones, read from the end. -/
def decode (body : List Statement) : Option Formula :=
  (((nodes body).map (·.2)).foldr assemble []).head?

/-- The nodes that were drawn for a formula are put together to the formula. -/
theorem foldr_assemble {f : Formula} (hf : f.Complete) (next : Nat) (read : List Formula) :
    ((nodes (drawn next f)).map (·.2)).foldr assemble read = f :: read := by
  induction f generalizing next read with
  | hole => exact absurd hf id
  | constant b => rfl
  | var n => rfl
  | not a ih => simp [drawn, List.filterMap_cons, ih hf, assemble]
  | binary op l r ihl ihr => simp [drawn, List.filterMap_cons, ihl hf.1, ihr hf.2, assemble]

/-- A formula can be read off what is drawn for it. -/
theorem decode_drawn {f : Formula} (hf : f.Complete) : decode (drawn 0 f) = some f := by
  rw [decode, foldr_assemble hf 0 []]
  rfl

-- ---------------------------------------------------------------------------
-- Reading the statements off the text
-- ---------------------------------------------------------------------------

/-- A label without quotes is a word, and one with quotes starts with a quote. -/
theorem label_inj {n m : Name} (h : label n.text = label m.text) : n = m := by
  have hQuote : ∀ k k' : Name, k.text ≠ "\"" ++ k'.text ++ "\"" := by
    intro k k' hEq
    have hFirst : '"' ∈ k.text.toList := by simp [hEq]
    exact absurd (Name.isAlphanum_of_mem hFirst) (by decide)
  unfold label at h
  split at h
  · split at h
    · simp only [String.append_left_inj, String.append_right_inj] at h
      exact Name.text_inj h
    · exact absurd h.symm (hQuote m n)
  · split at h
    · exact absurd h (hQuote n m)
    · exact Name.text_inj h

/-- The label of a node as the text shows it. -/
def Mark.shown : Mark → String
  | .constant b => label (Value.ofBool b)
  | .var n => label n.text
  | .not => "not"
  | .binary op => op.word

/-- A node without its name. -/
inductive Kind where
  | constant (value : Bool)
  | var
  | not
  | binary (op : Operator)
  deriving DecidableEq

def Mark.kind : Mark → Kind
  | .constant b => .constant b
  | .var _ => .var
  | .not => .not
  | .binary op => .binary op

/-- The attributes of a node besides its label. -/
def Kind.look : Kind → String
  | .constant true => "fillcolor=palegreen shape=box style=filled"
  | .constant false => "fillcolor=lightcoral shape=box style=filled"
  | .var => "shape=ellipse"
  | .not => "fillcolor=lightpink shape=circle style=filled"
  | .binary .and => "fillcolor=lightskyblue shape=circle style=filled"
  | .binary .or => "fillcolor=lightgoldenrodyellow shape=circle style=filled"

/-- Nodes of different kinds look different. -/
theorem Kind.look_inj (k k' : Kind) : k.look = k'.look → k = k' := by
  rcases k with (_ | _) | _ | _ | (_ | _) <;> rcases k' with (_ | _) | _ | _ | (_ | _) <;>
    simp [look]

theorem Mark.toList_attributes (mark : Mark) :
    mark.attributes.toList =
      "label=".toList ++ (mark.shown.toList ++ ' ' :: mark.kind.look.toList) := by
  cases mark with
  | constant b => cases b <;> simp [attributes, shown, kind, Kind.look]
  | var n => simp [attributes, shown, kind, Kind.look]
  | not => simp [attributes, shown, kind, Kind.look]
  | binary op => cases op <;> simp [attributes, shown, kind, Kind.look, Operator.word]

/-- No label has a space in it. -/
theorem ne_blank_of_mem_shown {mark : Mark} {c : Char} (hc : c ∈ mark.shown.toList) : c ≠ ' ' := by
  have hLabel : ∀ s : String, ' ' ∉ s.toList → ' ' ∉ (label s).toList := by
    intro s hs
    unfold label
    split
    · simpa using hs
    · exact hs
  rintro rfl
  cases mark with
  | constant b => exact hLabel _ (by cases b <;> decide) hc
  | var n => exact hLabel _ (fun h => absurd (Name.isAlphanum_of_mem h) (by decide)) hc
  | not => exact absurd hc (by decide)
  | binary op => cases op <;> exact absurd hc (by decide)

/-- The attributes besides the label tell the kind of a node, and with it which
labels are names. -/
theorem Mark.attributes_inj {m m' : Mark} (h : m.attributes = m'.attributes) : m = m' := by
  have hChars := congrArg String.toList h
  rw [toList_attributes, toList_attributes] at hChars
  obtain ⟨hShown, hLook⟩ := cut_unique (p := (· ≠ ' ')) (fun _ hc => ne_blank_of_mem_shown hc)
    (fun _ hc => ne_blank_of_mem_shown hc) (by simp) (by simp) (List.append_cancel_left hChars)
  rw [String.toList_inj] at hShown
  rw [List.cons.injEq, String.toList_inj] at hLook
  have hKind := Kind.look_inj _ _ hLook.2
  cases m with
  | constant b =>
    cases m' with
    | constant b' => cases hKind; rfl
    | _ => cases hKind
  | var n =>
    cases m' with
    | var n' => rw [label_inj hShown]
    | _ => cases hKind
  | not =>
    cases m' with
    | not => rfl
    | _ => cases hKind
  | binary op =>
    cases m' with
    | binary op' => cases hKind; rfl
    | _ => cases hKind

/-- The number of the target ends before the attributes of an edge. -/
theorem Edge.toList_attributes_stop (side : Edge) :
    ∀ c ∈ side.attributes.toList.head?, ¬ c.isDigit = true := by
  cases side <;> simp [Edge.attributes]

/-- Edges on different sides look different. -/
theorem Edge.attributes_inj {side side' : Edge} : side.attributes = side'.attributes →
    side = side' := by
  cases side <;> cases side' <;> simp [attributes]

/-- The line of a statement without the line feed. -/
def Statement.words : Statement → String
  | .node id mark => "\tn" ++ toString id ++ " [" ++ mark.attributes ++ "]"
  | .edge source target side =>
    "\tn" ++ toString source ++ " -> n" ++ toString target ++ side.attributes

/-- The line of a statement ends in a line feed. -/
theorem Statement.line_eq (s : Statement) : s.line = s.words ++ "\n" := by
  rw [← String.toList_inj]
  cases s <;> simp [line, words, identifier]

theorem Statement.toList_node (id : Nat) (mark : Mark) :
    (Statement.node id mark).words.toList =
      '\t' :: 'n' :: ((toString id).toList ++ ' ' :: '[' :: (mark.attributes.toList ++ [']'])) := by
  simp [words]

theorem Statement.toList_edge (source target : Nat) (side : Edge) :
    (Statement.edge source target side).words.toList =
      '\t' :: 'n' :: ((toString source).toList ++ ' ' :: '-' :: '>' :: ' ' :: 'n' ::
        ((toString target).toList ++ side.attributes.toList)) := by
  simp [words]

/-- A line ends its number at a blank, and then tells nodes from edges. -/
theorem Statement.words_inj {s s' : Statement} (h : s.words = s'.words) : s = s' := by
  have hChars := congrArg String.toList h
  have hBlank : ∀ rest : List Char, ∀ c ∈ (' ' :: rest).head?, ¬ c.isDigit = true := by
    simp
  cases s with
  | node id mark =>
    cases s' with
    | node id' mark' =>
      simp only [toList_node, List.cons.injEq, true_and] at hChars
      obtain ⟨rfl, hRest⟩ := number_unique (hBlank _) (hBlank _) hChars
      simp only [List.cons.injEq, true_and, List.append_cancel_right_eq] at hRest
      rw [Mark.attributes_inj (String.toList_inj.mp hRest)]
    | edge source target side =>
      simp only [toList_node, toList_edge, List.cons.injEq, true_and] at hChars
      obtain ⟨-, hRest⟩ := number_unique (hBlank _) (hBlank _) hChars
      exact absurd (List.cons.inj (List.cons.inj hRest).2).1 (by decide)
  | edge source target side =>
    cases s' with
    | node id' mark' =>
      simp only [toList_node, toList_edge, List.cons.injEq, true_and] at hChars
      obtain ⟨-, hRest⟩ := number_unique (hBlank _) (hBlank _) hChars
      exact absurd (List.cons.inj (List.cons.inj hRest).2).1 (by decide)
    | edge source' target' side' =>
      simp only [toList_edge, List.cons.injEq, true_and] at hChars
      obtain ⟨rfl, hRest⟩ := number_unique (hBlank _) (hBlank _) hChars
      simp only [List.cons.injEq, true_and] at hRest
      obtain ⟨rfl, hSide⟩ := number_unique (Edge.toList_attributes_stop side)
        (Edge.toList_attributes_stop side') hRest
      rw [Edge.attributes_inj (String.toList_inj.mp hSide)]

theorem oneLine_toString (n : Nat) : OneLine (toString n) := by
  intro h
  exact absurd (isDigit_of_mem_toString h) (by decide)

/-- The attributes of a node stand on one line. -/
theorem oneLine_attributes (mark : Mark) : OneLine mark.attributes := by
  have hLabel : ∀ s : String, OneLine s → OneLine (label s) := by
    intro s hs
    unfold label
    split
    · exact (OneLine.append (by decide) hs).append (by decide)
    · exact hs
  cases mark with
  | constant b =>
    have hLooks := hLabel _ (oneLine_ofBool b)
    refine (((OneLine.append (by decide) hLooks).append (by decide)).append ?_).append (by decide)
    cases b <;> decide
  | var n => exact (OneLine.append (by decide) (hLabel _ n.oneLine)).append (by decide)
  | not => decide
  | binary op => cases op <;> decide

/-- A statement stands on one line. -/
theorem Statement.oneLine_words (s : Statement) : OneLine s.words := by
  cases s with
  | node id mark =>
    exact (((OneLine.append (by decide) (oneLine_toString id)).append (by decide)).append
      (oneLine_attributes mark)).append (by decide)
  | edge source target side =>
    refine (((OneLine.append (by decide) (oneLine_toString source)).append (by decide)).append
      (oneLine_toString target)).append ?_
    cases side <;> decide

/-- The text of a graph from its second line on. -/
def uncommented (source : String) : List Char :=
  (source.toList.dropWhile (· ≠ '\n')).drop 1

/-- The lines of a graph after its comment. -/
def bodyLines (body : List Statement) : List String :=
  ["digraph \x7b", "\tnodesep=0.4 rankdir=TB ranksep=0.5"] ++ body.map Statement.words ++ ["\x7d"]

/-- The text of a graph: the comment, and then the lines of the graph. -/
theorem toList_text (comment : String) (body : List Statement) :
    (text comment body).toList = ("// " ++ comment).toList ++ '\n' :: ended (bodyLines body) := by
  have hBody : String.join (body.map Statement.line) =
      String.join ((body.map Statement.words).map (· ++ "\n")) := by
    rw [List.map_map]
    congr 2
    funext s
    exact s.line_eq
  simp only [text, hBody, String.toList_append, toList_join_ended]
  simp [bodyLines, ended]

/-- A comment on one line is left out with its line feed. -/
theorem uncommented_text {comment : String} (h : OneLine comment) (body : List Statement) :
    uncommented (text comment body) = ended (bodyLines body) := by
  have hComment : ∀ c ∈ ("// " ++ comment).toList, decide (c ≠ '\n') = true := by
    rintro c hc
    rw [decide_eq_true_eq]
    rintro rfl
    exact OneLine.append (by decide) h hc
  rw [uncommented, toList_text, List.dropWhile_append_of_pos hComment]
  simp

/-- The text after the comment determines the statements. -/
theorem body_unique {comment comment' : String} (h : OneLine comment) (h' : OneLine comment')
    {body body' : List Statement}
    (hEq : uncommented (text comment body) = uncommented (text comment' body')) :
    body = body' := by
  have hLines : ∀ b : List Statement, ∀ s ∈ bodyLines b, OneLine s := by
    intro b s hs
    simp only [bodyLines, List.mem_append, List.mem_cons, List.not_mem_nil, or_false] at hs
    rcases hs with ((rfl | rfl) | hs) | rfl
    · decide
    · decide
    · obtain ⟨t, -, rfl⟩ := List.mem_map.mp hs
      exact t.oneLine_words
    · decide
  rw [uncommented_text h, uncommented_text h'] at hEq
  have hBody := ended_inj (hLines body) (hLines body') hEq
  rw [bodyLines, bodyLines] at hBody
  have hWords := List.append_cancel_left (List.append_cancel_right hBody)
  exact List.map_injective_iff.mpr (fun _ _ => Statement.words_inj) hWords

-- ---------------------------------------------------------------------------
-- Drawings
-- ---------------------------------------------------------------------------

/-- The drawing of a formula that there is room for. -/
theorem draw_eq {f : Formula} (hf : f.Complete) {room : Nat} (hRoom : f.depth ≤ room) {v : Value}
    {format : String} (h : format? v = .ok format) :
    draw room (.formula f) v =
      .ok ⟨text ("Expression tree for " ++ f.text) (drawn 0 f), format⟩ := by
  have hShown : commentText (.formula f) = .ok f.text := Formula.render_complete hf
  have hOwner : (Argument.formula f).owner "accept" = .ok f := rfl
  rw [draw, hShown, ok_bind, h, ok_bind, hOwner, ok_bind, statements_eq hf hRoom, ok_bind]
  rfl

/-- A formula that there is no room for is not drawn. -/
theorem draw_of_deep {f : Formula} (hf : f.Complete) {room : Nat} (hRoom : room < f.depth)
    {v : Value} {format : String} (h : format? v = .ok format) :
    draw room (.formula f) v = .error .tooDeep := by
  have hShown : commentText (.formula f) = .ok f.text := Formula.render_complete hf
  have hOwner : (Argument.formula f).owner "accept" = .ok f := rfl
  rw [draw, hShown, ok_bind, h, ok_bind, hOwner, ok_bind, statements_of_deep hf hRoom]
  rfl

/-- Whatever is drawn of a formula, the text is the same. -/
theorem source_of_draw {f : Formula} (hf : f.Complete) {room : Nat} {v : Value} {d : Drawing}
    (h : draw room (.formula f) v = .ok d) :
    d.source = text ("Expression tree for " ++ f.text) (drawn 0 f) := by
  cases hFormat : format? v with
  | error fault =>
    have hShown : commentText (.formula f) = .ok f.text := Formula.render_complete hf
    rw [draw, hShown, ok_bind, hFormat] at h
    cases h
  | ok format =>
    rcases Nat.lt_or_ge room f.depth with hDeep | hRoom
    · rw [draw_of_deep hf hDeep hFormat] at h
      cases h
    · rw [draw_eq hf hRoom hFormat, Except.ok.injEq] at h
      rw [← h]

/-- The comment shows the formula on one line. -/
theorem oneLine_comment (f : Formula) : OneLine ("Expression tree for " ++ f.text) :=
  OneLine.append (by decide) f.oneLine_text

/--
**A drawing shows the tree and nothing else, where there is room to draw it.** In
any format that there is, a formula without holes is drawn exactly when it has
no more levels than there is room for, and fails for want of room otherwise. The
text of the drawing is a comment on one line and the lines of statements that
depict the formula, and no other statements have this text. Without the comment
the text still determines the formula, whatever the names of its variables are.
-/
theorem drawing_shows_tree (f : Formula) (v : Value) (format : String) (room : Nat)
    (hf : f.Complete) (hFormat : format? v = .ok format) :
    ((∃ d, draw room (.formula f) v = .ok d) ↔ f.depth ≤ room) ∧
    (room < f.depth → draw room (.formula f) v = .error .tooDeep) ∧
    (f.depth ≤ room → ∃ comment body,
      draw room (.formula f) v = .ok ⟨text comment body, format⟩ ∧ OneLine comment ∧
        Depicts body f ∧ decode body = some f ∧
        ∀ comment' body', OneLine comment' →
          uncommented (text comment' body') = uncommented (text comment body) → body' = body) ∧
    ∀ (g : Formula) (w : Value) (room' : Nat) (d e : Drawing), g.Complete →
      draw room (.formula f) v = .ok d → draw room' (.formula g) w = .ok e →
      uncommented d.source = uncommented e.source → f = g := by
  refine ⟨⟨?_, fun hRoom => ⟨_, draw_eq hf hRoom hFormat⟩⟩,
    fun hRoom => draw_of_deep hf hRoom hFormat, ?_, ?_⟩
  · rintro ⟨d, hDraw⟩
    by_contra hRoom
    rw [draw_of_deep hf (Nat.lt_of_not_le hRoom) hFormat] at hDraw
    cases hDraw
  · intro hRoom
    refine ⟨_, _, draw_eq hf hRoom hFormat, oneLine_comment f, depicts_drawn hf, decode_drawn hf,
      ?_⟩
    intro comment' body' hComment hEq
    exact body_unique hComment (oneLine_comment f) hEq
  · intro g w room' d e hg hDraw hDraw' hEq
    rw [source_of_draw hf hDraw, source_of_draw hg hDraw'] at hEq
    have hBody := body_unique (oneLine_comment f) (oneLine_comment g) hEq
    have hDecoded := decode_drawn hf
    rw [hBody, decode_drawn hg, Option.some.injEq] at hDecoded
    exact hDecoded.symm

/-- The constant and the variable `True` have the same comment, and drawings
that differ after it. -/
theorem drawing_shows_tree_sample :
    let f : Formula := .constant true
    let g : Formula := .var ⟨"True", rfl⟩
    f.Complete ∧ g.Complete ∧ format? (.text "png") = .ok "png" ∧ ∃ d e,
      draw usualRoom (.formula f) (.text "png") = .ok d ∧
      draw usualRoom (.formula g) (.text "png") = .ok e ∧
      uncommented d.source ≠ uncommented e.source := by
  intro f g
  have hFormat : format? (.text "png") = .ok "png" := rfl
  obtain ⟨-, -, hDrawn, hUnique⟩ := drawing_shows_tree f _ _ usualRoom trivial hFormat
  obtain ⟨-, -, hDrawn', -⟩ := drawing_shows_tree g _ _ usualRoom trivial hFormat
  obtain ⟨_, _, hDraw, -⟩ := hDrawn (by decide)
  obtain ⟨_, _, hDraw', -⟩ := hDrawn' (by decide)
  refine ⟨trivial, trivial, hFormat, _, _, hDraw, hDraw', ?_⟩
  intro hEq
  exact absurd (hUnique g _ _ _ _ trivial hDraw hDraw' hEq) (by simp [f, g])

-- ---------------------------------------------------------------------------
-- Formulas that are too deep
-- ---------------------------------------------------------------------------

/-- There is no room for as many negations as levels, whatever stands under them. -/
theorem draw_deepen {f : Formula} (hf : f.Complete) {room n : Nat} (hRoom : room ≤ n) {v : Value}
    {format : String} (h : format? v = .ok format) :
    draw room (.formula (.deepen n f)) v = .error .tooDeep := by
  have hDepth := f.depth_pos
  refine draw_of_deep (Formula.complete_deepen hf n) ?_ h
  rw [Formula.depth_deepen]
  omega

/-- A variable under six hundred negations has no hole and is not drawn, although
the format is one that there is. -/
theorem deep_formula_not_drawn :
    (Formula.deepen 600 (.var ⟨"p", rfl⟩)).Complete ∧ format? (.text "png") = .ok "png" ∧
      draw usualRoom (.formula (.deepen 600 (.var ⟨"p", rfl⟩))) (.text "png") =
        .error .tooDeep ∧
      ¬ ∃ d, draw usualRoom (.formula (.deepen 600 (.var ⟨"p", rfl⟩))) (.text "png") =
        .ok d := by
  have hDeep : ∀ n, usualRoom ≤ n → (Formula.deepen n (.var ⟨"p", rfl⟩)).Complete ∧
      format? (.text "png") = .ok "png" ∧
      draw usualRoom (.formula (.deepen n (.var ⟨"p", rfl⟩))) (.text "png") = .error .tooDeep ∧
      ¬ ∃ d, draw usualRoom (.formula (.deepen n (.var ⟨"p", rfl⟩))) (.text "png") = .ok d := by
    intro n hRoom
    have hVariable : (Formula.var ⟨"p", rfl⟩).Complete := trivial
    have hDraw := draw_deepen hVariable hRoom (v := .text "png") rfl
    refine ⟨Formula.complete_deepen hVariable n, rfl, hDraw, ?_⟩
    rintro ⟨d, hOk⟩
    rw [hDraw] at hOk
    cases hOk
  exact hDeep 600 (by decide)

end Graph

end TruthTable
