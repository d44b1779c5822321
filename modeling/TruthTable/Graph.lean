import TruthTable.Formula.Text
import TruthTable.Argument
import TruthTable.Text.LowerCase

/-!
# Drawings of formulas

The tree of a formula as a directed graph in the DOT language. Nodes are numbered from 0 in
preorder; a part that occurs twice is drawn twice, so the picture is always a tree. The edge to an
operand comes after everything that is drawn for the operand. A formula that is nested too deeply
for the nested calls that draw it is not drawn.
-/

namespace TruthTable

namespace Graph

/-- What a node shows. -/
inductive Mark where
  | constant (value : Bool)
  | var (name : Name)
  | not
  | binary (op : Operator)

/-- The side of the operand that an edge leads to, where there are two. -/
inductive Edge where
  | only
  | left
  | right

/-- A statement of the graph. -/
inductive Statement where
  | node (id : Nat) (mark : Mark)
  | edge (source target : Nat) (side : Edge)

/-- How many levels of a formula can be drawn by a program that has hardly begun to call functions:
each level takes two nested calls, of which a thousand are possible. -/
def usualRoom : Nat := 490

/-- The statements for a formula whose root gets the number `next`, and the first number that is
not used. The nodes are drawn by nested calls, for which there is room on so many levels. -/
def statements : Nat → Nat → Formula → Except Fault (List Statement × Nat)
  | _, _, .hole => .error .hole
  | 0, _, _ => .error .tooDeep
  | _ + 1, next, .constant b => .ok ([.node next (.constant b)], next + 1)
  | _ + 1, next, .var n => .ok ([.node next (.var n)], next + 1)
  | room + 1, next, .not a => do
    let (below, after) ← statements room (next + 1) a
    return (.node next .not :: below ++ [.edge next (next + 1) .only], after)
  | room + 1, next, .binary op l r => do
    let (belowLeft, middle) ← statements room (next + 1) l
    let (belowRight, after) ← statements room middle r
    return (.node next (.binary op) :: belowLeft ++ [.edge next (next + 1) .left] ++
      belowRight ++ [.edge next middle .right], after)

/-! ## The text of a graph -/

/-- The words of the DOT language, which a label may not be without quotes. -/
def reserved : List String :=
  ["node", "edge", "graph", "digraph", "subgraph", "strict"]

/-- A label, in double quotes where it is a word of the DOT language in any case. -/
def label (s : String) : String :=
  if reserved.contains (Text.lower s) then "\"" ++ s ++ "\"" else s

/-- The attributes of a node, the label first and the others by name. -/
def Mark.attributes : Mark → String
  | .constant b =>
    "label=" ++ label (Value.ofBool b) ++ " fillcolor=" ++
      (if b then "palegreen" else "lightcoral") ++ " shape=box style=filled"
  | .var n => "label=" ++ label n.text ++ " shape=ellipse"
  | .not => "label=not fillcolor=lightpink shape=circle style=filled"
  | .binary .and => "label=and fillcolor=lightskyblue shape=circle style=filled"
  | .binary .or => "label=or fillcolor=lightgoldenrodyellow shape=circle style=filled"

/-- The attributes of an edge. -/
def Edge.attributes : Edge → String
  | .only => ""
  | .left => " [label=L]"
  | .right => " [label=R]"

/-- The identifier of a node. -/
def identifier (id : Nat) : String :=
  "n" ++ toString id

/-- The line of a statement. -/
def Statement.line : Statement → String
  | .node id mark => "\t" ++ identifier id ++ " [" ++ mark.attributes ++ "]\n"
  | .edge source target side =>
    "\t" ++ identifier source ++ " -> " ++ identifier target ++ side.attributes ++ "\n"

/-- The text of a graph with a comment. -/
def text (comment : String) (body : List Statement) : String :=
  "// " ++ comment ++ "\ndigraph \x7b\n\tnodesep=0.4 rankdir=TB ranksep=0.5\n" ++
    String.join (body.map Statement.line) ++ "\x7d\n"

/-! ## Formats -/

/-- The formats that a drawing can be made in. -/
def formats : List String :=
  ["bmp", "canon", "cgimage", "cmap", "cmapx", "cmapx_np", "dot", "dot_json", "eps", "exr", "fig",
   "gd", "gd2", "gif", "gtk", "gv", "ico", "imap", "imap_np", "ismap", "jp2", "jpe", "jpeg", "jpg",
   "json", "json0", "pct", "pdf", "pic", "pict", "plain", "plain-ext", "png", "pov", "ps", "ps2",
   "psd", "sgi", "svg", "svg_inline", "svgz", "tga", "tif", "tiff", "tk", "vml", "vmlz", "vrml",
   "wbmp", "webp", "x11", "xdot", "xdot1.2", "xdot1.4", "xdot_json", "xlib"]

/-- The format that a caller asks for, in any case; without one it is `pdf`. -/
def format? : Value → Except Fault String
  | .none => .ok "pdf"
  | .text given =>
    let format := Text.lower given
    if formats.contains format then .ok format else .error (.unknownFormat format formats)
  | v => .error (.noMember v.kind "lower")

/-- A drawing: its text and the format that it is meant for. -/
structure Drawing where
  source : String
  format : String

/-- The text that a drawing's comment shows for an argument. -/
def commentText : Argument → Except Fault String
  | .formula f => f.render
  | .value v => .ok v.plain

/-- Draws a formula with room for so many levels. The text of the comment comes first, then the
format is checked, then the tree is drawn. -/
def draw (room : Nat) (x : Argument) (format : Value) : Except Fault Drawing := do
  let shown ← commentText x
  let format ← format? format
  let f ← x.owner "accept"
  let (body, _) ← statements room 0 f
  return ⟨text ("Expression tree for " ++ shown) body, format⟩

end Graph

end TruthTable
