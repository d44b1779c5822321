import TruthTable.Action
import TruthTable.Argument
import TruthTable.Assignment.Basic
import TruthTable.Assignment.Checked
import TruthTable.Assignment.Store
import TruthTable.Blueprint
import TruthTable.Command.Options
import TruthTable.Command.Run
import TruthTable.Decimal.Shortest
import TruthTable.Enumeration
import TruthTable.Evaluation
import TruthTable.Fault
import TruthTable.FileTree
import TruthTable.Formula.Basic
import TruthTable.Formula.Fold
import TruthTable.Formula.Text
import TruthTable.FormulaFile
import TruthTable.Graph
import TruthTable.Log.Basic
import TruthTable.Log.Registry
import TruthTable.Main
import TruthTable.Name.Basic
import TruthTable.Name.Set
import TruthTable.Parser
import TruthTable.Path
import TruthTable.Picture
import TruthTable.Query
import TruthTable.Report
import TruthTable.Samples
import TruthTable.Session
import TruthTable.Text.Basic
import TruthTable.Text.Cased
import TruthTable.Text.LowerCase
import TruthTable.Text.Printable
import TruthTable.Text.Quoted
import TruthTable.Text.Utf8
import TruthTable.Token.Basic
import TruthTable.Token.Lexer
import TruthTable.Value
import TruthTable.Verdict
import TruthTable.Proofs.Grammar
import TruthTable.Proofs.Recognition
import TruthTable.Proofs.Evaluation
import TruthTable.Proofs.Enumeration
import TruthTable.Proofs.Verdict
import TruthTable.Proofs.Surface
import TruthTable.Proofs.ReadBack
import TruthTable.Proofs.Scan
import TruthTable.Proofs.Equivalence
import TruthTable.Proofs.ParsedText
import TruthTable.Proofs.Stages
import TruthTable.Proofs.Segments
import TruthTable.Proofs.Delimiting
import TruthTable.Proofs.Drawing
import TruthTable.Proofs.Paths
import TruthTable.Proofs.Verbosity
import TruthTable.Proofs.Trees
import TruthTable.Proofs.Pictures
import TruthTable.Proofs.BitPatterns
import TruthTable.Proofs.RowOrder
import TruthTable.Proofs.Histories
import TruthTable.Proofs.Partition
import TruthTable.Proofs.Renaming
import TruthTable.Proofs.Admission
import TruthTable.Proofs.Canonical
import TruthTable.Proofs.FormulaFiles
import TruthTable.Proofs.FileFaults
import TruthTable.Proofs.MaximalMunch
import TruthTable.Proofs.Respelling
import TruthTable.Proofs.Folding
import TruthTable.Proofs.Whitespace
