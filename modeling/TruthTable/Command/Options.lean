import TruthTable.Fault
import TruthTable.Path
import TruthTable.Text.Basic
import TruthTable.Value

/-!
# Command-line options

The words of a command line are first classified one by one: a word is an option, a value, or an
unknown option. Long options may be shortened as long as they stay unambiguous, a value may be
joined to its option, and short options may share one dash. After the word `--` every word is a
value. Then the words are consumed from left to right; words that belong to no option are
collected and refused at the end.
-/

namespace TruthTable.Command

/-- The options that the command knows. -/
inductive Switch where
  | help
  | expression
  | file
  | dot
  | format
  | verbose
  | debug
  deriving DecidableEq

/-- All spellings of options, in the order in which messages list them. -/
def spellings : List (String × Switch) :=
  [("-h", .help), ("--help", .help), ("-e", .expression), ("--expression", .expression),
   ("-f", .file), ("--file", .file), ("--dot", .dot), ("--format", .format), ("-v", .verbose),
   ("--verbose", .verbose), ("--debug", .debug)]

namespace Switch

/-- The option is followed by a value. -/
def takesValue : Switch → Bool
  | .help => false
  | .verbose => false
  | .debug => false
  | _ => true

/-- The option's name in messages: its spellings. -/
def label (s : Switch) : String :=
  "/".intercalate ((spellings.filter (·.2 = s)).map (·.1))

end Switch

/-! ## Classification of words -/

/-- What a word of the command line is. -/
inductive Word where
  | value
  /-- The mark after which all words are values. -/
  | mark
  /-- An option, how it is spelled, and the value that is joined to it. -/
  | option (switch : Switch) (spelling : String) (joined : Option String)
  | unknown

/-- A text cut at its first equality sign. -/
def cutAtEquals (s : String) : Option (String × String) :=
  let cs := s.toList
  if cs.contains '=' then
    some (String.ofList (cs.takeWhile (· ≠ '=')), String.ofList ((cs.dropWhile (· ≠ '=')).drop 1))
  else none

/-- The option that a word may stand for, with spelling and joined value. -/
abbrev Reading := Switch × String × Option String

/-- The readings of a word that is no exact spelling: long options that it shortens, or the short
option that it starts with. -/
def readings (word : String) : List Reading :=
  match word.toList with
  | '-' :: '-' :: _ =>
    let (start, joined) := match cutAtEquals word with
      | some (start, joined) => (start, some joined)
      | none => (word, none)
    spellings.filterMap fun (spelling, switch) =>
      if start.toList.isPrefixOf spelling.toList then some (switch, spelling, joined) else none
  | '-' :: c :: joined =>
    spellings.filterMap fun (spelling, switch) =>
      if spelling = String.ofList ['-', c] then some (switch, spelling, some (String.ofList joined))
      else if word.toList.isPrefixOf spelling.toList then some (switch, spelling, none)
      else none
  | _ => []

/-- A word that looks like a negative number: digits, or digits around a point, after a dash. A line
feed at the end is passed over. -/
def isNegativeNumber (word : String) : Bool :=
  match word.toList with
  | '-' :: rest =>
    let body := if rest.getLast? = some '\n' then rest.dropLast else rest
    let digits (cs : List Char) : Bool := !cs.isEmpty && cs.all Text.isDecimalDigit
    digits body ||
      match body.dropWhile Text.isDecimalDigit with
      | '.' :: fraction => digits fraction
      | _ => false
  | _ => false

/-- Classifies one word; an ambiguous one is refused with a message. -/
def classify (word : String) : Except String Word :=
  match word.toList with
  | '-' :: rest =>
    match spellings.lookup word with
    | some switch => .ok (.option switch word none)
    | none =>
      if rest.isEmpty then .ok .value
      else
        let exact : Option Reading := do
          let (start, joined) ← cutAtEquals word
          let switch ← spellings.lookup start
          return (switch, start, some joined)
        match exact with
        | some (switch, spelling, joined) => .ok (.option switch spelling joined)
        | none =>
          match readings word with
          | [(switch, spelling, joined)] => .ok (.option switch spelling joined)
          | [] =>
            if isNegativeNumber word || rest.contains ' ' then .ok .value else .ok .unknown
          | several =>
            .error ("ambiguous option: " ++ word ++ " could match " ++
              ", ".intercalate (several.map (·.2.1)))
  | _ => .ok .value

/-- Classifies all words. -/
def classifyAll : List String → Except String (List (String × Word))
  | [] => .ok []
  | word :: rest =>
    if word = "--" then .ok ((word, .mark) :: rest.map (·, .value))
    else do
      let kind ← classify word
      let others ← classifyAll rest
      return (word, kind) :: others

/-! ## Consumption -/

/-- What the command line asks for. -/
structure Options where
  /-- The formulas given on the command line, in order. -/
  expressions : List Value
  /-- The path of the formula file. -/
  file : Option Value
  /-- The folder for pictures. -/
  folder : Option Path
  /-- The format of pictures. -/
  format : Value
  verbose : Bool
  debug : Bool

/-- The options where the command line is empty. -/
def Options.standard : Options :=
  ⟨[], none, none, .text "png", false, false⟩

/-- The formats that the command line accepts. -/
def formatChoices : List String := ["png", "svg", "pdf"]

/-- What a command line comes to. -/
inductive Request where
  /-- The help text is asked for. -/
  | help
  /-- The command line is refused with a message. -/
  | refused (message : String)
  | run (options : Options)

/-- The message that an option is not used properly. -/
def misuse (s : Switch) (message : String) : String :=
  "argument " ++ s.label ++ ": " ++ message

/-- The message that a value was joined to an option that takes none. -/
def ignoredValue (s : Switch) (joined : List Char) : String :=
  misuse s ("ignored explicit argument " ++ Text.quoted (String.ofList joined))

/-- Options that share one dash: those that take no value, and the last one with the value joined to
it, if any. -/
structure Cluster where
  flags : List Switch
  last : Switch
  joined : Option (List Char)

/-- Takes apart a word that starts with the option `s` and to which `joined` is joined. Only an
option with a single dash can be followed by further options in the same word. -/
def cluster (single : Bool) : Switch → List Char → Except String Cluster
  | s, [] => if s.takesValue then .ok ⟨[], s, some []⟩ else .error (ignoredValue s [])
  | s, c :: rest =>
    if s.takesValue then .ok ⟨[], s, some (c :: rest)⟩
    else
      match single, spellings.lookup (String.ofList ['-', c]) with
      | true, some next =>
        if rest.isEmpty then .ok ⟨[s], next, none⟩
        else do
          let others ← cluster single next rest
          return { others with flags := s :: others.flags }
      | _, _ => .error (ignoredValue s (c :: rest))

/-- Sets an option that takes no value; the help option has no effect on the others. -/
def Options.flag (o : Options) : Switch → Options
  | .verbose => { o with verbose := true }
  | .debug => { o with debug := true }
  | _ => o

/-- The value that is joined to an option. The mark `--` is dropped wherever it is met among values,
so joined to an option it leaves the empty list. -/
def joinedValue (joined : List Char) : Value :=
  if joined = ['-', '-'] then .list [] else .text (String.ofList joined)

/-- Sets an option to a value. A text must be one of the formats to be set as the format. -/
def Options.assign (o : Options) (s : Switch) (value : Value) : Except String Options :=
  match s, value with
  | .expression, value => .ok { o with expressions := o.expressions ++ [value] }
  | .file, value => .ok { o with file := some value }
  | .dot, value => .ok { o with folder := some (.ofString value.plain) }
  | .format, .text format =>
    if formatChoices.contains format then .ok { o with format := value }
    else
      .error (misuse .format ("invalid choice: " ++ Text.quoted format ++ " (choose from " ++
        ", ".intercalate (formatChoices.map Text.quoted) ++ ")"))
  | .format, value => .ok { o with format := value }
  | _, _ => .ok o

/-- Consumes the words from left to right; `extras` are the words that belong to no option, the last
one first. -/
def consume (o : Options) (extras : List String) : List (String × Word) → Request
  | [] =>
    if extras.isEmpty then .run o
    else .refused ("unrecognized arguments: " ++ " ".intercalate extras.reverse)
  | (_, .option switch spelling joined) :: rest =>
    let single := (spelling.toList.drop 1).head? ≠ some '-'
    let parts : Except String Cluster := match joined with
      | none => .ok ⟨[], switch, none⟩
      | some joined => cluster single switch joined.toList
    match parts with
    | .error message => .refused message
    | .ok ⟨flags, last, joined⟩ =>
      let flagged := flags.foldl Options.flag o
      if last.takesValue then
        match joined with
        | some value =>
          if flags.contains .help then .help
          else
            match flagged.assign last (joinedValue value) with
            | .ok o => consume o extras rest
            | .error message => .refused message
        | none =>
          match rest with
          | (value, .value) :: rest =>
            if flags.contains .help then .help
            else
              match flagged.assign last (.text value) with
              | .ok o => consume o extras rest
              | .error message => .refused message
          | _ => .refused (misuse last "expected one argument")
      else if flags.contains .help || last = .help then .help
      else consume (flagged.flag last) extras rest
  | (word, _) :: rest => consume o (word :: extras) rest

/-- Reads a command line. -/
def Request.ofWords (words : List String) : Request :=
  match classifyAll words with
  | .error message => .refused message
  | .ok classified => consume .standard [] classified

/-! ## Help -/

/-- How the command is used, in short. -/
def usage : String :=
  "usage: run_solver.py [-h] [-e FORMULA] [-f FILE] [--dot DIR]\n" ++
  "                     [--format \x7bpng,svg,pdf\x7d] [-v] [--debug]\n"

/-- The help text. -/
def help : String :=
  usage ++
  "\n" ++
  "Truth-table analysis of propositional formulas\n" ++
  "\n" ++
  "options:\n" ++
  "  -h, --help            show this help message and exit\n" ++
  "  -e FORMULA, --expression FORMULA\n" ++
  "                        Formula to analyse (repeatable)\n" ++
  "  -f FILE, --file FILE  File with one formula per line\n" ++
  "  --dot DIR             Also render each expression tree into DIR with\n" ++
  "                        Graphviz\n" ++
  "  --format \x7bpng,svg,pdf\x7d\n" ++
  "                        Image format for --dot (default: png)\n" ++
  "  -v, --verbose         Enable verbose output\n" ++
  "  --debug               Enable debug output (overrides --verbose)\n" ++
  "\n" ++
  "Examples:\n" ++
  "  python run_solver.py\n" ++
  "  python run_solver.py -e \"p | !p\" -e \"p & q -> r\"\n" ++
  "  python run_solver.py -f formulas.txt -v\n" ++
  "  python run_solver.py -e \"p ^ (q -> r)\" --dot trees --format svg\n" ++
  "\n" ++
  "Formula syntax:\n" ++
  "  !p  ~p  not p      negation\n" ++
  "  p & q   p and q    conjunction\n" ++
  "  p | q   p or q     disjunction\n" ++
  "  p ^ q   p xor q    exclusive-or\n" ++
  "  p -> q  p => q     implication\n" ++
  "  p <-> q p <=> q    equivalence\n" ++
  "  true, false        constants\n" ++
  "        \n"

/-- The text for a command line that is refused. -/
def refusal (message : String) : String :=
  usage ++ "run_solver.py: error: " ++ message ++ "\n"

end TruthTable.Command
