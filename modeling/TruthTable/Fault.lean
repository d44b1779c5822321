import TruthTable.Text.Utf8
import TruthTable.Token.Basic
import TruthTable.Value

/-!
# Faults

Everything that can go wrong, by cause. Each cause carries what its message needs; the wording is
in the `message` functions alone. `Fault.title` is the word under which a fault is announced.
-/

namespace TruthTable

/-! ## Arguments -/

/-- An argument that an operation on formulas or assignments does not accept. -/
inductive ArgumentFault where
  /-- Nothing was given for the named part. -/
  | absent (role : String)
  /-- The named part is not a formula. -/
  | notFormula (role kind : String)
  /-- The question is not about a formula. -/
  | notSubject (kind : String)
  /-- A formula is evaluated under something that is not an assignment. -/
  | notAssignment (kind : String)
  /-- A constant is made of something that is not a truth value. -/
  | notTruthValue (kind : String)
  /-- A name is assigned something that is not a truth value. -/
  | notAssignable (name : Name) (kind : String)
  | emptyName
  /-- No variable can be made of this name. -/
  | malformedVariable (name : Value)
  /-- No assignment can hold this name. -/
  | malformedName (name : Value)
  | unsupportedOperator (op : Value)
  /-- A formula is evaluated under an assignment that lacks one of its names. -/
  | unassigned (name : Name)
  /-- An assignment is asked for the value of a name that it lacks. -/
  | unknownName (name : Name)
  | notBits (bits : Value)
  | bitsOutOfRange (bits count : Nat)
  | repeatedName (name : Name)

/-- The wording of the faults of arguments. -/
def ArgumentFault.message : ArgumentFault → String
  | .absent role => role ++ " cannot be None"
  | .notFormula role kind => role ++ " must be an expression, got " ++ kind
  | .notSubject kind => "expected an expression, got " ++ kind
  | .notAssignment kind => "expected an Interpretation, got " ++ kind
  | .notTruthValue kind => "constant value must be a bool, got " ++ kind
  | .notAssignable name kind =>
    "value for " ++ Text.quoted name.text ++ " must be a bool, got " ++ kind
  | .emptyName => "variable name cannot be empty"
  | .malformedVariable name =>
    "variable name " ++ name.literal ++ " must be a letter followed by letters or digits"
  | .malformedName name => "variable name " ++ name.literal ++ " has an invalid format"
  | .unsupportedOperator op => "unsupported binary operator: " ++ op.literal
  | .unassigned name =>
    "variable " ++ Text.quoted name.text ++ " is not assigned by the interpretation"
  | .unknownName name =>
    "variable " ++ Text.quoted name.text ++ " does not exist in this interpretation"
  | .notBits bits => "bits must be a non-negative integer, got " ++ bits.literal
  | .bitsOutOfRange bits count =>
    "bits " ++ toString bits ++ " does not fit in " ++ toString count ++ " variable(s)"
  | .repeatedName name => "variable " ++ Text.quoted name.text ++ " is repeated"

/-! ## Formula text -/

/-- A character that no token starts with, met at a position. -/
structure IllegalCharacter where
  char : Char
  position : Nat

/-- The wording for an illegal character. -/
def IllegalCharacter.message (i : IllegalCharacter) : String :=
  "Illegal character '" ++ i.char.toString ++ "' encountered at position " ++ toString i.position

/-- Why a text is not a formula. -/
inductive ParseFault where
  /-- The formula is not a text at all. -/
  | notText (kind : String)
  /-- The text is empty or blank. -/
  | blank
  /-- A token that cannot stand where it stands. -/
  | unexpected (token : Token)
  /-- The text ends where more is needed. -/
  | unexpectedEnd
  | illegal (character : IllegalCharacter)

/-- The wording of the faults of formula text. -/
def ParseFault.message : ParseFault → String
  | .notText kind => "Formula must be a string, got " ++ kind
  | .blank => "Input formula is empty."
  | .unexpected t =>
    "Syntax error near '" ++ t.text ++ "' (type: " ++ t.kind.label ++ ") at position " ++
      toString t.start
  | .unexpectedEnd => "Syntax error: Unexpected end of formula"
  | .illegal i => "Parse failed: " ++ i.message

/-! ## Files -/

/-- Why the file system refuses an operation. -/
inductive Refusal where
  | notFound
  | exists
  | notDirectory
  | isDirectory
  | nameTooLong
  | tooManyLinks
  | accessDenied
  | noSpace
  | readOnly
  deriving DecidableEq

/-- The number of a refusal. -/
def Refusal.number : Refusal → Nat
  | .notFound => 2
  | .exists => 17
  | .notDirectory => 20
  | .isDirectory => 21
  | .nameTooLong => 36
  | .tooManyLinks => 40
  | .accessDenied => 13
  | .noSpace => 28
  | .readOnly => 30

/-- The words for a refusal. -/
def Refusal.words : Refusal → String
  | .notFound => "No such file or directory"
  | .exists => "File exists"
  | .notDirectory => "Not a directory"
  | .isDirectory => "Is a directory"
  | .nameTooLong => "File name too long"
  | .tooManyLinks => "Too many levels of symbolic links"
  | .accessDenied => "Permission denied"
  | .noSpace => "No space left on device"
  | .readOnly => "Read-only file system"

/-- The word under which a refusal is announced. -/
def Refusal.title : Refusal → String
  | .notFound => "FileNotFoundError"
  | .exists => "FileExistsError"
  | .notDirectory => "NotADirectoryError"
  | .isDirectory => "IsADirectoryError"
  | .nameTooLong => "OSError"
  | .tooManyLinks => "OSError"
  | .accessDenied => "PermissionError"
  | .noSpace => "OSError"
  | .readOnly => "OSError"

/-- An operation on a path that the file system refuses. -/
inductive PathFault where
  /-- The path holds a null character. -/
  | nullCharacter
  | refused (refusal : Refusal) (path : String)

/-- The wording of the faults of paths. -/
def PathFault.message : PathFault → String
  | .nullCharacter => "embedded null byte"
  | .refused refusal path =>
    "[Errno " ++ toString refusal.number ++ "] " ++ refusal.words ++ ": " ++ Text.quoted path

/-- A formula file that cannot be used. -/
inductive FormulaFileFault where
  | notFound (path : String)
  | unreadable (refusal : Refusal) (path : String)
  | noFormulas (path : String)

/-- The wording of the faults of formula files. -/
def FormulaFileFault.message : FormulaFileFault → String
  | .notFound path => "Formula file not found: " ++ path
  | .unreadable refusal path =>
    "Error reading formula file: " ++ (PathFault.refused refusal path).message
  | .noFormulas path => "Formula file contains no formulas: " ++ path

/-! ## All faults -/

/-- Any fault of the program. -/
inductive Fault where
  | argument (cause : ArgumentFault)
  | parse (cause : ParseFault)
  | illegalCharacter (cause : IllegalCharacter)
  | formulaFile (cause : FormulaFileFault)
  | path (cause : PathFault)
  | decoding (cause : Text.DecodeFault)
  /-- A hole was met where content is needed. -/
  | hole
  /-- The nodes of a formula are nested more deeply than the calls of a visitor can be. -/
  | tooDeep
  /-- A part of a formula was to be changed or removed; formulas are immutable. -/
  | immutable (removal : Bool) (field : String)
  /-- A drawing is asked for in a format that does not exist. -/
  | unknownFormat (format : String) (known : List String)
  /-- A value that is not a text was used as a path. -/
  | notPath (kind : String)
  /-- The length of a value without length was needed. -/
  | noLength (kind : String)
  /-- A value that can change was to be put in a set. -/
  | unhashable (kind : String)
  /-- A value that is not a formula was asked for something only formulas have. -/
  | noMember (kind member : String)
  /-- A register was used that holds nothing. -/
  | unknownRegister (register : String)

/-- The word under which a fault is announced. -/
def Fault.title : Fault → String
  | .argument _ => "InvalidArgument"
  | .parse _ => "ParseError"
  | .illegalCharacter _ => "ValueError"
  | .formulaFile _ => "FormulaFileError"
  | .path .nullCharacter => "ValueError"
  | .path (.refused refusal _) => refusal.title
  | .decoding _ => "UnicodeDecodeError"
  | .hole => "NotImplementedError"
  | .tooDeep => "RecursionError"
  | .immutable .. => "FrozenInstanceError"
  | .unknownFormat .. => "ValueError"
  | .notPath _ => "TypeError"
  | .noLength _ => "TypeError"
  | .unhashable _ => "TypeError"
  | .noMember .. => "AttributeError"
  | .unknownRegister _ => "KeyError"

/-- The wording of a fault. -/
def Fault.message : Fault → String
  | .argument cause => cause.message
  | .parse cause => cause.message
  | .illegalCharacter cause => cause.message
  | .formulaFile cause => cause.message
  | .path cause => cause.message
  | .decoding cause => cause.message
  | .hole => ""
  | .tooDeep => "maximum recursion depth exceeded while calling a Python object"
  | .immutable removal field =>
    "cannot " ++ (if removal then "delete" else "assign to") ++ " field " ++ Text.quoted field
  | .unknownFormat format known =>
    "unknown format: " ++ Text.quoted format ++ " (must be one of [" ++
      ", ".intercalate (known.map Text.quoted) ++ "])"
  | .notPath kind => "expected str, bytes or os.PathLike object, not " ++ kind
  | .noLength kind => "object of type '" ++ kind ++ "' has no len()"
  | .unhashable kind => "unhashable type: '" ++ kind ++ "'"
  | .noMember kind member => "'" ++ kind ++ "' object has no attribute '" ++ member ++ "'"
  | .unknownRegister register => Text.quoted register

@[simp]
theorem Fault.message_parse (cause : ParseFault) : (Fault.parse cause).message = cause.message :=
  rfl

/-! ## Computations that may fail -/

@[simp]
theorem ok_bind {ε α β : Type} (a : α) (k : α → Except ε β) : (Except.ok a >>= k) = k a :=
  rfl

/-- Two computations in sequence succeed exactly when both do. -/
theorem bind_eq_ok_iff {ε α β : Type} {x : Except ε α} {k : α → Except ε β} {b : β} :
    (x >>= k) = .ok b ↔ ∃ a, x = .ok a ∧ k a = .ok b := by
  cases x with
  | ok a => simp
  | error fault => simp [bind, Except.bind]

end TruthTable
