import ForwardDecl.Text.Lines
import ForwardDecl.Text.Lossy
import ForwardDecl.Text.Quoted

/-! # Errors

Every way in which a run can fail is a cause of its own, and the wording of all
of them stands here, in the `message` functions.  A cause that arises inside a
larger job is wrapped in what the job was (`Error.within`); `Error.root` finds
the cause again.
-/
namespace ForwardDecl

/-! ## The file system -/

/-- The file operation that failed. -/
inductive FileCall
  | stat
  | opening
  | reading
  | makingDirectory
  deriving DecidableEq, Repr

/-- Why a file operation failed. -/
inductive FileFault
  | missing
  | notDirectory
  | isDirectory
  | occupied
  | linkLoop
  | tooLong
  /-- The path holds a character that no path can hold. -/
  | illegal
  deriving DecidableEq, Repr

/-- A file operation that failed on a path, as the path was given. -/
structure FileError where
  call : FileCall
  path : String
  fault : FileFault
  deriving DecidableEq, Repr

def FileCall.message : FileCall → String
  | .stat => "stat"
  | .opening => "open"
  | .reading => "read"
  | .makingDirectory => "mkdir"

def FileFault.message : FileFault → String
  | .missing => "no such file or directory"
  | .notDirectory => "not a directory"
  | .isDirectory => "is a directory"
  | .occupied => "file exists"
  | .linkLoop => "too many levels of symbolic links"
  | .tooLong => "file name too long"
  | .illegal => "invalid argument"

def FileError.message (e : FileError) : String :=
  e.call.message ++ " " ++ e.path ++ ": " ++ e.fault.message

/-! ## The shape of a source text -/

/-- A source text that is not of the shape that adding declarations gives it.
The path is empty as long as the text belongs to no file. -/
structure ShapeError where
  path : String
  line : Int
  text : Line
  reason : String
  deriving DecidableEq, Repr

def ShapeError.message (e : ShapeError) : String :=
  let place := if e.path = "" then "line " ++ toString e.line else e.path ++ ":" ++ toString e.line
  place ++ ": " ++ e.reason ++ ": " ++ quoteChars e.text

/-! ## Configuration documents -/

/-- What is wrong with one ignore entry of a configuration document. -/
inductive EntryProblem
  | notScalar
  | badNumber (value : String)
  | empty
  | neither (value : String)
  deriving DecidableEq, Repr

def EntryProblem.message : EntryProblem → String
  | .notScalar => "ignore entry must be a line number or class name"
  | .badNumber value => "invalid ignore line number " ++ quote value
  | .empty => "empty ignore entry"
  | .neither value =>
    "ignore entry " ++ quote value ++ " is neither a line number nor a class name"

/-- What is wrong with one value of a configuration document. -/
inductive FieldProblem
  /-- A node with the given tag, and for a scalar with the given value, does not
  fit the type that is wanted. -/
  | mismatch (tag value wanted : String)
  | duplicateKey (key : String) (firstLine : Nat)
  /-- A setting of a type has been set before. -/
  | alreadySet (name type : String)
  deriving DecidableEq, Repr

/-- How a value is shown behind its tag: a long one by its first seven bytes.
Behind the tags of collections it is shown as it is, since a collection has
none. -/
def shownValue (tag value : String) : String :=
  if tag = "!!seq" ∨ tag = "!!map" then value
  else if 10 < value.utf8ByteSize then
    " `" ++ lossyText (value.toUTF8.extract 0 7) ++ "...`"
  else " `" ++ value ++ "`"

def FieldProblem.message : FieldProblem → String
  | .mismatch tag value wanted =>
    "cannot unmarshal " ++ tag ++ shownValue tag value ++ " into " ++ wanted
  | .duplicateKey key firstLine =>
    "mapping key " ++ quote key ++ " already defined at line " ++ toString firstLine
  | .alreadySet name type => "field " ++ name ++ " already set in type " ++ type

/-- What is wrong with a configuration document. -/
inductive DocumentProblem
  /-- The text is no document at all. -/
  | malformed
  /-- Some values, each on its line, do not fit. -/
  | unfit (fields : List (Nat × FieldProblem))
  /-- An ignore entry, on its line, is no entry. -/
  | entry (line : Nat) (problem : EntryProblem)
  deriving DecidableEq, Repr

def DocumentProblem.message : DocumentProblem → String
  | .malformed => "yaml: "
  | .unfit fields =>
    "yaml: unmarshal errors:" ++
      String.join (fields.map fun (line, p) => "\n  line " ++ toString line ++ ": " ++ p.message)
  | .entry line problem => "config: line " ++ toString line ++ ": " ++ problem.message

/-! ## Configuration -/

/-- Why a path does not name a place below a root. -/
inductive RelativePathProblem
  | empty
  | absolute
  | unclean
  deriving DecidableEq, Repr

/-- A bad mode, ignore entry, path or configuration file. -/
inductive ConfigError
  | unknownMode (word : String)
  | negativeIgnoreLine (line : Int)
  | lineAndClass (line : Int) (className : String)
  | emptyIgnore
  | badIgnoreLine (word : String)
  | badIgnorePair (pair : String)
  | emptyRoot
  | emptyPath
  | wrongSuffix (path suffix : String)
  | sourceUnreachable (path : String) (cause : FileError)
  | sourceIsDirectory (path : String)
  | rootUnreachable (path : String) (cause : FileError)
  | rootNotDirectory (path : String)
  | noConfig
  | badSuffix (suffix : String)
  | badRelativePath (field path : String) (problem : RelativePathProblem)
  | checkoutLacks (root entry : String)
  | revisionUnreadable (root : String) (cause : FileError)
  | wrongRevision (root actual wanted : String)
  | fileUnreadable (cause : FileError)
  | badDocument (path : String) (problem : DocumentProblem)
  | modesExclude
  | negativeLimit (limit : Int)
  deriving DecidableEq, Repr

def ConfigError.message : ConfigError → String
  | .unknownMode word => "mode " ++ quote word ++ " not in add, remove, toggle"
  | .negativeIgnoreLine line => "invalid ignore line number " ++ toString line
  | .lineAndClass line className =>
    "ignore entry cannot be both line " ++ toString line ++ " and class " ++ quote className
  | .emptyIgnore => "empty ignore entry"
  | .badIgnoreLine word => "invalid ignore line number " ++ quote word
  | .badIgnorePair pair => "invalid ignore " ++ quote pair ++ ": expected PATH:IGNORE"
  | .emptyRoot => "tree root cannot be empty"
  | .emptyPath => "path cannot be empty"
  | .wrongSuffix path suffix =>
    "invalid source file " ++ quote path ++ ": expected " ++ suffix ++ " suffix"
  | .sourceUnreachable path cause =>
    "invalid source file " ++ quote path ++ ": " ++ cause.message
  | .sourceIsDirectory path => "invalid source file " ++ quote path ++ ": is a directory"
  | .rootUnreachable path cause => "invalid path " ++ quote path ++ ": " ++ cause.message
  | .rootNotDirectory path => "invalid path " ++ quote path ++ ": not a directory"
  | .noConfig => "config cannot be nil"
  | .badSuffix suffix => "suffix must look like \".py\", got " ++ quote suffix
  | .badRelativePath field path problem =>
    field ++ match problem with
      | .empty => ": empty path"
      | .absolute => ": path must be relative to root: " ++ path
      | .unclean => ": path must be clean and use \"/\": " ++ path
  | .checkoutLacks root entry =>
    "bad checkout " ++ quote root ++ ": no " ++ quote entry ++ " found"
  | .revisionUnreadable root cause =>
    "bad checkout " ++ quote root ++ ": cannot read revision: " ++ cause.message
  | .wrongRevision root actual wanted =>
    "bad checkout revision in " ++ quote root ++ ": have " ++ actual ++ ", want " ++ wanted ++
      " (run: git checkout " ++ wanted ++ ")"
  | .fileUnreadable cause => cause.message
  | .badDocument path problem => path ++ ": " ++ problem.message
  | .modesExclude => "--add, --remove and --toggle are mutually exclusive"
  | .negativeLimit limit => "max_files must be zero or more, got " ++ toString limit

/-! ## The command line -/

/-- A command line whose flags cannot be read.  A short flag is named by its
letter and the rest of the group that it stands in. -/
inductive FlagError
  | unknownFlag (name : String)
  | unknownLetter (letter : Char) (group : String)
  | missingValue (name : String)
  | missingLetterValue (letter : Char) (group : String)
  | badFlag (argument : String)
  | notBoolean (value title : String)
  deriving DecidableEq, Repr

def FlagError.message : FlagError → String
  | .unknownFlag name => "unknown flag: --" ++ name
  | .unknownLetter letter group =>
    "unknown shorthand flag: " ++ quoteChar letter ++ " in -" ++ group
  | .missingValue name => "flag needs an argument: --" ++ name
  | .missingLetterValue letter group =>
    "flag needs an argument: " ++ quoteChar letter ++ " in -" ++ group
  | .badFlag argument => "bad flag syntax: " ++ argument
  | .notBoolean value title =>
    "invalid argument " ++ quote value ++ " for " ++ quote title ++
      " flag: strconv.ParseBool: parsing " ++ quote value ++ ": invalid syntax"

/-- A command line that asks for nothing that can be done. -/
inductive UsageError
  | noFiles
  | noPaths
  | notOneCheckout
  | unknownCommand (name : String)
  deriving DecidableEq, Repr

def UsageError.message : UsageError → String
  | .noFiles => "no files specified"
  | .noPaths => "no paths specified"
  | .notOneCheckout => "exactly one checkout path is required"
  | .unknownCommand name => "unknown command: " ++ name

/-! ## All errors -/

/-- An error of the program. -/
inductive Error
  | config (cause : ConfigError)
  | shape (cause : ShapeError)
  | notText
  | cancelled
  | helpRequested
  | file (cause : FileError)
  | flag (cause : FlagError)
  | usage (cause : UsageError)
  /-- The cause arose in a larger job, which the context names. -/
  | within (context : String) (cause : Error)
  deriving DecidableEq, Repr

namespace Error

/-- The text that reports the error. -/
def message : Error → String
  | config cause => "config: " ++ cause.message
  | shape cause => cause.message
  | notText => "could not decode file as UTF-8 text"
  | cancelled => "context canceled"
  | helpRequested => "pflag: help requested"
  | file cause => cause.message
  | flag cause => cause.message
  | usage cause => cause.message
  | within context cause => context ++ ": " ++ cause.message

/-- The cause without the jobs that it arose in. -/
def root : Error → Error
  | within _ cause => cause.root
  | e => e

/-- Whether the cause is a configuration error. -/
def isConfig (e : Error) : Bool :=
  match e.root with
  | config _ => true
  | _ => false

/-- Whether the cause is a source text of the wrong shape. -/
def isShape (e : Error) : Bool :=
  match e.root with
  | shape _ => true
  | _ => false

/-- The root of an error is never wrapped. -/
theorem root_root (e : Error) : e.root.root = e.root := by
  induction e with
  | within _ _ ih => exact ih
  | _ => rfl

end Error

/-- Name the job in which a failure arose. -/
def inContext {α : Type} (context : String) (r : Except Error α) : Except Error α :=
  r.mapError (Error.within context)

end ForwardDecl
