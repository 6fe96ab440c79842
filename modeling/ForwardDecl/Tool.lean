import ForwardDecl.Command.Basic

/-! # Tools

The same edits are offered to other programs as tools.  A tool takes one object
of arguments and gives a JSON value.  Every argument may be left out, and its
name may be written in capitals; an argument given more than once, in different
spellings, is read again and again in the order of the spellings.  An argument
that a tool does not know or that has the wrong type is not even tried
(`Refusal.protocol`); anything else that goes wrong is an error of the program.
-/
namespace ForwardDecl

/-- The arguments of a tool, under the names that the tool gives them. -/
abbrev Arguments := List (String × Json)

/-- Why a call gives no result. -/
inductive Refusal
  /-- The call itself is wrong. -/
  | protocol
  | failed (cause : Error)
  deriving DecidableEq, Repr

/-- The type of an argument.  Of some types an argument that is null is as good
as none, even if it has been given before. -/
inductive ArgumentType
  | text
  | truth
  | optionalTruth
  | optionalInteger
  | texts
  | textsByName
  deriving DecidableEq, Repr

/-- An argument that a tool knows. -/
structure Parameter where
  name : String
  type : ArgumentType
  deriving DecidableEq, Repr

namespace Json

/-- The text of a value. -/
def asText : Json → String
  | str s => s
  | _ => ""

/-- The texts of a list; null is the empty list. -/
def asTexts : Json → List String
  | arr items => items.map asText
  | _ => []

def asTruth? : Json → Option Bool
  | bool b => some b
  | _ => none

def asInteger? : Json → Option Int
  | int n => some n
  | _ => none

/-- The fields of an object; null is the empty object. -/
def fields : Json → List (String × Json)
  | obj fields => fields
  | _ => []

end Json

namespace Arguments

def get (args : Arguments) (name : String) : Json := (args.lookup name).getD .null

/-- Give an argument a value, in the place of the one before it. -/
def set (args : Arguments) (name : String) (value : Json) : Arguments :=
  match args with
  | [] => [(name, value)]
  | (n, v) :: rest => if n = name then (name, value) :: rest else (n, v) :: set rest name value

def text (args : Arguments) (name : String) : String := (args.get name).asText

def texts (args : Arguments) (name : String) : List String := (args.get name).asTexts

def isOn (args : Arguments) (name : String) : Bool := (args.get name).asTruth?.getD false

end Arguments

namespace ArgumentType

/-- Whether a number is a signed word of 64 bits. -/
def isWord (n : Int) : Bool :=
  decide (-0x8000000000000000 ≤ n ∧ n ≤ 0x7fffffffffffffff)

/-- Read the items of a list.  A null leaves the item that was at its place, or
else the empty text. -/
def readItems : (old : List String) → (items : List Json) → Option (List String)
  | _, [] => some []
  | old, .str s :: items => (readItems old.tail items).map (s :: ·)
  | old, .null :: items => (readItems old.tail items).map (old.headD "" :: ·)
  | _, _ :: _ => none

/-- Read a list over the one before it. -/
def readTexts (old : List String) : Json → Option Json
  | .null => some .null
  | .arr items => (readItems old items).map fun texts => .arr (texts.map .str)
  | _ => none

/-- Read the value of an argument over the one before it: nothing if it has not
the type. -/
def read (type : ArgumentType) (old value : Json) : Option Json :=
  match type, value with
  | .text, .null => some old
  | .text, .str s => some (.str s)
  | .truth, .null => some old
  | .truth, .bool b => some (.bool b)
  | .optionalTruth, .null => some .null
  | .optionalTruth, .bool b => some (.bool b)
  | .optionalInteger, .null => some .null
  | .optionalInteger, .int n => if isWord n then some (.int n) else none
  | .texts, value => readTexts old.asTexts value
  | .textsByName, .null => some .null
  | .textsByName, .obj fields => do
    let lists ← fields.mapM fun (name, list) => do return (name, ← readTexts [] list)
    return .obj (lists.foldl (fun m (name, list) => Arguments.set m name list) old.fields)
  | _, _ => none

end ArgumentType

namespace Arguments

/-- The small letter that a character of an argument's name stands for.  Two
characters outside of ASCII, the long s and the kelvin sign, have one too. -/
def smallLetter (c : Char) : Char :=
  if c = '\u017f' then 's' else if c = '\u212a' then 'k' else c.toLower

/-- Read an argument. -/
def readField (parameters : List Parameter) (args : Arguments) (field : String × Json) :
    Option Arguments := do
  let name := String.ofList (field.1.toList.map smallLetter)
  let parameter ← parameters.find? (·.name = name)
  let value ← parameter.type.read (args.get name) field.2
  return args.set name value

/-- Read the arguments that the parameters ask for; null is no arguments. -/
def read (parameters : List Parameter) (given : Json) : Option Arguments :=
  match given with
  | .null => some []
  | .obj fields => (fields.mergeSort fun a b => a.1 ≤ b.1).foldlM (readField parameters) []
  | _ => none

end Arguments

/-- A tool: what it is for, its parameters, and what it does. -/
structure Tool where
  name : String
  description : String
  parameters : List Parameter
  call : Config → Arguments → Edit Json

namespace Tool

/-- The mode that a word means; no word means toggling. -/
def modeOf (word : String) : Except Error Mode :=
  if word = "" then .ok .toggle else Mode.parse word

/-- Name the job in which an edit failed. -/
def within {α : Type} (context : String) (edit : Edit α) : Edit α :=
  tryCatch edit fun e => throw (.within context e)

def editFile : Tool where
  name := "edit_file"
  description := "Add, remove or toggle forward class declarations in one Python file"
  parameters := [⟨"path", .text⟩, ⟨"mode", .text⟩, ⟨"ignore", .texts⟩,
    ⟨"dry_run", .truth⟩, ⟨"diff", .truth⟩]
  call config args := do
    let mode ← Edit.ofExcept (modeOf (args.text "mode"))
    let ignore ← Edit.ofExcept (IgnoreList.parse (args.texts "ignore"))
    let options := ⟨args.isOn "dry_run", args.isOn "diff"⟩
    let result ← within "failed to edit file"
      (Edit.file config false (args.text "path") mode ignore options)
    return result.toJson

/-- The ignore lists of an argument, by path. -/
def ignoreMapOf (value : Json) : Except Error IgnoreMap :=
  match value with
  | .obj fields => fields.mapM fun (path, words) => do
    return (path, ← inContext ("ignore_classes[" ++ path ++ "]") (IgnoreList.parse words.asTexts))
  | _ => .ok []

/-- The run over a tree that the arguments ask for. -/
def treeRun (config : Config) (args : Arguments) : Except Error TreeRun := do
  let mode ← modeOf (args.text "mode")
  let run := config.treeRun (args.text "root") mode.name
  let ignore ← ignoreMapOf (args.get "ignore_classes")
  return { run with
    ignoreDirs := run.ignoreDirs ++ args.texts "ignore_dirs"
    ignoreFiles := run.ignoreFiles ++ args.texts "ignore_files"
    ignoreMap := run.ignoreMap.merge ignore
    installRuntime := (args.get "install_runtime").asTruth?.getD run.installRuntime
    strict := run.strict || args.isOn "strict"
    dryRun := args.isOn "dry_run"
    showDiff := args.isOn "diff" }

def editTree : Tool where
  name := "edit_tree"
  description :=
    "Add, remove or toggle forward class declarations in every Python file under a directory"
  parameters := [⟨"root", .text⟩, ⟨"mode", .text⟩, ⟨"ignore_dirs", .texts⟩,
    ⟨"ignore_files", .texts⟩, ⟨"ignore_classes", .textsByName⟩,
    ⟨"install_runtime", .optionalTruth⟩, ⟨"strict", .truth⟩, ⟨"dry_run", .truth⟩,
    ⟨"diff", .truth⟩]
  call config args := do
    let run ← Edit.ofExcept (treeRun config args)
    let result ← within "failed to edit tree" (Edit.tree config false run)
    return result.toJson

/-- The first paths, as many as a limit allows. -/
def limited (paths : List String) (limit : Option Int) : Except Error (List String) :=
  match limit with
  | none => .ok paths
  | some n => if n < 0 then .error (.config (.negativeLimit n)) else .ok (paths.take n.toNat)

def detectMode : Tool where
  name := "detect_mode"
  description := "Report which direction toggle would pick for Python files"
  parameters := [⟨"file_paths", .texts⟩, ⟨"max_files", .optionalInteger⟩]
  call config args := do
    let paths ← Edit.ofExcept (limited (args.texts "file_paths") (args.get "max_files").asInteger?)
    let results ← within "failed to detect modes" (Edit.detect config false paths)
    return if results = [] then .null else .arr (results.map FileResult.toJson)

/-- Convert a text.  A text without modifications is given back as it was. -/
def convertGiven (mode : Mode) (ignore : IgnoreList) (text : String) : Except Error Json := do
  let c ← inContext "failed to rewrite text" (convert mode ignore text.toList)
  let converted := if 0 < c.modifications then String.ofList c.text else text
  return .obj ([("text", .str converted), ("mode", .str c.mode.name),
      ("modifications", .nat c.modifications)] ++
    Json.unlessEmpty "skipped" (.str (skipName c.skipped)))

def convertText : Tool where
  name := "rewrite_text"
  description := "Rewrite Python source text without touching the filesystem"
  parameters := [⟨"text", .text⟩, ⟨"mode", .text⟩, ⟨"ignore", .texts⟩]
  call _ args := do
    let mode ← Edit.ofExcept (modeOf (args.text "mode"))
    let ignore ← Edit.ofExcept (IgnoreList.parse (args.texts "ignore"))
    Edit.ofExcept (convertGiven mode ignore (args.text "text"))

/-- All tools, in order of their names. -/
def all : List Tool := [detectMode, editFile, editTree, convertText]

/-- Call a tool, and give the files afterwards too. -/
def run (config : Config) (name : String) (given : Json) (fs : FileSystem) :
    Except Refusal Json × FileSystem :=
  match all.find? (·.name = name) with
  | none => (.error .protocol, fs)
  | some tool =>
    match Arguments.read tool.parameters given with
    | none => (.error .protocol, fs)
    | some args =>
      match (tool.call config args).run ⟨fs, []⟩ with
      | .ok value desk => (.ok value, desk.files)
      | .error e desk => (.error (.failed e), desk.files)

end Tool
end ForwardDecl
