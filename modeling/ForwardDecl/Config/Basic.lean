import ForwardDecl.Ignore.Map
import ForwardDecl.Mode

/-! # Configuration

A configuration says which files are edited, in which mode, and what is left
alone.  It comes from a document or from a caller and may be wrong in many
ways; `Config.check` finds the first of them, before any file is touched.
A run over one tree of files (`TreeRun`) is made from it.
-/
namespace ForwardDecl

/-- A checkout of somebody else's sources that is edited as a whole.  Paths to
ignore are relative to `subdir`. -/
structure CheckoutConfig where
  subdir : String
  revision : String
  required : List String
  ignoreDirs : List String
  ignoreFiles : List String
  ignoreClasses : IgnoreMap
  deriving DecidableEq, Repr

/-- The settings of the program.  The mode is a word that need not be one. -/
structure Config where
  suffix : String
  mode : String
  installRuntime : Bool
  runtimeTemplate : String
  strict : Bool
  ignoreDirs : List String
  ignoreFiles : List String
  ignoreClasses : IgnoreMap
  checkout : CheckoutConfig
  deriving DecidableEq, Repr

/-- The checkout of the standard library, at the revision that the editor is
known to handle. -/
def CheckoutConfig.default : CheckoutConfig where
  subdir := "Lib"
  revision := "7b87e8af0cb8df0d76e8ab18a9b12affb4526103"
  required := ["Doc", "Grammar", "Lib", "LICENSE", "Python", "PCbuild", "configure", ".git"]
  ignoreDirs := ["test"]
  ignoreFiles := ["lib2to3/tests/data/py2_test_grammar.py", "lib2to3/tests/data/crlf.py"]
  ignoreClasses :=
    [("enum.py",
        ["Enum", "ReprEnum", "IntEnum", "StrEnum", "FlagBoundary", "Flag", "IntFlag",
          "EnumCheck"].map IgnoreEntry.ofClass),
      ("re/__init__.py", [.ofClass "RegexFlag"]),
      ("re/_compiler.py", [.ofClass "_CompileData"])]

/-- The settings that hold unless something else is said. -/
def Config.default : Config where
  suffix := ".py"
  mode := Mode.toggle.name
  installRuntime := true
  runtimeTemplate := ""
  strict := false
  ignoreDirs := []
  ignoreFiles := []
  ignoreClasses := []
  checkout := .default

namespace Config

/-- Check a configuration: the suffix, the mode, and every path and list to
ignore, in this order. -/
def check (c : Config) : Except Error Unit := do
  if !Path.isSuffix c.suffix then throw (.config (.badSuffix c.suffix))
  let _ ← Mode.ofName c.mode
  Path.checkRelative "ignore_dirs" c.ignoreDirs
  Path.checkRelative "ignore_files" c.ignoreFiles
  c.ignoreClasses.check fun path => "ignore_classes[" ++ path ++ "]"
  Path.checkRelative "checkout.ignore_dirs" c.checkout.ignoreDirs
  Path.checkRelative "checkout.ignore_files" c.checkout.ignoreFiles
  c.checkout.ignoreClasses.check fun path => "checkout.ignore_classes[" ++ path ++ "]"

/-- A configuration that is there and passes its checks. -/
def require (c : Option Config) : Except Error Config :=
  match c with
  | none => .error (.config .noConfig)
  | some c => do
    c.check
    return c

end Config

/-- One edit of a tree of files.  The mode is a word that need not be one. -/
structure TreeRun where
  root : String
  mode : String
  ignoreDirs : List String
  ignoreFiles : List String
  ignoreMap : IgnoreMap
  verbose : Bool
  installRuntime : Bool
  dryRun : Bool
  showDiff : Bool
  strict : Bool
  deriving DecidableEq, Repr

/-- Check a run and give its mode. -/
def TreeRun.check (run : TreeRun) : Except Error Mode := do
  if run.root = "" then throw (.config .emptyRoot)
  let mode ← Mode.ofName run.mode
  run.ignoreMap.check fun path => "ignore list for " ++ path
  return mode

/-- The run over a tree that a configuration asks for. -/
def Config.treeRun (c : Config) (root mode : String) : TreeRun where
  root := root
  mode := mode
  ignoreDirs := c.ignoreDirs
  ignoreFiles := c.ignoreFiles
  ignoreMap := c.ignoreClasses
  verbose := false
  installRuntime := c.installRuntime
  dryRun := false
  showDiff := false
  strict := c.strict

end ForwardDecl
