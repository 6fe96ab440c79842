import ForwardDecl.Edit.File
import ForwardDecl.Scan
import ForwardDecl.SupportModule

/-! # Editing a tree of files

All source files below a root are edited in the order of a scan.  The first
file that tells the direction of a toggle settles it for all files after it.  A
file that is no text is skipped, and a malformed one fails without ending the
run, unless the run is strict.
-/
namespace ForwardDecl

/-- A file that was not edited, and why. -/
structure FileFailure where
  path : String
  cause : Error
  deriving DecidableEq, Repr

/-- What an edit did to a tree of files. -/
structure TreeResult where
  root : String
  mode : Mode
  modifiedFiles : Nat
  modifiedLines : Nat
  runtimeInstalled : Bool
  files : List FileResult
  skipped : List FileFailure
  failed : List FileFailure
  deriving DecidableEq, Repr

namespace TreeResult

/-- The result before any file is edited. -/
def start (root : String) (mode : Mode) (installed : Bool) : TreeResult :=
  ⟨root, mode, if installed then 1 else 0, 0, installed, [], [], []⟩

/-- The mode for the next file: a toggle goes on as what it was resolved to. -/
def carry (mode resolved : Mode) : Mode :=
  if mode = .toggle then resolved else mode

/-- Take in what was done to one more file. -/
def add (r : TreeResult) (verbose : Bool) (f : FileResult) : TreeResult :=
  { r with
    mode := carry r.mode f.mode
    modifiedFiles := r.modifiedFiles + if 0 < f.modifications then 1 else 0
    modifiedLines := r.modifiedLines + f.modifications
    files := if 0 < f.modifications ∨ verbose then r.files ++ [f] else r.files }

end TreeResult

namespace Edit

/-- An edit whose failure is a value. -/
def attempt {α : Type} (edit : Edit α) : Edit (Except Error α) :=
  tryCatch (do return .ok (← edit)) fun e => return .error e

/-- Note a file that was not edited because it is no text. -/
def skip (r : TreeResult) (path : String) (cause : Error) : Edit TreeResult := do
  tell [.fileSkipped path cause]
  return { r with skipped := r.skipped ++ [⟨path, cause⟩] }

/-- Note a file that could not be edited. -/
def fail (r : TreeResult) (path : String) (cause : Error) : Edit TreeResult := do
  tell [.fileFailed path cause]
  return { r with failed := r.failed ++ [⟨path, cause⟩] }

/-- Edit one file of a scan. -/
def item (run : TreeRun) (cancelled : Bool) (r : TreeResult) (i : ScanItem) : Edit TreeResult := do
  let relPath := i.file.relPath
  match i.failure with
  | some cause => if cancelled then throw .cancelled else fail r relPath cause
  | none =>
    if relPath = SupportModule.path then return r
    let ignore := run.ignoreMap.get relPath
    let options := ⟨run.dryRun, run.showDiff⟩
    match ← attempt (source cancelled i.file.path relPath r.mode ignore options) with
    | .ok result => return r.add run.verbose { result with path := relPath }
    | .error cause =>
      if cause.root = .notText then skip r relPath cause
      else if cause.isShape ∧ !run.strict then fail r relPath cause
      else throw cause

/-- Install the support module, if a run asks for it and is not to remove
declarations. -/
def installFor (config : Config) (run : TreeRun) (mode : Mode) : Edit Bool := do
  if run.installRuntime ∧ mode ≠ .remove then
    let installed ← SupportModule.install run.root config.runtimeTemplate run.dryRun
    if installed then tell [.moduleInstalled SupportModule.path]
    return installed
  else return false

/-- The entries of the directory at a path, as they are now. -/
def listing (path : String) : Edit (Except FileError Entries) := do
  return (← files).list path

/-- Which files a run edits, if source files have this suffix. -/
def selection (suffix : String) (run : TreeRun) : Selection :=
  ⟨suffix, run.ignoreDirs, run.ignoreFiles⟩

/-- Edit a tree of files, each as soon as the scan comes upon it. -/
def tree (config : Config) (cancelled : Bool) (run : TreeRun) : Edit TreeResult := do
  let mode ← ofExcept run.check
  ofExcept ((← files).checkRoot run.root)
  tell [.treeEntered run.root mode run.ignoreDirs run.ignoreFiles run.installRuntime]
  let installed ← installFor config run mode
  let result ← scanM listing (item run cancelled) cancelled run.root
    (selection config.suffix run) (.start run.root mode installed)
  tell [.treeLeft result.mode result.modifiedFiles result.modifiedLines]
  return result

/-- Edit the configured part of a checkout. -/
def checkout (config : Config) (cancelled : Bool) (root mode : String) (options : EditOptions) :
    Edit TreeResult := do
  let c := config.checkout
  checkCheckout root c
  tree config cancelled
    { root := Path.join root c.subdir
      mode := mode
      ignoreDirs := c.ignoreDirs
      ignoreFiles := c.ignoreFiles
      ignoreMap := c.ignoreClasses
      verbose := false
      installRuntime := true
      dryRun := options.dryRun
      showDiff := options.showDiff
      strict := config.strict }

end Edit
end ForwardDecl
