import ForwardDecl.Conversion.Basic
import ForwardDecl.Diff.Unified
import ForwardDecl.Edit.Check

/-! # Editing one file

A file is read, converted and, if the conversion changed it, written back with
the times that it had.  All that can go wrong goes wrong before the file is
written.
-/
namespace ForwardDecl

/-- How an edit is made: without writing anything, and with a diff of every
change. -/
structure EditOptions where
  dryRun : Bool
  showDiff : Bool
  deriving DecidableEq, Repr

/-- What an edit did to one file. -/
structure FileResult where
  path : String
  mode : Mode
  modifications : Nat
  skipped : Option SkipReason
  written : Bool
  diff : String
  deriving DecidableEq, Repr

namespace Edit

/-- Say in which file a text of the wrong shape stands. -/
def placed (path : String) : Error → Error
  | .shape cause => .shape { cause with path }
  | e => e

/-- The text of a file. -/
def readText (path : String) : Edit (List Char) := do
  match ← read path with
  | .error cause => throw (.file cause)
  | .ok bytes =>
    match String.fromUTF8? bytes with
    | some text => return text.toList
    | none => throw (.within path .notText)

/-- Convert the text of a file. -/
def convertText (path : String) (mode : Mode) (ignore : IgnoreList) (text : List Char) :
    Edit Converted := do
  tell (conversionEvents mode ignore text)
  ofExcept ((convert mode ignore text).mapError (placed path))

/-- Write a file and give it back the times that it had. -/
def writeText (path : String) (text : List Char) (times : Time × Time) : Edit Unit := do
  match (← files).write path (String.ofList text).toUTF8 defaultPerm with
  | .error cause => throw (.file cause)
  | .ok fs => setFiles (fs.setTimes path times.1 times.2)

/-- Edit the file at a path, which is called `name` in a diff. -/
def source (cancelled : Bool) (path name : String) (mode : Mode) (ignore : IgnoreList)
    (options : EditOptions) : Edit FileResult := do
  if cancelled then throw .cancelled
  tell [.fileEntered path mode ignore.render]
  let times ← ofExcept (((← files).times path).mapError .file)
  let text ← readText path
  let converted ← convertText path mode ignore text
  let unwritten : FileResult :=
    ⟨path, converted.mode, converted.modifications, converted.skipped, false, ""⟩
  if converted.modifications = 0 then return unwritten
  let diff := if options.showDiff then Diff.unified name text converted.text else ""
  if !options.dryRun then writeText path converted.text times
  tell [.fileModified path converted.modifications converted.mode]
  return { unwritten with written := !options.dryRun, diff }

/-- Edit the source file at a path. -/
def file (config : Config) (cancelled : Bool) (path : String) (mode : Mode) (ignore : IgnoreList)
    (options : EditOptions) : Edit FileResult := do
  ofExcept (inContext path ignore.check)
  ofExcept ((← files).checkSource path config.suffix)
  source cancelled path (Path.base path) mode ignore options

/-- Report what toggling would do to each file, without writing anything. -/
def detect (config : Config) (cancelled : Bool) (paths : List String) : Edit (List FileResult) :=
  paths.mapM fun path => file config cancelled path .toggle [] ⟨true, false⟩

end Edit
end ForwardDecl
