import ForwardDecl.FileSystem.Basic
import ForwardDecl.Trace

/-! # Editing

An edit works on a desk: the files, and the events that it has told of.  What
it did before it failed stays done.
-/
namespace ForwardDecl

/-- What an edit works on. -/
structure Desk where
  files : FileSystem
  trace : List Event

/-- An edit that gives an `α` or fails, leaving its desk behind in either
case. -/
abbrev Edit := EStateM Error Desk

/-- The permissions of the files that the editor makes. -/
def defaultPerm : Nat := 0o644

/-- The permissions of a file. -/
def Node.perm : Node → Nat
  | .file f => f.perm
  | _ => defaultPerm

namespace Edit

/-- Tell of events. -/
def tell (events : List Event) : Edit Unit :=
  modify fun d => { d with trace := d.trace ++ events }

/-- The files as they are now. -/
def files : Edit FileSystem := do
  return (← get).files

/-- Go on with other files. -/
def setFiles (fs : FileSystem) : Edit Unit :=
  modify fun d => { d with files := fs }

/-- Fail with the error of a result. -/
def ofExcept {α : Type} : Except Error α → Edit α
  | .ok a => pure a
  | .error e => throw e

/-- Fail with the error of a file operation, as part of a larger job. -/
def fileCall {α : Type} (context : String) : Except FileError α → Edit α
  | .ok a => pure a
  | .error e => throw (.within context (.file e))

/-- Read a file. -/
def read (path : String) : Edit (Except FileError ByteArray) := do
  match (← files).read path with
  | .ok (bytes, fs) =>
    setFiles fs
    return .ok bytes
  | .error e => return .error e

/-- Read a file as part of a larger job. -/
def readIn (context path : String) : Edit ByteArray := do
  fileCall context (← read path)

end Edit
end ForwardDecl
