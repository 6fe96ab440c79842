import ForwardDecl.FileSystem.Basic

/-! # Scanning a tree of files

A scan finds the source files below a directory: the regular files whose names
have the suffix, directory by directory, first the files of a directory and
then its subdirectories, both in the order of their names.  Links are not
followed.  A file is left out when its relative path is to be ignored, and a
directory with everything below it when its own is.  A directory is looked into
by its path, and one that cannot be looked into is passed over with the reason.
-/
namespace ForwardDecl

/-- A source file: the path that leads to it, and its path relative to the
directory that was scanned. -/
structure SourceFile where
  path : String
  relPath : String
  deriving DecidableEq, Repr

/-- Which files a scan is for. -/
structure Selection where
  suffix : String
  ignoreDirs : List String
  ignoreFiles : List String
  deriving DecidableEq, Repr

namespace Selection

/-- Whether a file with this name and relative path is looked for. -/
def takesFile (s : Selection) (name relPath : String) : Bool :=
  s.suffix.toList.isSuffixOf name.toList && !s.ignoreFiles.contains relPath

/-- Whether the directory with this relative path is looked into. -/
def takesDir (s : Selection) (relPath : String) : Bool :=
  !s.ignoreDirs.contains relPath

end Selection

/-- The relative path of an entry of the directory with relative path `dir`. -/
def joinRel (dir name : String) : String :=
  if dir = "." then name else Path.join dir name

/-- The source files that stand directly in a directory. -/
def ownSources (s : Selection) (path relPath : String) (entries : Entries) : List SourceFile :=
  entries.filterMap fun (name, n) =>
    match n with
    | .file _ =>
      if s.takesFile name (joinRel relPath name) then
        some ⟨Path.join path name, joinRel relPath name⟩
      else none
    | _ => none

/-- The names of the directories in a directory that are looked into. -/
def subdirectories (s : Selection) (relPath : String) (entries : Entries) : List String :=
  (entries.filter fun (name, n) => n.isDir && s.takesDir (joinRel relPath name)).map Prod.fst

/-- What a scan comes upon: a source file, or a directory that it cannot look
into. -/
structure ScanItem where
  file : SourceFile
  failure : Option Error
  deriving DecidableEq, Repr

section
variable {m : Type → Type} [Monad m] {β : Type}

/-- Visit everything in the directory at a path and below it, on so many `levels`.
A directory is looked into only when everything before it has been visited, so
that a visit can change what is found later. -/
def explore (look : String → m (Except FileError Entries)) (s : Selection)
    (visit : β → ScanItem → m β) (levels : Nat) (path relPath : String) (b : β) : m β := do
  match ← look path with
  | .error cause => visit b ⟨⟨path, relPath⟩, some (.file cause)⟩
  | .ok entries =>
    let b ← (ownSources s path relPath entries).foldlM (fun b f => visit b ⟨f, none⟩) b
    match levels with
    | 0 => return b
    | below + 1 =>
      (subdirectories s relPath entries).foldlM (fun b name =>
        explore look s visit below (Path.join path name) (joinRel relPath name) b) b

/-- Visit everything that a scan of the directory at a path comes upon, in order.
A scan that is cancelled says so and ends.  Every level of directories adds to
the path, so that none is deeper than a path may have bytes. -/
def scanM (look : String → m (Except FileError Entries)) (visit : β → ScanItem → m β)
    (cancelled : Bool) (root : String) (s : Selection) (b : β) : m β :=
  if cancelled then visit b ⟨⟨root, "."⟩, some .cancelled⟩
  else explore look s visit (maxPathSize + 1) root "." b

end

/-- Everything that a scan of the directory at a path comes upon, in order. -/
def scan (fs : FileSystem) (cancelled : Bool) (root : String) (s : Selection) : List ScanItem :=
  Id.run (scanM (fun path => pure (fs.list path)) (fun items i => pure (items ++ [i])) cancelled
    root s [])

end ForwardDecl
