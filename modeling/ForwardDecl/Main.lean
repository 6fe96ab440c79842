import ForwardDecl.Command.Basic

/-! # The command line

Runs a command on the files of the machine.  What the arguments name is read
into a `FileSystem`, with everything below it; the command runs on that value;
and the files that it changed are written back.  All decisions are those of
`Command.run`.  The machine sets the times and permissions of what is written.
-/
namespace ForwardDecl

/-- The path of a location. -/
def absolutePath (loc : Location) : String :=
  "/" ++ Path.ofSegments loc

/-- What is new or has other bytes than before: directories and files, a
directory before what is in it. -/
def changedNodes (before after : FileSystem) : List (Location × Node) :=
  after.root.descendants.filter fun (loc, node) =>
    match node, before.root.get? loc with
    | .file new, some (.file old) => decide (new.bytes.data ≠ old.bytes.data)
    | .file _, _ => true
    | .dir _, none => true
    | _, _ => false

/-- The paths that a command line names, besides words that are no paths. -/
def namedPaths (argv : List String) : List String :=
  match Invocation.parse argv with
  | .ok (.command options _ args) => options.config :: args
  | .ok (.serve config) => [config]
  | _ => []

/-- Put a node where a path says. -/
def placed (files : FileSystem) (path : String) (node : Node) (h : node.WellFormed) : FileSystem :=
  (files.place path node h).toOption.getD files

/-- Read in an entry of a directory, with everything below it. -/
partial def readEntry (files : FileSystem) (entry : IO.FS.DirEntry) : IO FileSystem := do
  let path := entry.path.toString
  match (← entry.path.symlinkMetadata).type with
  | .dir =>
    let children ← entry.path.readDir
    children.foldlM readEntry (placed files path (.dir []) trivial)
  | .file =>
    let bytes ← IO.FS.readBinFile entry.path
    return placed files path (.file ⟨bytes, defaultPerm, 0, 0⟩) trivial
  | .symlink =>
    try
      let target ← IO.FS.realPath entry.path
      return placed files path (.link target.toString) trivial
    catch _ => return files
  | .other => return files

/-- Read in what a path names, if it names anything, and what it leads to when
it is a link. -/
def readNamed (files : FileSystem) (path : String) : IO FileSystem := do
  if path = "" then return files
  let entry : IO.FS.DirEntry := ⟨← IO.currentDir, path⟩
  if ← entry.path.pathExists then
    let named ← readEntry files entry
    if (← entry.path.symlinkMetadata).type == .symlink then
      readEntry named ⟨"/", (← IO.FS.realPath entry.path).toString⟩
    else return named
  else return files

/-- The files that a command line is about: those that it names, and the
template that its configuration names. -/
def readFiles (argv : List String) : IO FileSystem := do
  let here := (← IO.currentDir).toString
  let bare := FileSystem.empty 1
  let start := { (bare.makeDirs here).toOption.getD bare with cwd := Path.cleanSegments here }
  let paths := namedPaths argv
  let files ← paths.foldlM readNamed start
  match paths.head?.map (Config.load files) with
  | some (.ok (config, _)) => readNamed files config.runtimeTemplate
  | _ => return files

/-- Write what is new or changed. -/
def writeChanges (before after : FileSystem) : IO Unit :=
  (changedNodes before after).forM fun (loc, node) =>
    match node with
    | .dir _ => IO.FS.createDirAll (absolutePath loc)
    | .file f => IO.FS.writeBinFile (absolutePath loc) f.bytes
    | .link _ => pure ()

end ForwardDecl

/-- Run the program on the files of the machine; it fails with 1. -/
def main (args : List String) : IO UInt32 := do
  let argv := "forward-edit" :: args
  let before ← ForwardDecl.readFiles argv
  let outcome := ForwardDecl.Command.run argv before
  ForwardDecl.writeChanges before outcome.files
  IO.print outcome.stdout
  IO.eprint outcome.stderr
  match outcome.error with
  | none => return 0
  | some cause =>
    IO.eprintln ("Error: " ++ cause.message)
    return 1
