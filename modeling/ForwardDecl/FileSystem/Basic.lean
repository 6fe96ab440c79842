import ForwardDecl.FileSystem.Node
import ForwardDecl.Path

/-! # File systems

A file system is a directory tree, a working directory in it, and the present
time.  Its operations take paths as text and follow them name by name, through
symbolic links, the way every program sees the files of a machine.  Reading a
file moves its access time to the present and writing it moves its
modification time.  An operation that fails leaves the files as they are.
-/
namespace ForwardDecl

/-- The files of a machine, as a program that runs in a working directory sees
them. -/
structure FileSystem where
  root : Node
  cwd : Location
  now : Time
  wellFormed : root.WellFormed

/-- Where a path leads. -/
inductive Target
  /-- To a node, which is not a link. -/
  | found (loc : Location) (node : Node)
  /-- To a name that is free, in a directory. -/
  | absent (loc : Location)

/-- The number of symbolic links that one path may lead through. -/
def maxLinks : Nat := 40

/-- The number of bytes that a whole path may have. -/
def maxPathSize : Nat := 4095

/-- Follow names from a location.  A name in a directory leads to its entry, an
empty name and `.` lead nowhere else, `..` leads to the directory above, and a
link leads where its target does. -/
def Node.walk (root : Node) (links : Nat) (loc : Location) (names : List String) :
    Except FileFault Target :=
  match root.get? loc, names with
  | none, _ => .error .missing
  | some node, [] => .ok (.found loc node)
  | some (.dir es), name :: rest =>
    if name = "" ∨ name = "." then root.walk links loc rest
    else if name = ".." then root.walk links loc.dropLast rest
    else if maxNameSize < name.utf8ByteSize then .error .tooLong
    else
      match Entries.get? es name with
      | none => if rest = [] then .ok (.absent (loc ++ [name])) else .error .missing
      | some (.link target) =>
        match links with
        | 0 => .error .linkLoop
        | left + 1 =>
          root.walk left (if Path.isAbsolute target then [] else loc) (Path.segments target ++ rest)
      | some _ => root.walk links (loc ++ [name]) rest
  | some _, _ :: _ => .error .notDirectory
termination_by (links, names.length)

namespace FileSystem

/-- The file system without any files. -/
def empty (now : Time) : FileSystem :=
  ⟨.dir [], [], now, trivial⟩

/-- Put a node at a location. -/
def put (fs : FileSystem) (loc : Location) (node : Node) (h : node.WellFormed) : FileSystem :=
  { fs with
    root := Node.put node fs.root loc
    wellFormed := Node.WellFormed.put h fs.wellFormed loc }

/-- Put a file at a location. -/
def putFile (fs : FileSystem) (loc : Location) (f : File) : FileSystem :=
  fs.put loc (.file f) trivial

/-- Take away what is at a location. -/
def erase (fs : FileSystem) (loc : Location) : FileSystem :=
  { fs with root := fs.root.erase loc, wellFormed := fs.wellFormed.erase loc }

/-- What keeps a text from being a path, whatever the files are. -/
def pathFault? (path : String) : Option FileFault :=
  if path.toList.contains '\x00' then some .illegal
  else if path = "" then some .missing
  else if maxPathSize < path.utf8ByteSize then some .tooLong
  else none

/-- Where names lead, from the top or from the working directory. -/
def follow (fs : FileSystem) (absolute : Bool) (names : List String) : Except FileFault Target :=
  fs.root.walk maxLinks (if absolute then [] else fs.cwd) names

/-- Where a path leads. -/
def locate (fs : FileSystem) (path : String) : Except FileFault Target :=
  match pathFault? path with
  | some fault => .error fault
  | none => fs.follow (Path.isAbsolute path) (Path.segments path)

/-- Everything below the working directory, with its location there. -/
def contents (fs : FileSystem) : List (Location × Node) :=
  match fs.root.get? fs.cwd with
  | some node => node.descendants
  | none => []

/-! ## Looking -/

/-- What a path leads to. -/
def stat (fs : FileSystem) (path : String) : Except FileError Node :=
  match fs.locate path with
  | .ok (.found _ node) => .ok node
  | .ok (.absent _) => .error ⟨.stat, path, .missing⟩
  | .error fault => .error ⟨.stat, path, fault⟩

/-- The access and modification times of what a path leads to. -/
def times (fs : FileSystem) (path : String) : Except FileError (Time × Time) := do
  match ← fs.stat path with
  | .file f => .ok (f.accessed, f.modified)
  | _ => .ok (fs.now, fs.now)

/-- The entries of a directory. -/
def list (fs : FileSystem) (path : String) : Except FileError Entries :=
  match fs.locate path with
  | .ok (.found _ (.dir es)) => .ok es
  | .ok (.found _ _) => .error ⟨.opening, path, .notDirectory⟩
  | .ok (.absent _) => .error ⟨.opening, path, .missing⟩
  | .error fault => .error ⟨.opening, path, fault⟩

/-! ## Reading and writing -/

/-- The bytes of a file, which counts as an access to it. -/
def read (fs : FileSystem) (path : String) : Except FileError (ByteArray × FileSystem) :=
  match fs.locate path with
  | .ok (.found loc (.file f)) => .ok (f.bytes, fs.putFile loc { f with accessed := fs.now })
  | .ok (.found _ _) => .error ⟨.reading, path, .isDirectory⟩
  | .ok (.absent _) => .error ⟨.opening, path, .missing⟩
  | .error fault => .error ⟨.opening, path, fault⟩

/-- The permissions of a new file: nobody but the owner may write it. -/
def newPerm (perm : Nat) : Nat := perm &&& 0o755

/-- Write a file.  A file that is there keeps its permissions, and a new one
gets `perm`. -/
def write (fs : FileSystem) (path : String) (bytes : ByteArray) (perm : Nat) :
    Except FileError FileSystem :=
  match fs.locate path with
  | .ok (.found loc (.file f)) => .ok (fs.putFile loc { f with bytes, modified := fs.now })
  | .ok (.found _ _) => .error ⟨.opening, path, .isDirectory⟩
  | .ok (.absent loc) => .ok (fs.putFile loc ⟨bytes, newPerm perm, fs.now, fs.now⟩)
  | .error fault => .error ⟨.opening, path, fault⟩

/-- Set the access and modification times of a file. -/
def setTimes (fs : FileSystem) (path : String) (accessed modified : Time) : FileSystem :=
  match fs.locate path with
  | .ok (.found loc (.file f)) => fs.putFile loc { f with accessed, modified }
  | _ => fs

/-! ## Making directories -/

/-- The path of names, which stand last one first. -/
def pathOf (absolute : Bool) (names : List String) : String :=
  (if absolute then "/" else "") ++ Path.ofSegments names.reverse

/-- Make one directory.  Its name, the first of `names`, has to be free; a link
that leads nowhere is no free name.  The directory is called `shown`, a path of
`names`. -/
def makeDir (fs : FileSystem) (absolute : Bool) (names : List String) (shown : String) :
    Except FileError FileSystem :=
  let failed (fault : FileFault) : Except FileError FileSystem :=
    .error ⟨.makingDirectory, shown, fault⟩
  match pathFault? shown, names with
  | some fault, _ => failed fault
  | none, [] => failed .occupied
  | none, name :: parents =>
    match fs.follow absolute parents.reverse with
    | .error fault => failed fault
    | .ok (.absent _) => failed .missing
    | .ok (.found loc (.dir es)) =>
      if maxNameSize < name.utf8ByteSize then failed .tooLong
      else
        match Entries.get? es name with
        | some _ => failed .occupied
        | none => .ok (fs.put (loc ++ [name]) (.dir []) trivial)
    | .ok (.found _ _) => failed .notDirectory

/-- Make every directory that is missing on the way down some names, which stand
last one first.  Such a directory is called by its path with a slash behind
it. -/
def makeParents (absolute : Bool) : (names : List String) → FileSystem → Except FileError FileSystem
  | [], fs => .ok fs
  | name :: parents, fs =>
    match fs.follow absolute (name :: parents).reverse with
    | .ok (.found _ (.dir _)) => .ok fs
    | _ => do
      let made ← makeParents absolute parents fs
      made.makeDir absolute (name :: parents) (pathOf absolute (name :: parents) ++ "/")

/-- Make the directory of a path and every directory above it that is
missing. -/
def makeDirs (fs : FileSystem) (path : String) : Except FileError FileSystem :=
  let absolute := Path.isAbsolute path
  match (Path.cleanSegments path).reverse with
  | [] => .ok fs
  | name :: parents =>
    match fs.follow absolute (name :: parents).reverse with
    | .ok (.found _ (.dir _)) => .ok fs
    | .ok (.found _ _) =>
      .error ⟨.makingDirectory, pathOf absolute (name :: parents), .notDirectory⟩
    | _ => do
      let made ← makeParents absolute parents fs
      made.makeDir absolute (name :: parents) (pathOf absolute (name :: parents))

/-! ## Placing and deleting -/

/-- Put a node at a path, in the place of what is there, making the directories
above it that are missing. -/
def place (fs : FileSystem) (path : String) (node : Node) (h : node.WellFormed) :
    Except FileError FileSystem :=
  match (Path.cleanSegments path).reverse with
  | [] => .ok fs
  | name :: parents => do
    let made ← makeParents (Path.isAbsolute path) parents fs
    match made.follow (Path.isAbsolute path) parents.reverse with
    | .ok (.found loc _) => .ok ((made.erase (loc ++ [name])).put (loc ++ [name]) node h)
    | _ => .ok made

/-- Take away what a path names, with everything below it; a link is taken away
itself. -/
def delete (fs : FileSystem) (path : String) : FileSystem :=
  match (Path.cleanSegments path).reverse with
  | [] => fs
  | name :: parents =>
    match fs.follow (Path.isAbsolute path) parents.reverse with
    | .ok (.found loc _) => fs.erase (loc ++ [name])
    | _ => fs

end FileSystem
end ForwardDecl
