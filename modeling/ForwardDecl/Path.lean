import ForwardDecl.Error

/-! # Paths

A path is text whose segments are divided by slashes.  `Path.clean` gives the
shortest path that names the same place without looking at the files: empty
and `.` segments are dropped and `..` takes back the segment before it.  Paths
that are relative to a root are required to be in that form, so that a path
has one spelling and can be looked up as text.
-/
namespace ForwardDecl
namespace Path

/-- The pieces of a path between its slashes, empty ones included. -/
def segments (path : String) : List String :=
  (path.toList.splitOn '/').map String.ofList

/-- Whether a path starts at the top of the file system. -/
def isAbsolute (path : String) : Bool :=
  path.toList.head? = some '/'

/-- Whether a suffix looks like one: a point and something after it. -/
def isSuffix (suffix : String) : Bool :=
  suffix.toList.head? = some '.' && 1 < suffix.length

/-- Write segments with slashes between them. -/
def ofSegments (names : List String) : String :=
  "/".intercalate names

/-- Take one more segment onto the cleaned segments so far, which stand last
one first.  At the top of the file system `..` leads nowhere else. -/
def cleanStep (rooted : Bool) (done : List String) (name : String) : List String :=
  if name = "" ∨ name = "." then done
  else if name = ".." then
    match done with
    | [] => if rooted then [] else [".."]
    | last :: rest => if last = ".." then ".." :: done else rest
  else name :: done

/-- The cleaned segments of a path, first one first. -/
def cleanSegments (path : String) : List String :=
  ((segments path).foldl (cleanStep (isAbsolute path)) []).reverse

/-- The shortest path for the same place. -/
def clean (path : String) : String :=
  let names := cleanSegments path
  if isAbsolute path then "/" ++ ofSegments names
  else if names = [] then "."
  else ofSegments names

/-- The place that `rest` names below `base`, cleaned.  An empty path takes no
part. -/
def join (base rest : String) : String :=
  if base = "" then (if rest = "" then "" else clean rest)
  else if rest = "" then clean base
  else clean (base ++ "/" ++ rest)

/-- The last segment of a path, trailing slashes aside. -/
def base (path : String) : String :=
  match (segments path).reverse.dropWhile (· = "") with
  | [] => if path = "" then "." else "/"
  | name :: _ => name

/-- Check that every path is relative to a root and clean; `field` is where
the paths were given. -/
def checkRelative (field : String) (paths : List String) : Except Error Unit :=
  paths.forM fun path =>
    if path = "" then .error (.config (.badRelativePath field path .empty))
    else if isAbsolute path then .error (.config (.badRelativePath field path .absolute))
    else if clean path ≠ path then .error (.config (.badRelativePath field path .unclean))
    else .ok ()

example : clean "a//b/./c/../d/" = "a/b/d" := by decide +kernel

example : clean "../../a" = "../../a" ∧ clean "/../a" = "/a" ∧ clean "" = "." := by decide +kernel

example : join "." "a.py" = "a.py" ∧ join "./b" "a.py" = "b/a.py" := by decide +kernel

example : base "a/b/" = "b" ∧ base "//" = "/" ∧ base "" = "." := by decide +kernel

end Path
end ForwardDecl
