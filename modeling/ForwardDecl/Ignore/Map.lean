import ForwardDecl.Ignore.Basic
import ForwardDecl.Path

/-! # Ignore maps

A tree of files is edited with one ignore list for each relative path.  The
map keeps the paths in the order in which they were first named, each once.
-/
namespace ForwardDecl

/-- Ignore lists by relative path. -/
abbrev IgnoreMap := List (String × IgnoreList)

namespace IgnoreMap

/-- The list for a path; a path that is not named has the empty list. -/
def get (m : IgnoreMap) (path : String) : IgnoreList :=
  (m.lookup path).getD []

/-- Put a list in the place of the one for a path. -/
def insert (m : IgnoreMap) (path : String) (list : IgnoreList) : IgnoreMap :=
  match m with
  | [] => [(path, list)]
  | (p, l) :: rest => if p = path then (path, list) :: rest else (p, l) :: insert rest path list

/-- Put more entries behind those for a path. -/
def extend (m : IgnoreMap) (path : String) (list : IgnoreList) : IgnoreMap :=
  m.insert path (m.get path ++ list)

/-- Put the entries of a second map behind those of the first, path by path. -/
def merge (m more : IgnoreMap) : IgnoreMap :=
  more.foldl (fun m (path, list) => m.extend path list) m

/-- Check every list; `context` names the place of the list for a path. -/
def check (context : String → String) (m : IgnoreMap) : Except Error Unit :=
  m.forM fun (path, list) => inContext (context path) list.check

/-- Divide a text at its last colon. -/
def splitLastColon? (pair : String) : Option (String × String) :=
  match pair.toList.reverse.span (· ≠ ':') with
  | (_, []) => none
  | (word, _ :: path) => some (String.ofList path.reverse, String.ofList word.reverse)

/-- Read `PATH:IGNORE`, where the path may itself hold colons. -/
def parsePair (pair : String) : Except Error (String × IgnoreEntry) := do
  match splitLastColon? pair with
  | none => .error (.config (.badIgnorePair pair))
  | some (path, word) =>
    if path = "" then .error (.config (.badIgnorePair pair))
    else
      let entry ← inContext ("invalid ignore " ++ quote pair) (IgnoreEntry.parse word)
      Path.checkRelative "--ignore" [trimmed path]
      return (trimmed path, entry)

/-- Read `PATH:IGNORE` pairs; entries for one path keep their order. -/
def parse (pairs : List String) : Except Error IgnoreMap :=
  pairs.foldlM (fun m pair => do
    let (path, entry) ← parsePair pair
    return m.extend path [entry]) []

end IgnoreMap

end ForwardDecl
