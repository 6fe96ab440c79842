import ForwardDecl.Error
import ForwardDecl.Text.Blank

/-! # Ignore lists

An ignore entry names a class declaration that adding leaves alone, by its
line number or by its class name.  Entries that come from outside may say both
or neither, so an entry is a pair and `IgnoreEntry.check` says whether it is
one of the two.  A list matters only through the set of its line numbers and
the set of its class names.
-/
namespace ForwardDecl

/-- A line number, counted from one, or a class name. -/
structure IgnoreEntry where
  line : Int
  className : String
  deriving DecidableEq, Repr

namespace IgnoreEntry

/-- The entry for a line number. -/
def ofLine (n : Nat) : IgnoreEntry := ⟨n, ""⟩

/-- The entry for a class name. -/
def ofClass (className : String) : IgnoreEntry := ⟨0, className⟩

/-- Whether the entry counts as a line number. -/
def isLine (e : IgnoreEntry) : Bool := decide (0 < e.line)

/-- The entry as it is typed. -/
def render (e : IgnoreEntry) : String :=
  if e.isLine then toString e.line else e.className

/-- An entry is either a positive line number or a class name that is not only
white space. -/
def check (e : IgnoreEntry) : Except Error Unit :=
  if e.line < 0 then .error (.config (.negativeIgnoreLine e.line))
  else if 0 < e.line ∧ e.className ≠ "" then
    .error (.config (.lineAndClass e.line e.className))
  else if e.line = 0 ∧ trimmed e.className = "" then .error (.config .emptyIgnore)
  else .ok ()

end IgnoreEntry

/-- Whether a word is one or more decimal digits. -/
def isNumeral (word : List Char) : Bool :=
  !word.isEmpty && word.all Char.isDigit

/-- The number that a word of decimal digits denotes. -/
def numeralValue (word : List Char) : Nat :=
  word.foldl (fun n c => 10 * n + (c.toNat - '0'.toNat)) 0

/-- The largest line number that can be written: line numbers are signed words
of 64 bits. -/
def maxLine : Nat := 0x7fffffffffffffff

/-- Read an entry: a word of digits is a line number and any other word is a
class name. -/
def IgnoreEntry.parse (word : String) : Except Error IgnoreEntry :=
  let w := trimmed word
  if w = "" then .error (.config .emptyIgnore)
  else if isNumeral w.toList then
    let n := numeralValue w.toList
    if 1 ≤ n ∧ n ≤ maxLine then .ok (.ofLine n)
    else .error (.config (.badIgnoreLine w))
  else .ok (.ofClass w)

/-- The entries that one source text is edited with.  They are consulted only
when declarations are added. -/
abbrev IgnoreList := List IgnoreEntry

namespace IgnoreList

/-- Read a list of entries; the first bad one is the error. -/
def parse (words : List String) : Except Error IgnoreList :=
  words.mapM IgnoreEntry.parse

/-- Check every entry; the first bad one is the error. -/
def check (l : IgnoreList) : Except Error Unit :=
  l.forM IgnoreEntry.check

/-- Whether the line with this number is to be left alone. -/
def ignoresLine (l : IgnoreList) (number : Nat) : Bool :=
  l.any fun e => e.isLine && e.line = number

/-- Whether the class with this name is to be left alone. -/
def ignoresClass (l : IgnoreList) (className : List Char) : Bool :=
  l.any fun e => !e.isLine && e.className.toList = className

/-- The line numbers of a list, ascending and each once. -/
def lines (l : IgnoreList) : List Int :=
  ((l.filter IgnoreEntry.isLine).map IgnoreEntry.line).eraseDups.mergeSort

/-- The class names of a list, ascending and each once. -/
def classes (l : IgnoreList) : List String :=
  ((l.filter (!·.isLine)).map IgnoreEntry.className).eraseDups.mergeSort

/-- The entries as they are typed. -/
def render (l : IgnoreList) : List String :=
  l.map IgnoreEntry.render

end IgnoreList

end ForwardDecl
