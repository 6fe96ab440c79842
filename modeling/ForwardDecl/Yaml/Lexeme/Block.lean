import ForwardDecl.Yaml.Cursor

/-! # Block scalars

A block scalar is the indented lines after a bar or an angle bracket.  After a
bar every line end counts; after an angle bracket a line end between two lines
that begin with no blank is folded, as in other scalars.  Behind the mark may
stand a sign, which says what becomes of the line ends after the last line, and
a digit, which says by how much the lines are indented.
-/
namespace ForwardDecl
namespace Yaml

/-- What becomes of the line ends after the last line: one stays, none, or
all. -/
inductive Chomping
  | clip
  | strip
  | keep
  deriving DecidableEq, Repr

namespace Lexing

/-- Take the sign behind the mark, if there is one. -/
def chomping : Lexing Chomping := do
  need 1
  let c ← look 0
  if c = '+' then
    skip
    return .keep
  else if c = '-' then
    skip
    return .strip
  else return .clip

/-- Take the digit behind the mark, if there is one; none is given as zero. -/
def increment : Lexing Nat := do
  need 1
  let c ← look 0
  if c = '0' then failure
  else if c.isDigit then
    skip
    return c.toNat - '0'.toNat
  else return 0

/-- Take the sign and the digit, in either order. -/
def blockMarks : Lexing (Chomping × Nat) := do
  match ← chomping with
  | .clip =>
    let n ← increment
    if n = 0 then return (.clip, 0)
    return (← chomping, n)
  | sign => return (sign, ← increment)

/-- Go on past spaces, before the column `indent` unless that is zero. -/
def indentation (indent : Nat) : (fuel : Nat) → Lexing Unit
  | 0 => failure
  | fuel + 1 => do
    let here ← get
    if (indent = 0 ∨ here.col < indent) ∧ here.look 0 = ' ' then
      skip
      need 1
      indentation indent fuel

/-- Take empty lines and the indentation of the line after them.  The answer is
the last column that indentation has reached, and the line ends. -/
def emptyLines (indent : Nat) :
    (fuel : Nat) → (deepest : Nat) → (breaks : List Char) → Lexing (Nat × List Char)
  | 0, _, _ => failure
  | fuel + 1, deepest, breaks => do
    need 1
    indentation indent (fuel + 1)
    let here ← get
    let deepest := max deepest here.col
    if (indent = 0 ∨ here.col < indent) ∧ here.look 0 = '\t' then failure
    if isBreak (here.look 0) then
      let text ← takeBreak
      emptyLines indent fuel deepest (breaks ++ text)
    else return (deepest, breaks)

/-- The lines of a block scalar that have been read: their text, last character
first, the line end after it, and those of the empty lines after that.  The
last line may have begun with a blank. -/
structure BlockText where
  text : List Char
  lineEnd : List Char
  empty : List Char
  blankLine : Bool
  deriving DecidableEq, Repr

/-- The text before a line that begins with a blank or not. -/
def BlockText.joined (b : BlockText) (folded blank : Bool) : List Char :=
  if folded ∧ !b.blankLine ∧ !blank ∧ b.lineEnd = ['\n'] then
    b.empty.reverse ++ (if b.empty = [] then ' ' :: b.text else b.text)
  else b.empty.reverse ++ (b.lineEnd.reverse ++ b.text)

/-- Take the lines that are indented by `indent`. -/
def blockLines (folded : Bool) (indent : Nat) : (fuel : Nat) → BlockText → Lexing BlockText
  | 0, _ => failure
  | fuel + 1, b => do
    let here ← get
    if here.col = indent ∧ !isEnd (here.look 0) then
      let blank := isBlank (here.look 0)
      let line ← takeWhile (!isLineEnd ·)
      let lineEnd ← takeBreak
      let (_, empty) ← emptyLines indent (fuel + 1) 0 []
      blockLines folded indent fuel
        ⟨line.reverse ++ b.joined folded blank, lineEnd, empty, blank⟩
    else return b

/-- Take a block scalar inside a collection at the column `outer`. -/
def block (folded : Bool) (outer : Int) : Lexing (List Char) := do
  skip
  let (chomping, increment) ← blockMarks
  restOfLine
  let given := if increment = 0 then 0 else (max outer 0).toNat + increment
  let (deepest, empty) ← emptyLines given (← bound) 0 []
  let indent := if given = 0 then max deepest (max (outer + 1).toNat 1) else given
  let b ← blockLines folded indent (← bound) ⟨[], [], empty, false⟩
  return match chomping with
    | .strip => b.text.reverse
    | .clip => b.text.reverse ++ b.lineEnd
    | .keep => b.text.reverse ++ b.lineEnd ++ b.empty

end Lexing
end Yaml
end ForwardDecl
