import ForwardDecl.Yaml.Source

/-! # Places in a document

A document is read from a place in it (`Cursor`), character by character.
Whoever looks ahead first says how far (`Lexing.need`), and no more blocks of
the file are read than that takes.  The end of the file is read as NUL, a
character that no document holds.

Everything that reads is a total function with a bound on the number of its
steps, `Cursor.size`: every step of a loop takes a character.
-/
namespace ForwardDecl
namespace Yaml

/-! ## Characters -/

/-- The end of a document. -/
def isEnd (c : Char) : Bool := c = '\x00'

/-- A character that ends a line. -/
def isBreak (c : Char) : Bool :=
  c = '\n' || c = '\r' || c = '\u0085' || c = '\u2028' || c = '\u2029'

def isBlank (c : Char) : Bool := c = ' ' || c = '\t'

/-- The end of a line or of the document. -/
def isLineEnd (c : Char) : Bool := isBreak c || isEnd c

/-- A blank, or the end of a line or of the document. -/
def isGap (c : Char) : Bool := isBlank c || isLineEnd c

/-- A character of an anchor, or of the name between the marks of a tag. -/
def isWordChar (c : Char) : Bool := c.isAlphanum || c = '_' || c = '-'

/-- The value of a hexadecimal digit. -/
def hexDigit? (c : Char) : Option Nat :=
  if c.isDigit then some (c.toNat - '0'.toNat)
  else if 'a' ≤ c ∧ c ≤ 'f' then some (c.toNat - 'a'.toNat + 10)
  else if 'A' ≤ c ∧ c ≤ 'F' then some (c.toNat - 'A'.toNat + 10)
  else none

/-- What a line end is read as. -/
def breakText (c : Char) : List Char :=
  if c = '\u2028' || c = '\u2029' then [c] else ['\n']

/-! ## Places -/

/-- A place in a document. -/
structure Cursor where
  /-- What has been read from here on. -/
  window : List Char
  /-- The blocks that have not been read. -/
  later : List (List Char)
  /-- Whether the document ends after these blocks. -/
  sound : Bool
  /-- Whether there was a byte order mark at the place where the last block had
  to be read. -/
  marked : Bool
  /-- The numbers of the line and of the column, counted from zero, and of the
  characters before this place. -/
  line : Nat
  col : Nat
  index : Nat
  /-- The number of line ends since the last character that is no blank. -/
  breaks : Nat
  /-- The number of characters of the document. -/
  size : Nat
  deriving DecidableEq, Repr

namespace Cursor

/-- The start of a document. -/
def start (s : Source) : Cursor where
  window := []
  later := s.blocks
  sound := s.sound
  marked := false
  line := 0
  col := 0
  index := 0
  breaks := 0
  size := s.size

/-- Whether `n` characters have been read from here on. -/
def holds (n : Nat) (window : List Char) : Bool :=
  n = 0 || !(window.drop (n - 1)).isEmpty

/-- Read blocks until there are `n` characters.  The end is read once, whether
that is enough or not. -/
def extend (n : Nat) (sound : Bool) (window : List Char) :
    List (List Char) → Option (List Char × List (List Char))
  | [] => if sound then some (window ++ ['\x00'], []) else none
  | block :: later =>
    if holds n (window ++ block) then some (window ++ block, later)
    else extend n sound (window ++ block) later

/-- The place with `n` characters read: nothing if they cannot be read. -/
def need (n : Nat) (c : Cursor) : Option Cursor :=
  if holds n c.window then some c
  else
    (extend n c.sound c.window c.later).map fun (window, later) =>
      { c with window, later, marked := window.head? = some '\ufeff' }

/-- The character `n` places further on. -/
def look (n : Nat) (c : Cursor) : Char := c.window.getD n '\x00'

/-- The place after a character of the same line. -/
def skip (c : Cursor) : Cursor :=
  { c with
    window := c.window.tail
    col := c.col + 1
    index := c.index + 1
    breaks := if isBlank (c.look 0) then c.breaks else 0 }

/-- The place after a line end. -/
def skipBreak (c : Cursor) : Cursor :=
  let past (window : List Char) (width : Nat) : Cursor :=
    { c with window, line := c.line + 1, col := 0, index := c.index + width, breaks := c.breaks + 1 }
  match c.window with
  | '\r' :: '\n' :: rest => past rest 2
  | x :: rest => if isBreak x then past rest 1 else c
  | [] => c

/-- Whether a line that begins here begins or ends a document: three equal
characters, and a gap after them. -/
def startsTriple (mark : Char) (c : Cursor) : Bool :=
  c.col = 0 && c.look 0 = mark && c.look 1 = mark && c.look 2 = mark && isGap (c.look 3)

def atDocumentMark (c : Cursor) : Bool :=
  c.startsTriple '-' || c.startsTriple '.'

end Cursor

/-! ## Reading -/

/-- Reading from a place, which fails if the document is malformed. -/
abbrev Lexing := StateT Cursor Option

namespace Lexing

/-- Read so many characters ahead. -/
def need (n : Nat) : Lexing Unit := do
  set (← (← get).need n)

/-- The character `n` places further on. -/
def look (n : Nat) : Lexing Char := do
  return (← get).look n

/-- Go on by a character. -/
def skip : Lexing Unit := modify Cursor.skip

/-- Go on by `n` characters. -/
def skips : (n : Nat) → Lexing Unit
  | 0 => return
  | n + 1 => do
    skip
    skips n

/-- Go on past a line end, and say what it is read as. -/
def takeBreak : Lexing (List Char) := do
  need 2
  let c ← get
  set c.skipBreak
  return if isBreak (c.look 0) then breakText (c.look 0) else []

/-- A bound for the number of steps of a loop that starts here. -/
def bound : Lexing Nat := do
  return (← get).size + 2

/-- Go on past characters that satisfy `p`; those so far stand last one
first. -/
def takeWhileFrom (p : Char → Bool) : (fuel : Nat) → (taken : List Char) → Lexing (List Char)
  | 0, _ => failure
  | fuel + 1, taken => do
    let c ← look 0
    if p c then
      skip
      need 1
      takeWhileFrom p fuel (c :: taken)
    else return taken.reverse

/-- Take characters that satisfy `p`. -/
def takeWhile (p : Char → Bool) : Lexing (List Char) := do
  need 1
  takeWhileFrom p (← bound) []

/-- Go on past blanks. -/
def skipBlanks : Lexing Unit := do
  let _ ← takeWhile isBlank

/-- Go on to the end of the line that `place` is on. -/
def toLineEnd (place : Nat) : (fuel : Nat) → Lexing Unit
  | 0 => failure
  | fuel + 1 => do
    need 1
    if isLineEnd (← look 0) then
      if place ≤ (← get).index then return
      let _ ← takeBreak
    else skip
    toLineEnd place fuel

/-! ## Comments -/

/-- Look for a comment after blanks, and after line ends if `lines` holds, at
most `left` characters away. -/
def findComment (lines : Bool) : (left : Nat) → (away : Nat) → Lexing (Option Nat)
  | 0, _ => return none
  | left + 1, away => do
    need (away + 1)
    let c ← look away
    if isBlank c || (lines && (c = '\n' || c = '\r')) then findComment lines left (away + 1)
    else return if c = '#' then some away else none

/-- Go on past the rest of a line, which may hold a comment and nothing else. -/
def restOfLine : Lexing Unit := do
  skipBlanks
  if (← look 0) = '#' then
    let _ ← takeWhile (!isLineEnd ·)
  guard (isLineEnd (← look 0))
  if isBreak (← look 0) then
    let _ ← takeBreak

/-- How far a comment is looked for. -/
def commentReach : Nat := 512

/-- Go on past the comment that begins so many characters further on. -/
def skipComment (away : Nat) : Lexing Unit := do
  toLineEnd ((← get).index + away) (← bound)

/-- Go on past a comment, and past those on the lines after it, to the end of
the last one.  Only line ends of ASCII are looked over for further comments. -/
def skipComments : (fuel : Nat) → (away : Nat) → Lexing Unit
  | 0, _ => failure
  | fuel + 1, away => do
    skipComment away
    need 2
    let c ← look 0
    if c = '\n' ∨ c = '\r' then
      match ← findComment true (commentReach - 1) 1 with
      | some next => skipComments fuel next
      | none => return

/-- Go on past a comment on the line where a token has ended. -/
def skipLineComment : Lexing Unit := do
  if (← get).breaks = 0 then
    match ← findComment false commentReach 0 with
    | some away => skipComment away
    | none => return

end Lexing
end Yaml
end ForwardDecl
