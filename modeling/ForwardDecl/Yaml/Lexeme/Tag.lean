import ForwardDecl.Text.Lossy
import ForwardDecl.Yaml.Cursor
import ForwardDecl.Yaml.Source

/-! # Anchors, tags and directives

A node may have a name, its anchor, and a tag.  A tag is written in full between
angle brackets, or as a handle and a suffix; what a handle stands for can be
declared in front of a document.  A byte of a tag can be written as two
hexadecimal digits behind a percent sign.
-/
namespace ForwardDecl
namespace Yaml

/-- A character that may stand in a tag as itself. -/
def isTagChar (c : Char) : Bool :=
  isWordChar c || ";/?:@&=+$,.!~*'()[]".toList.contains c

/-- A directive in front of a document. -/
inductive Directive
  | version (major minor : Nat)
  /-- What a handle stands for. -/
  | handle (name base : String)
  deriving DecidableEq, Repr

namespace Lexing

/-- Take the name of an anchor, behind its mark. -/
def anchorName : Lexing (List Char) := do
  skip
  let name ← takeWhile isWordChar
  let c ← look 0
  guard (name ≠ [] ∧ (isGap c || "?:,]\x7d%@`".toList.contains c))
  return name

/-- Take a byte that is written with a percent sign. -/
def escapedByte : Lexing UInt8 := do
  need 3
  let here ← get
  guard (here.look 0 = '%')
  let high ← hexDigit? (here.look 1)
  let low ← hexDigit? (here.look 2)
  skips 3
  return (16 * high + low).toUInt8

/-- Take bytes that go on a character. -/
def escapedTail : (n : Nat) → Lexing (List UInt8)
  | 0 => return []
  | n + 1 => do
    let b ← escapedByte
    guard (b &&& 0xc0 = 0x80)
    return b :: (← escapedTail n)

/-- Take a character that is written with percent signs. -/
def escapedBytes : Lexing (List UInt8) := do
  let lead ← escapedByte
  let width := Piece.utf8Width lead
  guard (width ≠ 0)
  return lead :: (← escapedTail (width - 1))

/-- Take the characters of a tag; the bytes so far stand last one first. -/
def tagBytes : (fuel : Nat) → (bytes : List UInt8) → Lexing (List UInt8)
  | 0, _ => failure
  | fuel + 1, bytes => do
    let c ← look 0
    if c = '%' then
      let more ← escapedBytes
      need 1
      tagBytes fuel (more.reverse ++ bytes)
    else if isTagChar c then
      skip
      need 1
      tagBytes fuel (c.toNat.toUInt8 :: bytes)
    else return bytes.reverse

/-- Take the characters of a tag. -/
def tagText : Lexing String := do
  need 1
  return lossyText ⟨(← tagBytes (← bound) []).toArray⟩

/-- Take a handle: an exclamation mark, a word and, if it is there, a second
mark. -/
def tagHandle : Lexing (List Char) := do
  need 1
  guard ((← look 0) = '!')
  skip
  let word ← takeWhile isWordChar
  if (← look 0) = '!' then
    skip
    return '!' :: word ++ ['!']
  else return '!' :: word

/-- Whether a handle has a second mark. -/
def isWholeHandle (handle : List Char) : Bool :=
  decide (1 < handle.length) && handle.getLast? = some '!'

/-- Take a tag: a handle, which is empty if the tag is written in full, and what
is behind it. -/
def tag : Lexing (String × String) := do
  need 2
  let found ←
    if (← look 1) = '<' then do
      skips 2
      let text ← tagText
      guard (text ≠ "" ∧ (← look 0) = '>')
      skip
      pure ("", text)
    else do
      let handle ← tagHandle
      let text ← tagText
      if isWholeHandle handle then
        guard (text ≠ "")
        pure (String.ofList handle, text)
      else
        let suffix := String.ofList handle.tail ++ text
        pure (if suffix = "" then ("", "!") else ("!", suffix))
  need 1
  guard (isGap (← look 0))
  return found

/-- Take a number of one or two digits. -/
def versionNumber : Lexing Nat := do
  let digits ← takeWhile Char.isDigit
  guard (digits ≠ [] ∧ digits.length ≤ 2)
  return digits.foldl (fun n c => 10 * n + (c.toNat - '0'.toNat)) 0

/-- Take the number of a version. -/
def version : Lexing Directive := do
  skipBlanks
  let major ← versionNumber
  guard ((← look 0) = '.')
  skip
  return .version major (← versionNumber)

/-- Take a handle and what it stands for. -/
def handleDirective : Lexing Directive := do
  skipBlanks
  let handle ← tagHandle
  guard (handle = ['!'] ∨ isWholeHandle handle)
  need 1
  guard (isBlank (← look 0))
  skipBlanks
  let base ← tagText
  guard (base ≠ "")
  need 1
  guard (isGap (← look 0))
  return .handle (String.ofList handle) base

/-- Take a directive and its line. -/
def directive : Lexing Directive := do
  skip
  let name ← takeWhile isWordChar
  guard (isGap (← look 0))
  let found ←
    if name = "YAML".toList then version
    else if name = "TAG".toList then handleDirective
    else failure
  restOfLine
  return found

end Lexing
end Yaml
end ForwardDecl
