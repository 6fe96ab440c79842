/-! # The characters of a document

A document is a file, and a file is bytes.  Its first bytes tell how they stand
for characters: a byte order mark announces UTF-16, in one of two orders, or
UTF-8, which is also meant when there is none.

A file is read in blocks of 512 bytes, and only as far as it has to be.  So a
character that no document may hold does harm only if its block is read
(`Source.sound`).
-/
namespace ForwardDecl
namespace Yaml

/-- The characters of a file, block by block. -/
structure Source where
  blocks : List (List Char)
  /-- Whether the file ends after these blocks; otherwise it cannot be read
  any further. -/
  sound : Bool
  deriving DecidableEq, Repr

/-- How bytes stand for characters. -/
inductive Encoding
  | utf8
  | utf16 (bigEndian : Bool)
  deriving DecidableEq, Repr

/-- A character that a document may hold. -/
def isAllowed (c : Char) : Bool :=
  let n := c.toNat
  c = '\t' || c = '\n' || c = '\r' || (0x20 ≤ n && n ≤ 0x7e) || n = 0x85 ||
    (0xa0 ≤ n && n ≤ 0xfffd) || 0x10000 ≤ n

/-- What the next bytes are. -/
inductive Piece
  /-- A character of so many bytes. -/
  | char (c : Char) (width : Nat)
  /-- A character that is not there as a whole. -/
  | cut
  /-- No character that a document may hold. -/
  | bad
  deriving DecidableEq, Repr

namespace Piece

/-- The character with a number, if a document may hold it. -/
def ofNumber (n width : Nat) : Piece :=
  if h : n.isValidChar then
    if isAllowed (Char.ofNatAux n h) then .char (Char.ofNatAux n h) width else .bad
  else .bad

/-- How many bytes a character of UTF-8 with this first byte has; none if no
character has it. -/
def utf8Width (b : UInt8) : Nat :=
  if b < 0x80 then 1
  else if b < 0xc0 then 0
  else if b < 0xe0 then 2
  else if b < 0xf0 then 3
  else if b < 0xf8 then 4
  else 0

/-- The least number that is written with so many bytes. -/
def utf8Least (width : Nat) : Nat :=
  if width ≤ 1 then 0 else if width = 2 then 0x80 else if width = 3 then 0x800 else 0x10000

/-- The next character of UTF-8, of which at most `room` bytes are there. -/
def utf8 (room : Nat) : List UInt8 → Piece
  | [] => .cut
  | lead :: rest =>
    let width := utf8Width lead
    if width = 0 then .bad
    else
      let tail := rest.take (width - 1)
      if room < width ∨ tail.length + 1 < width then .cut
      else if tail.any fun b => b &&& 0xc0 ≠ 0x80 then .bad
      else
        let start := if width = 1 then lead.toNat
          else if width = 2 then lead.toNat - 0xc0
          else if width = 3 then lead.toNat - 0xe0
          else lead.toNat - 0xf0
        let n := tail.foldl (fun n b => 64 * n + (b.toNat - 0x80)) start
        if n < utf8Least width then .bad else ofNumber n width

/-- The next character of UTF-16, of which at most `room` bytes are there. -/
def utf16 (bigEndian : Bool) (room : Nat) (bytes : List UInt8) : Piece :=
  let unit (a b : UInt8) : Nat :=
    if bigEndian then 256 * a.toNat + b.toNat else 256 * b.toNat + a.toNat
  match bytes with
  | a :: b :: rest =>
    let first := unit a b
    if room < 2 then .cut
    else if 0xdc00 ≤ first ∧ first ≤ 0xdfff then .bad
    else if 0xd800 ≤ first ∧ first ≤ 0xdbff then
      match rest with
      | c :: d :: _ =>
        let second := unit c d
        if room < 4 then .cut
        else if 0xdc00 ≤ second ∧ second ≤ 0xdfff then
          ofNumber (0x10000 + 0x400 * (first - 0xd800) + (second - 0xdc00)) 4
        else .bad
      | _ => .cut
    else ofNumber first 2
  | _ => .cut

/-- The next character. -/
def next : Encoding → Nat → List UInt8 → Piece
  | .utf8 => utf8
  | .utf16 bigEndian => utf16 bigEndian

end Piece

namespace Source

/-- The number of bytes that are read at once. -/
def blockSize : Nat := 512

/-- Read bytes, of which `room` are left in the block.  Blocks and the
characters of a block stand last one first. -/
def read (encoding : Encoding) :
    (fuel room : Nat) → (block : List Char) → (before : List (List Char)) → List UInt8 → Source
  | 0, _, _, before, _ => ⟨before.reverse, false⟩
  | _ + 1, _, block, before, [] => ⟨(block.reverse :: before).reverse, true⟩
  | fuel + 1, room, block, before, b :: bytes =>
    match if room = 0 then .cut else Piece.next encoding room (b :: bytes) with
    | .char c width =>
      read encoding fuel (room - width) (c :: block) before ((b :: bytes).drop width)
    | .bad => ⟨before.reverse, false⟩
    | .cut =>
      if room = blockSize then ⟨before.reverse, false⟩
      else read encoding fuel blockSize [] (block.reverse :: before) (b :: bytes)

/-- The characters of a file.  An empty file is an empty line. -/
def ofBytes (bytes : ByteArray) : Source :=
  let decode (encoding : Encoding) (mark : Nat) (rest : List UInt8) : Source :=
    read encoding (2 * rest.length + 2) (blockSize - mark) [] [] rest
  match bytes.data.toList with
  | [] => ⟨[['\n']], true⟩
  | 0xff :: 0xfe :: rest => decode (.utf16 false) 2 rest
  | 0xfe :: 0xff :: rest => decode (.utf16 true) 2 rest
  | 0xef :: 0xbb :: 0xbf :: rest => decode .utf8 3 rest
  | rest => decode .utf8 0 rest

/-- The number of characters that can be read. -/
def size (s : Source) : Nat :=
  s.blocks.foldl (fun n block => n + block.length) 0

example : ofBytes ⟨#[0xff, 0xfe, 0x41, 0, 0x3d, 0xd8, 0, 0xde]⟩ = ⟨[['A', '😀']], true⟩ := by
  decide +kernel

example : ofBytes "aé".toUTF8 = ⟨[['a', 'é']], true⟩ ∧ (ofBytes ⟨#[0x61, 0xff]⟩).sound = false := by
  decide +kernel

end Source
end Yaml
end ForwardDecl
