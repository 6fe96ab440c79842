import ForwardDecl.Text.Base64
import ForwardDecl.Text.Lossy
import ForwardDecl.Yaml.Timestamp

/-! # The tags of plain scalars

A scalar that is written without quotation marks and without a tag is a null,
a truth value, a number, a timestamp or a text, and only its characters tell
which.  Integers are written in base ten, with a leading zero in base eight,
or with one of the marks `0x`, `0o` and `0b`, and have to fit into 64 bits;
underscores between their digits do not count.
-/
namespace ForwardDecl
namespace Yaml

/-- The tag of a node: the short form of a standard tag, or what the document
says. -/
abbrev Tag := String

namespace Tag

def null : Tag := "!!null"
def bool : Tag := "!!bool"
def int : Tag := "!!int"
def float : Tag := "!!float"
def timestamp : Tag := "!!timestamp"
def str : Tag := "!!str"
def seq : Tag := "!!seq"
def map : Tag := "!!map"
def binary : Tag := "!!binary"
def merge : Tag := "!!merge"

/-- What the tags of the standard begin with when they are written in full. -/
def standard : String := "tag:yaml.org,2002:"

/-- The short form of a tag. -/
def short (tag : Tag) : Tag :=
  if standard.toList.isPrefixOf tag.toList then
    "!!" ++ String.ofList (tag.toList.drop standard.length)
  else tag

end Tag

namespace Scalar

/-! ## Integers -/

/-- The value of a digit in a base up to sixteen. -/
def digit? (base : Nat) (c : Char) : Option Nat :=
  let v :=
    if c.isDigit then c.toNat - '0'.toNat
    else if 'a' ≤ c ∧ c ≤ 'f' then c.toNat - 'a'.toNat + 10
    else if 'A' ≤ c ∧ c ≤ 'F' then c.toNat - 'A'.toNat + 10
    else base
  if v < base then some v else none

/-- The number that digits denote in a base. -/
def natural? (base : Nat) (cs : List Char) : Option Nat :=
  cs.foldlM (fun n c => (digit? base c).map (base * n + ·)) 0

/-- The number that digits denote, in the base that their first characters
tell. -/
def magnitude? (cs : List Char) : Option Nat :=
  match cs with
  | [] => none
  | '0' :: mark :: d :: rest =>
    if mark = 'x' ∨ mark = 'X' then natural? 16 (d :: rest)
    else if mark = 'o' ∨ mark = 'O' then natural? 8 (d :: rest)
    else if mark = 'b' ∨ mark = 'B' then natural? 2 (d :: rest)
    else natural? 8 (mark :: d :: rest)
  | '0' :: rest => natural? 8 rest
  | cs => natural? 10 cs

/-- The number with an optional sign that characters denote, if it fits into 64
bits as a signed or, without a sign, as an unsigned one. -/
def signed? (magnitude : List Char → Option Nat) (cs : List Char) : Option Int :=
  let within (bound : Nat) (n : Nat) : Option Nat := if n < bound then some n else none
  match cs with
  | '-' :: rest => ((magnitude rest).bind (within 0x8000000000000001)).map fun n => -(n : Int)
  | '+' :: rest => ((magnitude rest).bind (within 0x8000000000000000)).map Int.ofNat
  | _ => ((magnitude cs).bind (within 0x10000000000000000)).map Int.ofNat

/-- One or more digits of a base. -/
def digits? (base : Nat) (cs : List Char) : Option Nat :=
  if cs = [] then none else natural? base cs

/-- The integer that characters without underscores are.  After `0b` and `0o` a
sign is allowed too. -/
def integer? (cs : List Char) : Option Int :=
  match signed? magnitude? cs, cs with
  | some n, _ => some n
  | none, '0' :: 'b' :: rest => signed? (digits? 2) rest
  | none, '0' :: 'o' :: rest => signed? (digits? 8) rest
  | none, _ => none

/-! ## Decimal fractions -/

/-- A decimal: its sign, the digits before and after the point, and the
exponent. -/
structure Decimal where
  negative : Bool
  whole : List Char
  fraction : List Char
  exponent : Int
  deriving DecidableEq, Repr

/-- The exponent that stands at the end of a number. -/
def exponent? : List Char → Option Int
  | [] => some 0
  | e :: rest =>
    if e = 'e' ∨ e = 'E' then
      match rest with
      | '-' :: ds => (digits? 10 ds).map fun n => -(n : Int)
      | '+' :: ds => (digits? 10 ds).map Int.ofNat
      | ds => (digits? 10 ds).map Int.ofNat
    else none

/-- Read a decimal: digits, a point among or before them, and an exponent. -/
def decimal? (cs : List Char) : Option Decimal :=
  let (negative, unsigned) := match cs with
    | '-' :: rest => (true, rest)
    | '+' :: rest => (false, rest)
    | rest => (false, rest)
  let whole := unsigned.takeWhile Char.isDigit
  match unsigned.dropWhile Char.isDigit with
  | '.' :: rest =>
    let fraction := rest.takeWhile Char.isDigit
    if whole = [] ∧ fraction = [] then none
    else (exponent? (rest.dropWhile Char.isDigit)).map (⟨negative, whole, fraction, ·⟩)
  | rest => if whole = [] then none else (exponent? rest).map (⟨negative, whole, [], ·⟩)

/-- The least number that is too large for a double: half a unit beyond the
largest one. -/
def doubleBound : Nat := Nat.pow 2 1024 - Nat.pow 2 970

/-- Whether a decimal is within the range of doubles.  Its order of magnitude
settles that except near the bound. -/
def Decimal.inRange (d : Decimal) : Bool :=
  match (d.whole ++ d.fraction).dropWhile (· = '0') with
  | [] => true
  | significant =>
    let scale := d.exponent - d.fraction.length
    let order := scale + significant.length
    if order < 300 then true
    else if 320 < order then false
    else
      let n := (natural? 10 significant).getD 0
      if 0 ≤ scale then decide (n * Nat.pow 10 scale.toNat < doubleBound)
      else decide (n < doubleBound * Nat.pow 10 (-scale).toNat)

/-- The integer part of a decimal that is in range. -/
def Decimal.truncated (d : Decimal) : Int :=
  let n := (natural? 10 (d.whole ++ d.fraction)).getD 0
  let scale := d.exponent - d.fraction.length
  let size :=
    if n = 0 then 0
    else if 0 ≤ scale then n * Nat.pow 10 scale.toNat
    else if (d.whole ++ d.fraction).length < (-scale).toNat then 0
    else n / Nat.pow 10 (-scale).toNat
  if d.negative then -(size : Int) else size

/-- A decimal in the range of doubles. -/
def double? (cs : List Char) : Option Decimal :=
  (decimal? cs).filter Decimal.inRange

/-- Whether underscores stand only between digits. -/
def underscoresDivide : (digitBefore : Bool) → List Char → Bool
  | _, [] => true
  | digitBefore, '_' :: c :: rest => digitBefore && c.isDigit && underscoresDivide true rest
  | _, ['_'] => false
  | _, c :: rest => underscoresDivide c.isDigit rest

/-- Characters without their underscores. -/
def bare (cs : List Char) : List Char := cs.filter (· ≠ '_')

/-! ## Values -/

/-- What a scalar stands for. -/
inductive Value
  | null
  | truth (b : Bool)
  | integer (n : Int)
  /-- A float, by its integer part if it has one. -/
  | float (whole : Option Int)
  | timestamp
  | text (content : String)
  deriving DecidableEq, Repr

def isNullWord (value : String) : Bool :=
  ["", "~", "null", "Null", "NULL"].contains value

/-- The truth value that a plain word is. -/
def truth? (value : String) : Option Bool :=
  if ["true", "True", "TRUE"].contains value then some true
  else if ["false", "False", "FALSE"].contains value then some false
  else none

def isFloatWord (value : String) : Bool :=
  [".nan", ".NaN", ".NAN", ".inf", ".Inf", ".INF", "+.inf", "+.Inf", "+.INF", "-.inf", "-.Inf",
    "-.INF"].contains value

/-- What a plain scalar stands for. -/
def plainValue (value : String) : Value :=
  let cs := value.toList
  match isNullWord value, truth? value, isFloatWord value with
  | true, _, _ => .null
  | _, some b, _ => .truth b
  | _, _, true => .float none
  | _, _, _ =>
    match cs.head? with
    | some '.' =>
      match if underscoresDivide false cs then double? (bare cs) else none with
      | some d => .float (some d.truncated)
      | none => .text value
    | some c =>
      if c.isDigit ∨ c = '-' ∨ c = '+' then
        if Timestamp.isTimestamp cs then .timestamp
        else
          match integer? (bare cs), double? (bare cs) with
          | some n, _ => .integer n
          | none, some d => .float (some d.truncated)
          | none, none => .text value
      else .text value
    | none => .null

/-- The tag of a value. -/
def Value.tag : Value → Tag
  | null => .null
  | truth _ => .bool
  | integer _ => .int
  | float _ => .float
  | timestamp => .timestamp
  | text _ => .str

/-- The tag of a plain scalar. -/
def plainTag (value : String) : Tag := (plainValue value).tag

example : plainTag "0x1F" = .int ∧ plainTag "089" = .float ∧ plainTag "1_000" = .int := by
  decide +kernel

example : plainTag "18446744073709551615" = .int ∧ plainTag "18446744073709551616" = .float ∧
    plainTag "+9223372036854775808" = .float := by decide +kernel

example : plainTag ".py" = .str ∧ plainTag ".5" = .float ∧ plainTag ".1_5" = .float ∧
    plainTag ".5_" = .str ∧ plainTag "1e999" = .str := by decide +kernel

/-- Whether a tag says which of the plain values a scalar is. -/
def isPlainTag (tag : Tag) : Bool :=
  [Tag.null, Tag.bool, Tag.int, Tag.float, Tag.timestamp].contains tag

/-- What a scalar with a tag stands for: nothing if the tag does not fit the
characters.  An integer is a float too, if it fits into 64 bits with its sign.
Binary data is text in base 64, and under any other tag that is not the tag of a
plain value the characters stand for themselves. -/
def resolve? (tag : Tag) (value : String) : Option Value :=
  if tag = .binary then (Base64.decode? value).map fun bytes => .text (lossyText bytes)
  else if isPlainTag tag then
    match plainValue value with
    | .integer n =>
      if tag = .int then some (.integer n)
      else if tag = .float ∧ n < 0x8000000000000000 then some (.float (some n))
      else none
    | v => if v.tag = tag then some v else none
  else some (.text value)

end Scalar
end Yaml
end ForwardDecl
