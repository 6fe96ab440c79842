/-! # Base 64

Bytes are written with 64 characters, four for three bytes.  The last group is
filled up with equals signs.  Line ends may stand anywhere and do not count.
-/
namespace ForwardDecl
namespace Base64

/-- The value of a character. -/
def digit? (c : Char) : Option Nat :=
  if 'A' ≤ c ∧ c ≤ 'Z' then some (c.toNat - 'A'.toNat)
  else if 'a' ≤ c ∧ c ≤ 'z' then some (c.toNat - 'a'.toNat + 26)
  else if c.isDigit then some (c.toNat - '0'.toNat + 52)
  else if c = '+' then some 62
  else if c = '/' then some 63
  else none

/-- The first `n` of the three bytes that four digits make. -/
def group (n : Nat) (a b c d : Nat) : List UInt8 :=
  [(4 * a + b / 16).toUInt8, (16 * (b % 16) + c / 4).toUInt8, (64 * (c % 4) + d).toUInt8].take n

/-- The bytes that characters without line ends stand for. -/
def decodeGroups : List Char → Option (List UInt8)
  | [] => some []
  | [a, b, '=', '='] => do return group 1 (← digit? a) (← digit? b) 0 0
  | [a, b, c, '='] => do return group 2 (← digit? a) (← digit? b) (← digit? c) 0
  | a :: b :: c :: d :: rest => do
    let bytes := group 3 (← digit? a) (← digit? b) (← digit? c) (← digit? d)
    return bytes ++ (← decodeGroups rest)
  | _ => none

/-- The bytes that a text stands for, if it is written in base 64. -/
def decode? (text : String) : Option ByteArray :=
  (decodeGroups (text.toList.filter fun c => c ≠ '\n' ∧ c ≠ '\r')).map fun bytes =>
    ⟨bytes.toArray⟩

example : decodeGroups "YWRk".toList = some [0x61, 0x64, 0x64] ∧
    decodeGroups "YQ==".toList = some [0x61] ∧ decodeGroups "Y".toList = none := by decide +kernel

end Base64
end ForwardDecl
