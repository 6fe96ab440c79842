/-! # Bytes shown as text

Bytes that are not UTF-8 can still be shown: every byte that belongs to no
character is shown as the replacement character.
-/
namespace ForwardDecl

/-- What stands for a byte that belongs to no character. -/
def replacement : Char := '\ufffd'

/-- The characters of bytes from position `i` on. -/
def lossyChars (bytes : ByteArray) (i : Nat) : List Char :=
  if _h : i < bytes.size then
    match bytes.utf8DecodeChar? i with
    | some c => c :: lossyChars bytes (i + c.utf8Size)
    | none => replacement :: lossyChars bytes (i + 1)
  else []
termination_by bytes.size - i
decreasing_by
  · have := c.utf8Size_pos
    omega
  · omega

/-- Bytes as text, with the replacement character for every byte that belongs
to no character. -/
def lossyText (bytes : ByteArray) : String :=
  String.ofList (lossyChars bytes 0)

end ForwardDecl
