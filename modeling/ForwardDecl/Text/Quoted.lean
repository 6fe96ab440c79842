import ForwardDecl.Text.Printable

/-! # Quoted text

A message shows a text that came from outside between quotation marks, with
everything that could not be read back escaped.  The double-quoted form is for
texts and the single-quoted form for one character; they differ only in which
of the two marks has to be escaped.
-/
namespace ForwardDecl

/-- The last `width` hexadecimal digits of `n`, in lower case. -/
def hexDigits : (width : Nat) → (n : Nat) → List Char
  | 0, _ => []
  | w + 1, n => hexDigits w (n / 16) ++ [Nat.digitChar (n % 16)]

/-- One character inside quotation marks `mark`. -/
def escapeChar (mark c : Char) : List Char :=
  if c = mark || c = '\\' then ['\\', c]
  else if isPrintable c then [c]
  else if c = '\x07' then ['\\', 'a']
  else if c = '\x08' then ['\\', 'b']
  else if c = '\x0c' then ['\\', 'f']
  else if c = '\n' then ['\\', 'n']
  else if c = '\r' then ['\\', 'r']
  else if c = '\t' then ['\\', 't']
  else if c = '\x0b' then ['\\', 'v']
  else if c.toNat < 0x20 || c.toNat = 0x7f then '\\' :: 'x' :: hexDigits 2 c.toNat
  else if c.toNat < 0x10000 then '\\' :: 'u' :: hexDigits 4 c.toNat
  else '\\' :: 'U' :: hexDigits 8 c.toNat

/-- A text between double quotation marks. -/
def quoteChars (cs : List Char) : String :=
  String.ofList ('"' :: cs.flatMap (escapeChar '"') ++ ['"'])

/-- A text between double quotation marks. -/
def quote (s : String) : String :=
  quoteChars s.toList

/-- One character between single quotation marks. -/
def quoteChar (c : Char) : String :=
  String.ofList ('\'' :: escapeChar '\'' c ++ ['\''])

example : quote "a\"b\\c\n\t é" = "\"a\\\"b\\\\c\\n\\t é\"" := by decide +kernel

example : quoteChar '\'' = "'\\''" := by decide +kernel

end ForwardDecl
