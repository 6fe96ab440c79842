/-! # Lines of a text

A text is a list of characters and a line is a list of characters without its
terminator.  LF, CR LF and a lone CR all end a line.  Reading a text as lines
(`splitLines`) and writing lines as a text (`joinLines`) are the only two
crossings between the views; every line that is written gets an LF, so a text
written from lines is read back as the same lines.
-/
namespace ForwardDecl

/-- A line of a text, without its terminator. -/
abbrev Line := List Char

/-- The text with every line end, CR LF or CR or LF, written as LF. -/
def unifyEnds : List Char → List Char
  | [] => []
  | '\r' :: '\n' :: cs => '\n' :: unifyEnds cs
  | c :: cs => (if c = '\r' then '\n' else c) :: unifyEnds cs

/-- Put a character in front of the first line, which is made if there is none. -/
def consLine (c : Char) : List Line → List Line
  | [] => [[c]]
  | l :: ls => (c :: l) :: ls

/-- The lines of a text whose line ends are all LF.  What follows the last LF
is a line only when it is not empty. -/
def splitUnified : List Char → List Line
  | [] => []
  | c :: cs => if c = '\n' then [] :: splitUnified cs else consLine c (splitUnified cs)

/-- The lines of a text.  A final terminator does not open one more line, so
the empty text has no lines. -/
def splitLines (text : List Char) : List Line :=
  splitUnified (unifyEnds text)

/-- The text of some lines: each of them, ended by LF. -/
def joinLines (lines : List Line) : List Char :=
  lines.flatMap (· ++ ['\n'])

@[simp] theorem splitUnified_nil : splitUnified [] = [] := rfl

@[simp] theorem splitUnified_newline (cs : List Char) :
    splitUnified ('\n' :: cs) = [] :: splitUnified cs := rfl

theorem splitUnified_cons {c : Char} (h : c ≠ '\n') (cs : List Char) :
    splitUnified (c :: cs) = consLine c (splitUnified cs) := by
  simp [splitUnified, h]

@[simp] theorem joinLines_nil : joinLines [] = [] := rfl

@[simp] theorem joinLines_cons (l : Line) (ls : List Line) :
    joinLines (l :: ls) = l ++ '\n' :: joinLines ls := by
  simp [joinLines]

end ForwardDecl
