import ForwardDecl.Text.Lines

/-! # White space

Three sets of blank characters occur, and they are not the same set.

* `isPad`: what may stand around a marker line (space, tab, form feed,
  vertical tab).  The *stripped form* of a line is the line without it.
* `isInline`: what may stand between the tokens of a statement (space, tab,
  form feed).
* `isSpace`: the White_Space characters of Unicode, used for words that are
  typed by hand (modes, ignore entries) and for telling code from empty lines.
-/
namespace ForwardDecl

/-- Space, tab, form feed or vertical tab. -/
def isPad (c : Char) : Bool :=
  c = ' ' || c = '\t' || c = '\x0c' || c = '\x0b'

/-- Space, tab or form feed. -/
def isInline (c : Char) : Bool :=
  c = ' ' || c = '\t' || c = '\x0c'

/-- A character with the White_Space property.  U+001C to U+001F and U+200B do
not have it. -/
def isSpace (c : Char) : Bool :=
  (0x09 ≤ c.toNat && c.toNat ≤ 0x0d) || c = ' ' || c.toNat = 0x85 || c.toNat = 0xa0 ||
    c.toNat = 0x1680 || (0x2000 ≤ c.toNat && c.toNat ≤ 0x200a) || c.toNat = 0x2028 ||
    c.toNat = 0x2029 || c.toNat = 0x202f || c.toNat = 0x205f || c.toNat = 0x3000

/-- Drop the longest ending whose characters all satisfy `p`. -/
def dropEndWhile (p : Char → Bool) (cs : List Char) : List Char :=
  (cs.reverse.dropWhile p).reverse

/-- Drop the longest beginning and the longest ending whose characters all
satisfy `p`. -/
def trimWhile (p : Char → Bool) (cs : List Char) : List Char :=
  dropEndWhile p (cs.dropWhile p)

/-- The stripped form of a line: the line without the padding around it. -/
def stripped (l : Line) : Line :=
  trimWhile isPad l

/-- The padding in front of the first other character of a line. -/
def indentOf (l : Line) : Line :=
  l.takeWhile isPad

/-- A word without the white space around it. -/
def trimmed (word : String) : String :=
  String.ofList (trimWhile isSpace word.toList)

/-- The stripped form has nothing left to strip at its front. -/
theorem dropWhile_head (p : Char → Bool) (cs : List Char) {c : Char} {r : List Char}
    (h : cs.dropWhile p = c :: r) : p c = false := by
  have hhead := List.head?_dropWhile_not p cs
  rwa [h] at hhead

/-- Every mark that pads a line is white space. -/
theorem isSpace_of_isPad {c : Char} (h : isPad c = true) : isSpace c = true := by
  simp only [isPad, Bool.or_eq_true, decide_eq_true_eq] at h
  rcases h with ((rfl | rfl) | rfl) | rfl <;> decide

end ForwardDecl
