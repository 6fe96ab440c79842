import ForwardDecl.Text.Blank

/-! # Where the import goes

The import belongs before the first statement of a module that is not its
docstring.  Comments, empty lines and a `#!` line in front are passed over.  A
docstring is an expression statement of string literals, which may be wrapped
in parentheses and written as several literals side by side; quotation marks
and `#` inside a literal do not end it.

The scanner walks over the characters that are left of the current line and
the lines after it.  Every step uses up at least one character or one line, so
it ends on every text, whether or not that is well formed.
-/
namespace ForwardDecl
namespace Docstring

/-- The byte order mark. -/
def byteOrderMark : Char := '\ufeff'

/-- A line without a byte order mark in front. -/
def dropMark (l : Line) : Line :=
  match l with
  | [] => []
  | c :: cs => if c = byteOrderMark then cs else c :: cs

/-- Whether a line holds code: it is neither blank nor only a comment. -/
def holdsCode (l : Line) : Bool :=
  match trimWhile isSpace (dropMark l) with
  | [] => false
  | c :: _ => c ≠ '#'

/-- The number of the first line with code among `lines`, the first of which
has number `start`; the number after the last line if there is none. -/
def nextStatement (start : Nat) (lines : List Line) : Nat :=
  start + (lines.takeWhile (!holdsCode ·)).length

/-! ## String literals -/

/-- What a string literal finds in the rest of its line. -/
inductive LineScan
  /-- The closing quotation marks; the characters after them are left. -/
  | closed (after : List Char)
  /-- The end of the line, after a backslash or not. -/
  | ran (escaped : Bool)
  deriving DecidableEq, Repr

/-- Whether the characters begin with the closing marks; if so, what is after
them. -/
def closing? (mark : Char) (triple : Bool) (cs : List Char) : Option (List Char) :=
  match triple, cs with
  | false, a :: rest => if a = mark then some rest else none
  | true, a :: b :: c :: rest => if a = mark ∧ b = mark ∧ c = mark then some rest else none
  | _, _ => none

/-- Look for the end of a literal in the rest of a line.  A backslash takes the
character after it along. -/
def scanLine (mark : Char) (triple : Bool) : List Char → LineScan
  | [] => .ran false
  | ['\\'] => .ran true
  | '\\' :: _ :: cs => scanLine mark triple cs
  | c :: cs =>
    match closing? mark triple (c :: cs) with
    | some after => .closed after
    | none => scanLine mark triple cs

/-- A place in a text: the number of a line, what is left of it, and the lines
after it. -/
structure Place where
  line : Nat
  cur : List Char
  rest : List Line
  deriving DecidableEq, Repr

/-- The number of characters and line ends of lines. -/
def linesSize : List Line → Nat
  | [] => 0
  | l :: ls => l.length + 1 + linesSize ls

/-- The number of characters and line ends that are left. -/
def Place.size (p : Place) : Nat :=
  p.cur.length + linesSize p.rest

/-- The start of the next line. -/
def Place.nextLine? (p : Place) : Option Place :=
  match p.rest with
  | [] => none
  | l :: ls => some ⟨p.line + 1, l, ls⟩

/-- The place after the literal whose opening marks stand just before a place.
A literal in single marks goes on in the next line only after a backslash. -/
def closeLiteral (mark : Char) (triple : Bool) (line : Nat) (cur : List Char) (rest : List Line) :
    Option Place :=
  match scanLine mark triple cur with
  | .closed after => some ⟨line, after, rest⟩
  | .ran escaped =>
    match rest with
    | [] => none
    | l :: ls => if triple || escaped then closeLiteral mark triple (line + 1) l ls else none

/-- The characters after the optional letter that may stand before a string. -/
def dropStringLetter (cs : List Char) : List Char :=
  match cs with
  | [] => []
  | c :: rest => if c = 'r' || c = 'R' || c = 'u' || c = 'U' then rest else c :: rest

/-- The place after the string literal that stands at a place. -/
def literal? (p : Place) : Option Place :=
  match dropStringLetter p.cur with
  | [] => none
  | mark :: cs =>
    if mark = '"' || mark = '\'' then
      match cs with
      | b :: c :: inner =>
        if b = mark ∧ c = mark then closeLiteral mark true p.line inner p.rest
        else closeLiteral mark false p.line cs p.rest
      | _ => closeLiteral mark false p.line cs p.rest
    else none

theorem closing?_length {mark : Char} {triple : Bool} {cs after : List Char}
    (h : closing? mark triple cs = some after) : after.length < cs.length := by
  unfold closing? at h
  split at h
  · split at h
    · simp at h; subst h; simp
    · contradiction
  · split at h
    · simp at h; subst h; simp; omega
    · contradiction
  · contradiction

theorem scanLine_length {mark : Char} {triple : Bool} {cs after : List Char}
    (h : scanLine mark triple cs = .closed after) : after.length < cs.length := by
  induction cs using scanLine.induct mark triple with
  | case1 => simp [scanLine] at h
  | case2 => simp [scanLine] at h
  | case3 c cs ih =>
    rw [scanLine] at h
    have := ih h
    simp only [List.length_cons]
    omega
  | case4 c cs h₁ h₂ a ha =>
    rw [scanLine, ha] at h
    · simp only [LineScan.closed.injEq] at h
      subst h
      exact closing?_length ha
    · exact h₁
    · exact h₂
  | case5 c cs h₁ h₂ hn ih =>
    rw [scanLine, hn] at h
    · have := ih h
      simp only [List.length_cons]
      omega
    · exact h₁
    · exact h₂

theorem closeLiteral_size {mark : Char} {triple : Bool} {line : Nat} {cur : List Char}
    {rest : List Line} {q : Place} (h : closeLiteral mark triple line cur rest = some q) :
    q.size < (Place.mk line cur rest).size := by
  induction rest generalizing line cur with
  | nil =>
    unfold closeLiteral at h
    split at h
    · rename_i after hs
      have := scanLine_length hs
      simp only [Option.some.injEq] at h
      subst h
      simpa [Place.size] using this
    · contradiction
  | cons l ls ih =>
    unfold closeLiteral at h
    split at h
    · rename_i after hs
      have := scanLine_length hs
      simp only [Option.some.injEq] at h
      subst h
      simpa [Place.size] using this
    · dsimp only at h
      split at h
      · have := ih h
        simp only [Place.size, linesSize] at this ⊢
        omega
      · contradiction

theorem dropStringLetter_length (cs : List Char) : (dropStringLetter cs).length ≤ cs.length := by
  unfold dropStringLetter
  split
  · simp
  · split <;> simp

/-- A literal uses up at least one character. -/
theorem literal?_size {p q : Place} (h : literal? p = some q) : q.size < p.size := by
  have hl := dropStringLetter_length p.cur
  unfold literal? at h
  split at h
  · contradiction
  · rename_i mark cs hc
    rw [hc] at hl
    simp only [List.length_cons] at hl
    split at h
    · split at h
      · simp only [List.length_cons] at hl
        split at h
        · have := closeLiteral_size h
          simp only [Place.size] at this ⊢
          omega
        · have := closeLiteral_size h
          simp only [Place.size, List.length_cons] at this ⊢
          omega
      · have := closeLiteral_size h
        simp only [Place.size] at this ⊢
        omega
    · contradiction

theorem nextLine?_size {p q : Place} (h : p.nextLine? = some q) : q.size < p.size := by
  unfold Place.nextLine? at h
  split at h
  · contradiction
  · rename_i l ls hr
    simp only [Option.some.injEq] at h
    subst h
    simp only [Place.size, hr, linesSize]
    omega

theorem length_dropWhile_le (p : Char → Bool) (cs : List Char) :
    (cs.dropWhile p).length ≤ cs.length :=
  (List.dropWhile_suffix p).length_le

/-! ## The docstring statement -/

/-- The token before the current place. -/
inductive Token
  | start
  | opening
  | string
  | closing
  deriving DecidableEq, Repr

/-- How a docstring statement ends. -/
inductive Ending
  /-- At the end of a line; the lines after it are left. -/
  | lineEnd (line : Nat) (rest : List Line)
  /-- At a semicolon, so that another statement stands on the same line. -/
  | semicolon (line : Nat)
  deriving DecidableEq, Repr

/-- Whether a statement may end here: a string has been read and every
parenthesis is closed. -/
def isDone (depth : Nat) (prev : Token) : Bool :=
  depth = 0 && (prev = .string || prev = .closing)

/-- The end of the docstring statement that goes on at a place, inside `depth`
open parentheses and after the token `prev`; none if the statement is anything
but a docstring. -/
def statementEnd? (depth : Nat) (prev : Token) (p : Place) : Option Ending :=
  match hcur : p.cur.dropWhile isInline with
  | [] =>
    if isDone depth prev then some (.lineEnd p.line p.rest)
    else if depth = 0 then none
    else
      match hnext : p.nextLine? with
      | none => none
      | some q =>
        have := nextLine?_size hnext
        statementEnd? depth prev q
  | c :: cs =>
    have hlen : cs.length < p.cur.length := by
      have := length_dropWhile_le isInline p.cur
      rw [hcur] at this
      exact this
    if c = '#' then
      if isDone depth prev then some (.lineEnd p.line p.rest)
      else if depth = 0 then none
      else
        match hnext : p.nextLine? with
        | none => none
        | some q =>
          have := nextLine?_size hnext
          statementEnd? depth prev q
    else if c = '\\' ∧ cs = [] then
      match hnext : p.nextLine? with
      | none => if isDone depth prev then some (.lineEnd p.line []) else none
      | some q =>
        have := nextLine?_size hnext
        statementEnd? depth prev q
    else if c = ';' then
      if isDone depth prev then some (.semicolon p.line) else none
    else if c = '(' then
      if prev = .start ∨ prev = .opening then
        have : (Place.mk p.line cs p.rest).size < p.size := by simp only [Place.size]; omega
        statementEnd? (depth + 1) .opening ⟨p.line, cs, p.rest⟩
      else none
    else if c = ')' then
      if depth = 0 ∨ ¬(prev = .string ∨ prev = .closing) then none
      else
        have : (Place.mk p.line cs p.rest).size < p.size := by simp only [Place.size]; omega
        statementEnd? (depth - 1) .closing ⟨p.line, cs, p.rest⟩
    else if prev = .closing then none
    else
      match hlit : literal? ⟨p.line, c :: cs, p.rest⟩ with
      | none => none
      | some q =>
        have : q.size < p.size := by
          have := literal?_size hlit
          simp only [Place.size, List.length_cons] at this ⊢
          omega
        statementEnd? depth .string q
termination_by p.size

/-- The number of the line, counted from zero, before which the import
belongs. -/
def insertionLine (lines : List Line) : Nat :=
  let first := nextStatement 0 lines
  match lines.drop first with
  | [] => first
  | l :: rest =>
    let cur := if first = 0 then dropMark l else l
    match statementEnd? 0 .start ⟨first, cur, rest⟩ with
    | none => first
    | some (.semicolon line) => line
    | some (.lineEnd line rest) => nextStatement (line + 1) rest

end Docstring
end ForwardDecl
