import ForwardDecl.Diff.Matching

/-! # Unified diffs

A unified diff shows the change from one text to another as hunks: runs of
changed lines with up to three equal lines around them.  A text is taken as
the pieces between its LFs, so that a text that ends in LF has an empty last
line, and a missing LF at the end shows as a change.
-/
namespace ForwardDecl
namespace Diff

/-- Lines `[aLo, aHi)` of the first text against lines `[bLo, bHi)` of the
second, which are equal to them or take their place. -/
structure Span where
  equal : Bool
  aLo : Nat
  aHi : Nat
  bLo : Nat
  bHi : Nat
  deriving DecidableEq, Repr

/-- The spans from line `a` of the first text and line `b` of the second, up to
`aEnd` and `bEnd`, where the given blocks are what is equal. -/
def spansFrom (aEnd bEnd a b : Nat) : List Block → List Span
  | [] => if a < aEnd ∨ b < bEnd then [⟨false, a, aEnd, b, bEnd⟩] else []
  | m :: ms =>
    let same : Span := ⟨true, m.a, m.a + m.size, m.b, m.b + m.size⟩
    let rest := same :: spansFrom aEnd bEnd (m.a + m.size) (m.b + m.size) ms
    if a < m.a ∨ b < m.b then ⟨false, a, m.a, b, m.b⟩ :: rest else rest

/-- The number of equal lines that are shown on either side of a change. -/
def context : Nat := 3

/-- The last lines of an equal span, to stand before a change. -/
def Span.ending (s : Span) : Span :=
  if s.equal then { s with aLo := max s.aLo (s.aHi - context), bLo := max s.bLo (s.bHi - context) }
  else s

/-- The first lines of an equal span, to stand after a change. -/
def Span.beginning (s : Span) : Span :=
  if s.equal then { s with aHi := min s.aHi (s.aLo + context), bHi := min s.bHi (s.bLo + context) }
  else s

/-- Whether a hunk shows no change. -/
def isIdle : List Span → Bool
  | [] => true
  | [s] => s.equal
  | _ => false

/-- Cut spans into hunks at equal spans that are too long to be shown whole.
The spans of the hunk that is being made stand last one first. -/
def hunksFrom (open_ : List Span) : List Span → List (List Span)
  | [] => if isIdle open_ then [] else [open_.reverse]
  | s :: rest =>
    if s.equal ∧ 2 * context < s.aHi - s.aLo then
      (s.beginning :: open_).reverse :: hunksFrom [s.ending] rest
    else hunksFrom (s :: open_) rest

/-- Change the last item of a list. -/
def mapLast {α : Type} (f : α → α) : List α → List α
  | [] => []
  | [x] => [f x]
  | x :: y :: rest => x :: mapLast f (y :: rest)

/-- Change the first item of a list. -/
def mapFirst {α : Type} (f : α → α) : List α → List α
  | [] => []
  | x :: rest => f x :: rest

/-- The hunks of a change. -/
def hunks (a b : Array String) : List (List Span) :=
  hunksFrom [] (mapLast Span.beginning (mapFirst Span.ending
    (spansFrom a.size b.size 0 0 (blocks a b))))

/-- The lines `[lo, hi)` in the head of a hunk: counted from one, with their
number unless it is one; no lines are named by the line before them. -/
def renderRange (lo hi : Nat) : String :=
  if hi - lo = 1 then toString (lo + 1)
  else if hi - lo = 0 then toString lo ++ ",0"
  else toString (lo + 1) ++ "," ++ toString (hi - lo)

/-- Lines `[lo, hi)` of a text, each with a mark in front. -/
def renderLines (mark : String) (text : Array String) (lo hi : Nat) : String :=
  String.join ((text.extract lo hi).toList.map fun line => mark ++ line ++ "\n")

def renderSpan (a b : Array String) (s : Span) : String :=
  if s.equal then renderLines " " a s.aLo s.aHi
  else renderLines "-" a s.aLo s.aHi ++ renderLines "+" b s.bLo s.bHi

def renderHunk (a b : Array String) (hunk : List Span) : String :=
  match hunk.head?, hunk.getLast? with
  | some first, some last =>
    "@@ -" ++ renderRange first.aLo last.aHi ++ " +" ++ renderRange first.bLo last.bHi ++ " @@\n" ++
      String.join (hunk.map (renderSpan a b))
  | _, _ => ""

/-- The pieces of a text between its LFs. -/
def pieces (text : List Char) : Array String :=
  ((text.splitOn '\n').map String.ofList).toArray

/-- The change from one text to another, for the file with this name; nothing
if the texts are equal. -/
def unified (name : String) (old new : List Char) : String :=
  if old = new then ""
  else
    let a := pieces old
    let b := pieces new
    "--- a/" ++ name ++ "\n+++ b/" ++ name ++ "\n" ++ String.join ((hunks a b).map (renderHunk a b))

end Diff
end ForwardDecl
