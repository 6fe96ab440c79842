import Std.Data.HashMap

/-! # Matching two lists of lines

The lines that two texts have in common are found as blocks: the longest block
of equal lines first, the earliest of several equally long ones, and then the
same before it and after it.  In a long second text a line that occurs very
often does not start a block, but a block is still extended over such lines.
-/
namespace ForwardDecl
namespace Diff

/-- Equal runs of `size` lines, from line `a` of the first text and from line
`b` of the second. -/
structure Block where
  a : Nat
  b : Nat
  size : Nat
  deriving DecidableEq, Repr

/-- Where each line of a text stands, in ascending order. -/
def positions (text : Array String) : Std.HashMap String (Array Nat) :=
  text.zipIdx.foldl
    (fun index (line, i) => index.alter line fun seen => some ((seen.getD #[]).push i)) ∅

/-- A text counts as long from this many lines on. -/
def longText : Nat := 200

/-- Where each line stands that may start a block: in a long text a line may
stand on one line in a hundred, and on one more. -/
def seeds (text : Array String) : Std.HashMap String (Array Nat) :=
  let n := text.size
  if n < longText then positions text
  else (positions text).filter fun _ places => places.size ≤ n / 100 + 1

/-- The best block so far, and for each line of the second text the length of
the run of equal lines that ends there. -/
structure Search where
  best : Block
  runs : Std.HashMap Nat Nat

/-- Go on by line `i` of the first text, which stands at `places` in the second. -/
def Search.step (lo hi i : Nat) (places : Array Nat) (s : Search) : Search :=
  places.foldl (fun (t : Search) j =>
    if j < lo ∨ hi ≤ j then t
    else
      let k := (if j = 0 then 0 else s.runs.getD (j - 1) 0) + 1
      { best := if t.best.size < k then ⟨i + 1 - k, j + 1 - k, k⟩ else t.best
        runs := t.runs.insert j k }) ⟨s.best, ∅⟩

/-- Extend a block to the front as long as the lines before it are equal. -/
def extendFront (a b : Array String) (aLo bLo : Nat) (m : Block) : Block :=
  if _h : aLo < m.a ∧ bLo < m.b ∧ a[m.a - 1]? = b[m.b - 1]? then
    extendFront a b aLo bLo ⟨m.a - 1, m.b - 1, m.size + 1⟩
  else m
termination_by m.a

/-- Extend a block to the end as long as the lines after it are equal. -/
def extendEnd (a b : Array String) (aHi bHi : Nat) (m : Block) : Block :=
  if _h : m.a + m.size < aHi ∧ m.b + m.size < bHi ∧ a[m.a + m.size]? = b[m.b + m.size]? then
    extendEnd a b aHi bHi { m with size := m.size + 1 }
  else m
termination_by aHi - (m.a + m.size)

/-- The longest block in lines `[aLo, aHi)` of the first text and `[bLo, bHi)`
of the second. -/
def longest (a b : Array String) (index : Std.HashMap String (Array Nat))
    (aLo aHi bLo bHi : Nat) : Block :=
  let found := (List.range' aLo (aHi - aLo)).foldl
    (fun (s : Search) i => s.step bLo bHi i (index.getD (a[i]?.getD "") #[]))
    ⟨⟨aLo, bLo, 0⟩, ∅⟩
  extendEnd a b aHi bHi (extendFront a b aLo bLo found.best)

/-- All blocks in lines `[aLo, aHi)` of the first text and `[bLo, bHi)` of the
second, in order. -/
def blocksIn (a b : Array String) (index : Std.HashMap String (Array Nat))
    (aLo aHi bLo bHi : Nat) : List Block :=
  match longest a b index aLo aHi bLo bHi with
  | ⟨i, j, k⟩ =>
    if _h : 0 < k ∧ aLo ≤ i ∧ i + k ≤ aHi then
      let before := if aLo < i ∧ bLo < j then blocksIn a b index aLo i bLo j else []
      let after :=
        if i + k < aHi ∧ j + k < bHi then blocksIn a b index (i + k) aHi (j + k) bHi else []
      before ++ ⟨i, j, k⟩ :: after
    else []
termination_by aHi - aLo

/-- Make one block of blocks that follow each other without a gap. -/
def fuse : List Block → List Block
  | [] => []
  | m :: ms =>
    match fuse ms with
    | [] => [m]
    | n :: ns =>
      if m.a + m.size = n.a ∧ m.b + m.size = n.b then ⟨m.a, m.b, m.size + n.size⟩ :: ns
      else m :: n :: ns

/-- The blocks that two texts have in common. -/
def blocks (a b : Array String) : List Block :=
  fuse (blocksIn a b (seeds b) 0 a.size 0 b.size)

end Diff
end ForwardDecl
