import ForwardDecl.Yaml.Cursor

/-! # Gaps inside scalars

A scalar may go on after blanks and line ends.  What such a gap stands for shows
only when it is over: a single line end is a space.
-/
namespace ForwardDecl
namespace Yaml

/-- Blanks and line ends inside a scalar: the blanks on a line, or the first
line end and those after it. -/
structure Gap where
  blanks : List Char
  first : Option (List Char)
  more : List Char
  deriving DecidableEq, Repr

namespace Gap

def empty : Gap := ⟨[], none, []⟩

/-- Whether a line has ended. -/
def broken (g : Gap) : Bool := g.first.isSome

/-- One more blank; blanks at the start of a line do not count. -/
def blank (g : Gap) (c : Char) : Gap :=
  if g.broken then g else { g with blanks := g.blanks ++ [c] }

/-- One more line end; blanks before it do not count. -/
def lineEnd (g : Gap) (text : List Char) : Gap :=
  if g.broken then { g with more := g.more ++ text } else ⟨[], some text, []⟩

/-- A line end that is escaped leaves no trace. -/
def escaped : Gap := ⟨[], some [], []⟩

/-- What the gap stands for: a single line end is a space, and of several the
first is dropped. -/
def text (g : Gap) : List Char :=
  match g.first with
  | none => g.blanks
  | some ['\n'] => if g.more = [] then [' '] else g.more
  | some first => first ++ g.more

end Gap

namespace Lexing

/-- Take the rest of a gap.  At the start of a line, before the column `indent`,
it may hold no tab. -/
def gap (indent : Int) : (fuel : Nat) → Gap → Lexing Gap
  | 0, _ => failure
  | fuel + 1, g => do
    let here ← get
    let c := here.look 0
    if isBlank c then
      if g.broken ∧ here.col < indent ∧ c = '\t' then failure
      skip
      need 1
      gap indent fuel (g.blank c)
    else if isBreak c then
      let text ← takeBreak
      need 1
      gap indent fuel (g.lineEnd text)
    else return g

end Lexing
end Yaml
end ForwardDecl
