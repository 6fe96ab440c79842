import ForwardDecl.Yaml.Lexeme.Gap

/-! # Plain scalars

A plain scalar is written without quotation marks.  It ends before a colon with
a gap after it, before a comment, before a document mark, and before a line with
too little indentation; between brackets it ends before every mark that has a
meaning there, and indentation does not matter.
-/
namespace ForwardDecl
namespace Yaml

/-- Whether a plain scalar ends before the character `c`, which `d` follows. -/
def endsPlain (flow : Bool) (c d : Char) : Bool :=
  (c = ':' && isGap d) ||
    (flow && (c = ',' || c = '?' || c = '[' || c = ']' || c = '\x7b' || c = '\x7d'))

/-- Whether a plain scalar may begin with the character `c`, which `d`
follows. -/
def startsPlain (flow : Bool) (c d : Char) : Bool :=
  !(isGap c || "-?:,[]\x7b\x7d#&*!|>'\"%@`".toList.contains c) || (c = '-' && !isBlank d) ||
    (!flow && (c = '?' || c = ':') && !isGap d)

namespace Lexing

/-- Take the characters of a plain scalar before the next gap, last one
first. -/
def plainWord (flow : Bool) : (fuel : Nat) → (word : List Char) → Lexing (List Char)
  | 0, _ => failure
  | fuel + 1, word => do
    let here ← get
    let c := here.look 0
    if isGap c || endsPlain flow c (here.look 1) then return word
    else
      skip
      need 2
      plainWord flow fuel (c :: word)

/-- Take a plain scalar, whose text so far stands last character first.  The
answer also says whether a line has ended after it. -/
def plainFrom (flow : Bool) (indent : Int) :
    (fuel : Nat) → (text : List Char) → Gap → Lexing (List Char × Bool)
  | 0, _, _ => failure
  | fuel + 1, text, gap => do
    need 4
    let here ← get
    if here.atDocumentMark || here.look 0 = '#' then return (text.reverse, gap.broken)
    else
      let word ← plainWord flow (fuel + 1) []
      let (text, gap) :=
        if word = [] then (text, gap) else (word ++ (gap.text.reverse ++ text), Gap.empty)
      let c ← look 0
      if isBlank c || isBreak c then
        let gap ← Lexing.gap indent (fuel + 1) gap
        if !flow ∧ (← get).col < indent then return (text.reverse, gap.broken)
        else plainFrom flow indent fuel text gap
      else return (text.reverse, gap.broken)

/-- Take a plain scalar.  Outside brackets its further lines are indented by at
least `indent`. -/
def plain (flow : Bool) (indent : Int) : Lexing (List Char × Bool) := do
  plainFrom flow indent (← bound) [] Gap.empty

end Lexing
end Yaml
end ForwardDecl
