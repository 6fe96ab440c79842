import ForwardDecl.Yaml.Lexeme.Gap

/-! # Scalars in quotation marks

Inside double quotation marks a backslash makes an escape; inside single ones
the mark itself is written twice, and nothing else is escaped.
-/
namespace ForwardDecl
namespace Yaml

/-- The character that one letter after a backslash stands for. -/
def escape? (c : Char) : Option Char :=
  match c with
  | '0' => some '\x00'
  | 'a' => some '\x07'
  | 'b' => some '\x08'
  | 't' => some '\t'
  | '\t' => some '\t'
  | 'n' => some '\n'
  | 'v' => some '\x0b'
  | 'f' => some '\x0c'
  | 'r' => some '\r'
  | 'e' => some '\x1b'
  | ' ' => some ' '
  | '"' => some '"'
  | '\'' => some '\''
  | '\\' => some '\\'
  | 'N' => some '\u0085'
  | '_' => some '\u00a0'
  | 'L' => some '\u2028'
  | 'P' => some '\u2029'
  | _ => none

/-- How many digits follow a letter after a backslash. -/
def escapeLength? (c : Char) : Option Nat :=
  if c = 'x' then some 2 else if c = 'u' then some 4 else if c = 'U' then some 8 else none

/-- The character that hexadecimal digits denote. -/
def hexChar? (digits : List Char) : Option Char := do
  let n ← digits.foldlM (fun n c => (hexDigit? c).map (16 * n + ·)) 0
  if h : n.isValidChar then some (Char.ofNatAux n h) else none

namespace Lexing

/-- Take an escape, after whose backslash stands `letter`. -/
def escaped (letter : Char) : Lexing Char := do
  match escape? letter, escapeLength? letter with
  | some c, _ =>
    skips 2
    return c
  | none, some n =>
    skips 2
    need n
    let c ← hexChar? ((← get).window.take n)
    skips n
    return c
  | none, none => failure

/-- Take the characters of a scalar before its end or the next gap, last one
first.  The answer also says whether the gap is a line end that is escaped. -/
def quotedWord (mark : Char) : (fuel : Nat) → (word : List Char) → Lexing (List Char × Bool)
  | 0, _ => failure
  | fuel + 1, word => do
    let here ← get
    let c := here.look 0
    let d := here.look 1
    if isGap c then return (word, false)
    else if c = mark then
      if c = '\'' ∧ d = '\'' then
        skips 2
        need 2
        quotedWord mark fuel ('\'' :: word)
      else return (word, false)
    else if mark = '"' ∧ c = '\\' then
      if isBreak d then
        need 3
        skip
        modify Cursor.skipBreak
        return (word, true)
      else
        let e ← escaped d
        need 2
        quotedWord mark fuel (e :: word)
    else
      skip
      need 2
      quotedWord mark fuel (c :: word)

/-- Take the rest of a scalar and its last mark; the text so far stands last
character first. -/
def quotedFrom (mark : Char) : (fuel : Nat) → (text : List Char) → Lexing (List Char)
  | 0, _ => failure
  | fuel + 1, text => do
    need 4
    let here ← get
    if here.atDocumentMark || isEnd (here.look 0) then failure
    let (word, broken) ← quotedWord mark (fuel + 1) []
    need 1
    if (← look 0) = mark then
      skip
      return (word ++ text).reverse
    else
      let gap ← gap 0 (fuel + 1) (if broken then Gap.escaped else Gap.empty)
      quotedFrom mark fuel (gap.text.reverse ++ (word ++ text))

/-- Take a scalar between marks. -/
def quoted (mark : Char) : Lexing (List Char) := do
  skip
  quotedFrom mark (← bound) []

end Lexing
end Yaml
end ForwardDecl
