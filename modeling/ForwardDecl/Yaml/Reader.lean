import ForwardDecl.Yaml.Token
import Std.Data.HashMap

/-! # Reading tokens

Tokens are read one after another and wait in line until they are used.  A
scalar or collection on one line may turn out to be a key, which shows only at
the colon behind it.  Until that is settled its place among the tokens is
remembered (`SimpleKey`), because the token that begins the key has to be put in
there.  For this reason a token that may still turn out to begin a key is not
used before more tokens have been read (`Reading.supply`).
-/
namespace ForwardDecl
namespace Yaml

/-- A scalar or collection that may turn out to be a key: the number of its
first token, and its place.  It is required to be one when it stands where the
keys of a block mapping stand. -/
structure SimpleKey where
  possible : Bool
  required : Bool
  token : Nat
  line : Nat
  col : Nat
  index : Nat
  deriving DecidableEq, Repr

/-- The reader of tokens between two tokens. -/
structure Reader where
  cur : Cursor
  /-- All tokens so far, and the number of those that have been used. -/
  tokens : Array Token
  used : Nat
  /-- The column of the innermost block collection, and of those around it;
  minus one outside of all. -/
  indent : Int
  outer : Array Int
  /-- Whether a key may begin here. -/
  keyAllowed : Bool
  /-- What may turn out to be a key, outside of all brackets and inside each
  pair of them, the innermost one last. -/
  keys : Array SimpleKey
  /-- For the number of a token that may turn out to begin a key, its place in
  `keys`. -/
  levels : Std.HashMap Nat Nat

/-- Reading tokens, which fails if the document is malformed. -/
abbrev Reading := StateT Reader Option

namespace Reader

/-- The reader at the start of a document. -/
def start (s : Source) : Reader where
  cur := .start s
  tokens := #[]
  used := 0
  indent := -1
  outer := #[]
  keyAllowed := true
  keys := #[⟨false, false, 0, 0, 0, 0⟩]
  levels := ∅

/-- The number of open brackets. -/
def flow (r : Reader) : Nat := r.keys.size - 1

/-- Put a token behind all others. -/
def push (r : Reader) (kind : TokenKind) (line : Nat) : Reader :=
  { r with tokens := r.tokens.push ⟨kind, line + 1⟩ }

/-- Put in a token before the one with number `n`.  If that one has been used,
the new token goes behind all others. -/
def insertAt (r : Reader) (n : Nat) (kind : TokenKind) (line : Nat) : Reader :=
  if n < r.used then r.push kind line
  else { r with tokens := r.tokens.insertIdxIfInBounds n ⟨kind, line + 1⟩ }

/-- How deep brackets, and block collections, may stand inside each other. -/
def maxDepth : Nat := 10000

/-- End the block collections whose column is greater than `col`. -/
def endBlocks (col : Int) : (fuel : Nat) → Reader → Reader
  | 0, r => r
  | fuel + 1, r =>
    if col < r.indent then
      endBlocks col fuel
        { r.push .blockEnd r.cur.line with
          indent := r.outer.back?.getD (-1)
          outer := r.outer.pop }
    else r

/-- End the block collections whose column is greater than `col`, unless
brackets are open. -/
def unroll (r : Reader) (col : Int) : Reader :=
  if r.flow = 0 then r.endBlocks col (r.outer.size + 1) else r

/-- Begin a block collection at a column, unless there is one already; its first
token goes before the one with number `n`. -/
def roll (r : Reader) (col n : Nat) (kind : TokenKind) (line : Nat) : Option Reader :=
  if r.flow = 0 ∧ r.indent < col then
    if maxDepth ≤ r.outer.size then none
    else some { r.insertAt n kind line with indent := col, outer := r.outer.push r.indent }
  else some r

/-- The innermost thing that may be a key. -/
def key (r : Reader) : SimpleKey := r.keys.back?.getD ⟨false, false, 0, 0, 0, 0⟩

/-- Put another thing that may be a key in the place of the innermost one. -/
def setKey (r : Reader) (k : SimpleKey) : Reader :=
  { r with keys := r.keys.pop.push k }

/-- Give up the innermost thing that might have been a key. -/
def removeKey (r : Reader) : Option Reader :=
  let k := r.key
  if k.possible then
    if k.required then none
    else some { r.setKey { k with possible := false } with levels := r.levels.erase k.token }
  else some r

/-- What begins here, as something that may be a key or not. -/
def keyHere (r : Reader) (possible required : Bool) : SimpleKey :=
  ⟨possible, required, r.tokens.size, r.cur.line, r.cur.col, r.cur.index⟩

/-- Remember that what begins here may turn out to be a key. -/
def saveKey (r : Reader) : Option Reader := do
  if r.keyAllowed then
    let r ← r.removeKey
    some { r.setKey (r.keyHere true (r.flow = 0 && r.indent = r.cur.col)) with
      levels := r.levels.insert r.tokens.size (r.keys.size - 1) }
  else some r

/-- How many characters a key may have. -/
def maxKey : Nat := 1024

/-- Whether something at a level still may be a key: it has to be on this line
and not too far back.  If it cannot, that is remembered; there is no answer if
it was required to be one. -/
def stillKey (r : Reader) (level : Nat) : Option (Bool × Reader) :=
  match r.keys[level]? with
  | none => some (false, r)
  | some k =>
    if !k.possible then some (false, r)
    else if k.line < r.cur.line ∨ k.index + maxKey < r.cur.index then
      if k.required then none
      else some (false, { r with keys := r.keys.setIfInBounds level { k with possible := false } })
    else some (true, r)

/-- Open brackets. -/
def enterFlow (r : Reader) : Option Reader :=
  if maxDepth ≤ r.flow then none
  else some { r with keys := r.keys.push (r.keyHere false false) }

/-- Close brackets, if any are open. -/
def leaveFlow (r : Reader) : Reader :=
  if r.flow = 0 then r
  else { r with levels := r.levels.erase r.key.token, keys := r.keys.pop }

end Reader

/-- Pass over blanks and comments; tabs are blanks if `tabs` holds.  A byte
order mark may stand at the start of a line; whether one does is told by the
place where the last block was read. -/
def Lexing.toText (tabs : Bool) : Lexing Unit := do
  need 1
  if (← get).col = 0 ∧ (← get).marked then skip
  let _ ← takeWhile fun c => c = ' ' || (tabs && c = '\t')
  if (← look 0) = '#' then skipComments (← bound) 0

namespace Reading

/-- Read from the present place. -/
def lex {α : Type} (l : Lexing α) : Reading α := do
  let r ← get
  let (a, cur) ← l.run r.cur
  set { r with cur }
  return a

/-- Change the reader. -/
def update (f : Reader → Option Reader) : Reading Unit := do
  set (← f (← get))

/-- Say whether a key may begin here. -/
def allowKey (allowed : Bool) : Reading Unit :=
  modify fun r => { r with keyAllowed := allowed }

/-- Put a token that begins on a line behind all others. -/
def push (kind : TokenKind) (line : Nat) : Reading Unit :=
  modify (·.push kind line)

/-- Take a mark of `n` characters as a token. -/
def mark (kind : TokenKind) (n : Nat) : Reading Unit := do
  push kind (← get).cur.line
  lex (Lexing.skips n)

/-- Pass over blanks, comments and line ends before the next token.  Where a key
may begin, a tab is no blank. -/
def toToken : (fuel : Nat) → Reading Unit
  | 0 => failure
  | fuel + 1 => do
    let flow := decide (0 < (← get).flow)
    let tabs := flow || !(← get).keyAllowed
    lex (Lexing.toText tabs)
    if isBreak ((← get).cur.look 0) then
      let _ ← lex Lexing.takeBreak
      if !flow then allowKey true
      toToken fuel

/-- The end of the document ends its last line and all block collections. -/
def streamEnd : Reading Unit := do
  modify fun r =>
    if r.cur.col = 0 then r
    else { r with cur := { r.cur with col := 0, line := r.cur.line + 1 } }
  update fun r => (r.unroll (-1)).removeKey
  allowKey false
  push .streamEnd (← get).cur.line

/-- A line that ends all block collections. -/
def documentLine : Reading Unit := do
  update fun r => (r.unroll (-1)).removeKey
  allowKey false

def directive : Reading Unit := do
  documentLine
  let line := (← get).cur.line
  push (.directive (← lex Lexing.directive)) line

def documentMark (kind : TokenKind) : Reading Unit := do
  documentLine
  mark kind 3

def openFlow (kind : TokenKind) : Reading Unit := do
  update Reader.saveKey
  update Reader.enterFlow
  allowKey true
  mark kind 1

def closeFlow (kind : TokenKind) : Reading Unit := do
  update Reader.removeKey
  modify Reader.leaveFlow
  allowKey false
  mark kind 1

def flowEntry : Reading Unit := do
  update Reader.removeKey
  allowKey true
  mark .flowEntry 1

/-- Begin a block collection here, unless there is one already.  Between
brackets there is none. -/
def beginBlock (kind : TokenKind) : Reading Unit := do
  guard (0 < (← get).flow ∨ (← get).keyAllowed)
  update fun r => r.roll r.cur.col r.tokens.size kind r.cur.line

def blockEntry : Reading Unit := do
  beginBlock .blockSequenceStart
  update Reader.removeKey
  allowKey true
  mark .blockEntry 1

def explicitKey : Reading Unit := do
  beginBlock .blockMappingStart
  update Reader.removeKey
  allowKey ((← get).flow = 0)
  mark .key 1

/-- Whether something at a level still may be a key. -/
def isStillKey (level : Nat) : Reading Bool := do
  let (isKey, r) ← (← get).stillKey level
  set r
  return isKey

/-- Take a colon.  If there is a key before it, the tokens that begin the key
and its mapping are put in. -/
def valueMark : Reading Unit := do
  if ← isStillKey (← get).flow then
    let k := (← get).key
    modify (·.insertAt k.token .key k.line)
    update fun r => r.roll k.col k.token .blockMappingStart k.line
    modify fun r => { r.setKey { k with possible := false } with levels := r.levels.erase k.token }
    allowKey false
  else
    beginBlock .blockMappingStart
    allowKey ((← get).flow = 0)
  mark .value 1

/-- Take something that may turn out to be a key and is none itself. -/
def keyPart (l : Lexing TokenKind) : Reading Unit := do
  update Reader.saveKey
  allowKey false
  let line := (← get).cur.line
  push (← lex l) line

def blockScalar (folded : Bool) : Reading Unit := do
  update Reader.removeKey
  allowKey true
  let line := (← get).cur.line
  let text ← lex (Lexing.block folded (← get).indent)
  push (.scalar (String.ofList text) false) line

def plainScalar : Reading Unit := do
  update Reader.saveKey
  let line := (← get).cur.line
  let flow := decide (0 < (← get).flow)
  let (text, lineEnded) ← lex (Lexing.plain flow ((← get).indent + 1))
  allowKey lineEnded
  push (.scalar (String.ofList text) true) line

/-- Read the token that begins with the character `c`, which `d` follows. -/
def token (c d : Char) : Reading Unit := do
  let flow := decide (0 < (← get).flow)
  if c = '[' then openFlow .flowSequenceStart
  else if c = '\x7b' then openFlow .flowMappingStart
  else if c = ']' then closeFlow .flowSequenceEnd
  else if c = '\x7d' then closeFlow .flowMappingEnd
  else if c = ',' then flowEntry
  else if c = '-' ∧ isGap d then blockEntry
  else if c = '?' ∧ (flow ∨ isGap d) then explicitKey
  else if c = ':' ∧ (flow ∨ isGap d) then valueMark
  else if c = '*' then keyPart do return .reference (String.ofList (← Lexing.anchorName))
  else if c = '&' then keyPart do return .anchor (String.ofList (← Lexing.anchorName))
  else if c = '!' then keyPart do
    let (handle, suffix) ← Lexing.tag
    return .tag handle suffix
  else if c = '|' ∧ !flow then blockScalar false
  else if c = '>' ∧ !flow then blockScalar true
  else if c = '\'' ∨ c = '"' then keyPart do
    return .scalar (String.ofList (← Lexing.quoted c)) false
  else if startsPlain flow c d then plainScalar
  else failure

/-- Read the next token, and the tokens that its indentation implies. -/
def next : Reading Unit := do
  toToken (← lex Lexing.bound)
  modify fun r => r.unroll r.cur.col
  lex (Lexing.need 4)
  let cur := (← get).cur
  if isEnd (cur.look 0) then streamEnd
  else if cur.col = 0 ∧ cur.look 0 = '%' then directive
  else if cur.startsTriple '-' then documentMark .documentStart
  else if cur.startsTriple '.' then documentMark .documentEnd
  else
    token (cur.look 0) (cur.look 1)
    if (← get).tokens.back?.map Token.kind ≠ some .blockEntry then lex Lexing.skipLineComment

/-- The number of tokens that have to wait in line before the first of them is
used. -/
def ahead : Nat := 3

/-- Read tokens until the first one in line can be used: there are two more
behind it, and it cannot turn out to begin a key any more. -/
def supply : (fuel : Nat) → Reading Unit
  | 0 => failure
  | fuel + 1 => do
    let waiting := (← get).tokens.size - (← get).used
    let level := (← get).levels[(← get).used]?
    let more ←
      if waiting < ahead then pure true
      else
        match level with
        | none => pure false
        | some level => isStillKey level
    if more then
      next
      supply fuel

/-- The next token. -/
def peek : Reading Token := do
  supply ((← lex Lexing.bound) + ahead)
  let r ← get
  return r.tokens.getD r.used ⟨.streamEnd, 0⟩

/-- Go on to the token after the next one. -/
def advance : Reading Unit :=
  modify fun r => { r with used := r.used + 1 }

/-- Go on past the next token and give the one after it. -/
def advancePeek : Reading Token := do
  advance
  peek

end Reading
end Yaml
end ForwardDecl
