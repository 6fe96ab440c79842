import ForwardDecl.Yaml.Reader
import ForwardDecl.Yaml.Scalar

/-! # The nodes of a document

The tokens of a document make scalars, sequences and mappings.  Every node has a
tag, written or told by its kind, and the number of the line that it starts on.
A reference stands for the node with its anchor, which may be a node around it,
so a document is a graph: nodes have numbers, and collections and references
hold the numbers of other nodes.

Only the first document of a file counts.  It is read by a machine that keeps
the collections that are open on a stack (`Frame`), so that nothing but the file
bounds how deep they may stand inside each other.  A node is put into its
collection as soon as it begins.
-/
namespace ForwardDecl
namespace Yaml

/-- The number of a node. -/
abbrev NodeId := Nat

/-- What a node holds. -/
inductive Content
  | scalar (value : String)
  | sequence (items : Array NodeId)
  | mapping (pairs : Array (NodeId × NodeId))
  /-- The name of an anchor, and the node that has it. -/
  | reference (name : String) (target : NodeId)
  deriving DecidableEq, Repr

/-- A node of a document. -/
structure Node where
  line : Nat
  tag : Tag
  content : Content
  deriving DecidableEq, Repr

/-- The nodes of a document by their numbers. -/
abbrev Graph := Array Node

namespace Graph

/-- The node with a number. -/
def node (g : Graph) (id : NodeId) : Node := g.getD id ⟨0, .null, .scalar ""⟩

/-- Put an item into a sequence. -/
def addItem (g : Graph) (parent item : NodeId) : Graph :=
  g.modify parent fun n =>
    match n.content with
    | .sequence items => { n with content := .sequence (items.push item) }
    | _ => n

/-- Put a key and its value into a mapping. -/
def addPair (g : Graph) (parent key value : NodeId) : Graph :=
  g.modify parent fun n =>
    match n.content with
    | .mapping pairs => { n with content := .mapping (pairs.push (key, value)) }
    | _ => n

end Graph

/-- What is to be read next inside a collection that is open. -/
inductive Frame
  /-- An item of an indented sequence, or its end. -/
  | blockItem (sequence : NodeId)
  /-- An item of a sequence without indentation of its own; any other token is
  its end. -/
  | indentlessItem (sequence : NodeId)
  /-- A key of an indented mapping, or its end. -/
  | blockKey (mapping : NodeId)
  | blockValue (mapping key : NodeId)
  /-- An item of a sequence in brackets, or its end. -/
  | flowItem (sequence : NodeId) (first : Bool)
  /-- The key of a mapping that is an item of a sequence in brackets. -/
  | pairKey (mapping : NodeId)
  | pairValue (mapping key : NodeId)
  | pairEnd
  /-- A key of a mapping in braces, or its end. -/
  | flowKey (mapping : NodeId) (first : Bool)
  | flowValue (mapping key : NodeId)
  /-- A value that is left out, with its colon. -/
  | flowNoValue (mapping key : NodeId)
  deriving DecidableEq, Repr

/-- The machine that reads the nodes of a document. -/
structure Builder where
  graph : Graph
  /-- The nodes with anchors, the latest one first. -/
  anchors : List (String × NodeId)
  /-- What the handles of tags stand for. -/
  handles : List (String × String)
  /-- What is open, the innermost one first. -/
  stack : List Frame

/-- Reading nodes, which fails if the document is malformed. -/
abbrev Building := StateT Builder Reading

namespace Building

def peek : Building Token := Reading.peek

def advance : Building Unit := Reading.advance

def advancePeek : Building Token := Reading.advancePeek

/-- Begin a node. -/
def add (line : Nat) (tag : Tag) (content : Content) : Building NodeId := do
  let id := (← get).graph.size
  modify fun c => { c with graph := c.graph.push ⟨line, tag, content⟩ }
  return id

/-- The null that stands where a node is left out. -/
def absent (t : Token) : Building NodeId := add t.line .null (.scalar "")

def addItem (sequence item : NodeId) : Building Unit :=
  modify fun c => { c with graph := c.graph.addItem sequence item }

def addPair (mapping key value : NodeId) : Building Unit :=
  modify fun c => { c with graph := c.graph.addPair mapping key value }

/-- Something is open. -/
def enter (frame : Frame) : Building Unit :=
  modify fun c => { c with stack := frame :: c.stack }

/-! ## Properties -/

/-- The properties in front of a node. -/
structure Properties where
  line : Nat
  anchor : Option String
  tag : Tag
  deriving DecidableEq, Repr

/-- What a tag is in full. -/
def fullTag (handle suffix : String) : Building Tag := do
  if handle = "" then return Tag.short suffix
  else
    let base ← (← get).handles.lookup handle
    return Tag.short (base ++ suffix)

/-- Read an anchor and a tag, in either order, and give the token after them. -/
def properties : Building (Properties × Token) := do
  let t ← peek
  match t.kind with
  | .anchor name =>
    let u ← advancePeek
    match u.kind with
    | .tag handle suffix =>
      let v ← advancePeek
      return (⟨t.line, some name, ← fullTag handle suffix⟩, v)
    | _ => return (⟨t.line, some name, ""⟩, u)
  | .tag handle suffix =>
    let u ← advancePeek
    match u.kind with
    | .anchor name =>
      let v ← advancePeek
      return (⟨t.line, some name, ← fullTag handle suffix⟩, v)
    | _ => return (⟨t.line, none, ← fullTag handle suffix⟩, u)
  | _ => return (⟨t.line, none, ""⟩, t)

/-- The tag of a node: a lone exclamation mark is as good as no tag. -/
def tagOr (tag otherwise : Tag) : Tag :=
  if tag = "" ∨ tag = "!" then otherwise else tag

/-- The tag of a scalar. -/
def scalarTag (tag : Tag) (value : String) (plain : Bool) : Tag :=
  tagOr tag <|
    if !plain then .str else if value = "<<" then .merge else Scalar.plainTag value

/-- Begin a node with its properties. -/
def addWith (p : Properties) (tag : Tag) (content : Content) : Building NodeId := do
  let id ← add p.line tag content
  match p.anchor with
  | some name => modify fun c => { c with anchors := (name, id) :: c.anchors }
  | none => pure ()
  return id

/-- Begin a sequence. -/
def addSequence (p : Properties) (frame : NodeId → Frame) : Building NodeId := do
  let id ← addWith p (tagOr p.tag .seq) (.sequence #[])
  enter (frame id)
  return id

/-- Begin a mapping. -/
def addMapping (p : Properties) (frame : NodeId → Frame) : Building NodeId := do
  let id ← addWith p (tagOr p.tag .map) (.mapping #[])
  enter (frame id)
  return id

/-! ## Nodes -/

/-- Read a scalar or a reference, or begin to read a collection.  Block
collections may stand where `block` holds, and a sequence without indentation of
its own where `indentless` holds.  An anchor or a tag alone makes an empty
scalar; nothing at all makes no node. -/
def node (block indentless : Bool) : Building NodeId := do
  let t ← peek
  match t.kind with
  | .reference name =>
    let target ← (← get).anchors.lookup name
    advance
    add t.line "" (.reference name target)
  | _ =>
    let (p, t) ← properties
    match t.kind with
    | .scalar text plain =>
      advance
      addWith p (scalarTag p.tag text plain) (.scalar text)
    | .flowSequenceStart =>
      advance
      addSequence p (.flowItem · true)
    | .flowMappingStart =>
      advance
      addMapping p (.flowKey · true)
    | kind =>
      if kind = .blockEntry ∧ indentless then addSequence p .indentlessItem
      else if kind = .blockSequenceStart ∧ block then
        advance
        addSequence p .blockItem
      else if kind = .blockMappingStart ∧ block then
        advance
        addMapping p .blockKey
      else
        guard (p.anchor.isSome ∨ p.tag ≠ "")
        addWith p (scalarTag p.tag "" true) (.scalar "")

/-- Read a node, or nothing if the token is one of those that end it. -/
def nodeUnless (t : Token) (ends : List TokenKind) (block indentless : Bool) (missing : Token) :
    Building NodeId :=
  if ends.contains t.kind then absent missing else node block indentless

/-- Go on reading inside a collection. -/
def step : Frame → Building Unit
  | .blockItem sequence => do
    let t ← peek
    match t.kind with
    | .blockEntry =>
      let u ← advancePeek
      enter (.blockItem sequence)
      addItem sequence (← nodeUnless u [.blockEntry, .blockEnd] true false t)
    | .blockEnd => advance
    | _ => failure
  | .indentlessItem sequence => do
    let t ← peek
    if t.kind = .blockEntry then
      let u ← advancePeek
      enter (.indentlessItem sequence)
      addItem sequence (← nodeUnless u [.blockEntry, .key, .value, .blockEnd] true false t)
  | .blockKey mapping => do
    let t ← peek
    match t.kind with
    | .key =>
      let u ← advancePeek
      if [.key, .value, .blockEnd].contains u.kind then
        enter (.blockValue mapping (← absent t))
      else keyThen (.blockValue mapping) true true
    | .blockEnd => advance
    | _ => failure
  | .blockValue mapping key => do
    let t ← peek
    enter (.blockKey mapping)
    if t.kind = .value then
      let u ← advancePeek
      addPair mapping key (← nodeUnless u [.key, .value, .blockEnd] true true t)
    else addPair mapping key (← absent t)
  | .flowItem sequence first => do
    let t ← peek
    if t.kind = .flowSequenceEnd then advance
    else
      let t ← if first then pure t else afterEntry t
      if t.kind = .flowSequenceEnd then advance
      else
        enter (.flowItem sequence false)
        if t.kind = .key then
          advance
          addItem sequence (← addMapping ⟨t.line, none, ""⟩ .pairKey)
        else addItem sequence (← node false false)
  | .pairKey mapping => do
    let t ← peek
    if [.value, .flowEntry, .flowSequenceEnd].contains t.kind then
      advance
      enter (.pairValue mapping (← absent t))
    else keyThen (.pairValue mapping) false false
  | .pairValue mapping key => do
    let t ← peek
    enter .pairEnd
    if t.kind = .value then
      let u ← advancePeek
      addPair mapping key (← nodeUnless u [.flowEntry, .flowSequenceEnd] false false u)
    else addPair mapping key (← absent t)
  | .pairEnd => do
    let _ ← peek
  | .flowKey mapping first => do
    let t ← peek
    if t.kind = .flowMappingEnd then advance
    else
      let t ← if first then pure t else afterEntry t
      if t.kind = .flowMappingEnd then advance
      else if t.kind = .key then
        let u ← advancePeek
        if [.value, .flowEntry, .flowMappingEnd].contains u.kind then
          enter (.flowValue mapping (← absent u))
        else keyThen (.flowValue mapping) false false
      else keyThen (.flowNoValue mapping) false false
  | .flowValue mapping key => do
    let t ← peek
    enter (.flowKey mapping false)
    if t.kind = .value then
      let u ← advancePeek
      addPair mapping key (← nodeUnless u [.flowEntry, .flowMappingEnd] false false u)
    else addPair mapping key (← absent t)
  | .flowNoValue mapping key => do
    let t ← peek
    enter (.flowKey mapping false)
    addPair mapping key (← absent t)
where
  /-- The token after a comma, which has to come first. -/
  afterEntry (t : Token) : Building Token := do
    guard (t.kind = .flowEntry)
    advancePeek
  /-- Read a key, which gets the next number; its value is read after all that
  is inside the key. -/
  keyThen (frame : NodeId → Frame) (block indentless : Bool) : Building Unit := do
    enter (frame (← get).graph.size)
    let _ ← node block indentless

/-- Read until nothing is open. -/
def finish : (fuel : Nat) → Building Unit
  | 0 => failure
  | fuel + 1 => do
    match (← get).stack with
    | [] => return
    | frame :: outer =>
      modify fun c => { c with stack := outer }
      step frame
      finish fuel

/-! ## Documents -/

/-- What handles stand for unless something else is said. -/
def standardHandles : List (String × String) := [("!", "!"), ("!!", Tag.standard)]

/-- Read the directives in front of a document, and give the token after them.
A version and each handle may be declared once. -/
def directives (versioned : Bool) : (fuel : Nat) → (t : Token) → Building Token
  | 0, _ => failure
  | fuel + 1, t => do
    match t.kind with
    | .directive (.version major minor) =>
      guard (!versioned ∧ major = 1 ∧ minor = 1)
      directives true fuel (← advancePeek)
    | .directive (.handle name base) =>
      guard (((← get).handles.lookup name).isNone)
      modify fun c => { c with handles := c.handles ++ [(name, base)] }
      directives versioned fuel (← advancePeek)
    | _ => return t

/-- Whether a token is a directive. -/
def isDirective : TokenKind → Bool
  | .directive _ => true
  | _ => false

/-- Read a node and all that is inside it. -/
def whole (fuel : Nat) : Building NodeId := do
  let root ← node true false
  finish fuel
  return root

/-- Read the first document, and give its outermost node if there is one. -/
def document (fuel : Nat) : Building (Option NodeId) := do
  let t ← peek
  if t.kind = .streamEnd then return none
  let explicit := isDirective t.kind || t.kind = .documentStart
  let t ← directives false fuel t
  modify fun c => { c with handles := c.handles ++ standardHandles }
  let root ←
    if explicit then do
      guard (t.kind = .documentStart)
      let u ← advancePeek
      if isDirective u.kind ∨ [.documentStart, .documentEnd, .streamEnd].contains u.kind then
        absent u
      else whole fuel
    else whole fuel
  let _ ← peek
  return some root

end Building

/-- A document: its nodes and, unless it is empty, the outermost one. -/
structure Document where
  graph : Graph
  root : Option NodeId
  deriving DecidableEq, Repr

/-- The first document of a file: nothing if the file is malformed. -/
def Document.ofBytes? (bytes : ByteArray) : Option Document :=
  let source := Source.ofBytes bytes
  let fuel := 32 * (source.size + 4)
  let read := (Building.document fuel).run ⟨#[], [], [], []⟩
  (read.run (.start source)).map fun ((root, c), _) => ⟨c.graph, root⟩

end Yaml
end ForwardDecl
