import ForwardDecl.Error
import ForwardDecl.Yaml.Node

/-! # Reading values from a document

A document is read into values of known types.  A node that does not fit is
noted, and reading goes on; all such problems are reported together.  A document
that cannot be read at all ends the reading at once.

A reference is read as the node that it stands for.  A document may not live on
references: when nearly all that has been read was read through references, it
is refused (`Decoding.isExcessive`), and so is a reference inside what it stands
for, if reading comes to it.

A mapping may take over the pairs of other mappings with the key `<<`.  Its own
pairs come first, and of the others the first one with a key counts.
-/
namespace ForwardDecl

open Yaml (NodeId Tag)

/-- What is known while a document is read. -/
structure Notes where
  problems : Array (Nat × FieldProblem)
  /-- How many nodes have been read, and how many of them through references. -/
  visited : Nat
  referred : Nat
  /-- The references that are being read. -/
  active : List NodeId
  /-- The keys that are not to be taken over any more, while the pairs of other
  mappings are taken over. -/
  taken : Option (List String)

/-- Reading from a document, noting the values that do not fit. -/
abbrev Decoding := ReaderT Yaml.Graph (EStateM DocumentProblem Notes)

namespace Decoding

/-- Note a problem with a value on a line. -/
def note (line : Nat) (problem : FieldProblem) : Decoding Unit :=
  modify fun s => { s with problems := s.problems.push (line, problem) }

/-- The node with a number. -/
def node (id : NodeId) : Decoding Yaml.Node := do
  return (← read).node id

/-! ## References -/

/-- The share of nodes, in parts of 360 millions, that may be read through
references when `visited` nodes have been read: 99 per cent of up to 400 000,
then less and less, down to ten per cent of four millions and more. -/
def allowedShare (visited : Nat) : Nat :=
  if visited ≤ 400000 then 356400000
  else if 4000000 ≤ visited then 36000000
  else 356400000 - 89 * (visited - 400000)

/-- Whether too many nodes have been read through references. -/
def isExcessive (visited referred : Nat) : Bool :=
  decide (100 < referred ∧ 1000 < visited ∧ visited * allowedShare visited < referred * 360000000)

/-- Count a node that is read. -/
def visit : Decoding Unit := do
  modify fun s =>
    { s with
      visited := s.visited + 1
      referred := if s.active = [] then s.referred else s.referred + 1 }
  let s ← get
  if isExcessive s.visited s.referred then throw .malformed

/-- Read a node, or the node that it stands for. -/
def follow {α : Type} (id : NodeId) (f : Yaml.Node → Decoding α) : Decoding α := do
  visit
  let n ← node id
  match n.content with
  | .reference _ target =>
    if (← get).active.contains id then throw .malformed
    modify fun s => { s with active := id :: s.active }
    visit
    let a ← f (← node target)
    modify fun s => { s with active := s.active.tail }
    return a
  | _ => f n

/-! ## Simple values -/

/-- Note that a node is not of the type that is wanted. -/
def mismatch (n : Yaml.Node) (wanted : String) : Decoding Unit :=
  let value := match n.content with
    | .scalar value => value
    | _ => ""
  note n.line (.mismatch n.tag value wanted)

/-- Whether two keys are taken for the same. -/
def sameKey (k l : Yaml.Node) : Bool :=
  match k.content, l.content with
  | .scalar v, .scalar w => v = w
  | .reference v _, .reference w _ => v = w
  | .sequence _, .sequence _ => true
  | .mapping _, .mapping _ => true
  | _, _ => false

/-- The text by which a repeated key is named. -/
def keyText (k : Yaml.Node) : String :=
  match k.content with
  | .scalar v => v
  | .reference name _ => name
  | _ => ""

/-- Every key that repeats an earlier one, in the order of the earlier ones. -/
def repeated : List Yaml.Node → List (Nat × FieldProblem)
  | [] => []
  | k :: ks =>
    (ks.filter (sameKey k)).map (fun other =>
      (other.line, FieldProblem.duplicateKey (keyText other) k.line)) ++ repeated ks

/-- Whether no key of a mapping is repeated; those that are get noted. -/
def keysDiffer (pairs : Array (NodeId × NodeId)) : Decoding Bool := do
  let keys ← pairs.toList.mapM fun (k, _) => node k
  let problems := repeated keys
  problems.forM fun (line, problem) => note line problem
  return problems.isEmpty

/-- What a scalar stands for. -/
def scalarValue (tag : Tag) (value : String) : Decoding Yaml.Scalar.Value :=
  match Yaml.Scalar.resolve? tag value with
  | some v => return v
  | none => throw .malformed

/-- Read a scalar with `f`, which gives nothing if it does not fit; a null gives
`null`, and a sequence or a mapping does not fit. -/
def scalar {α : Type} (wanted : String) (null : Option α)
    (f : String → Yaml.Scalar.Value → Option α) (n : Yaml.Node) : Decoding (Option α) := do
  match n.content with
  | .scalar value =>
    match ← scalarValue n.tag value with
    | .null => return null
    | v =>
      let found := f value v
      if found.isNone then mismatch n wanted
      return found
  | .mapping pairs =>
    if ← keysDiffer pairs then mismatch n wanted
    return none
  | _ =>
    mismatch n wanted
    return none

/-- A text: any scalar but null, as it is written. -/
def text (wanted : String) (id : NodeId) : Decoding (Option String) :=
  follow id <| scalar wanted none fun written v =>
    match v with
    | .text content => some content
    | _ => some written

/-- The truth value that a text stands for. -/
def wordTruth? (value : String) : Option Bool :=
  if ["y", "Y", "yes", "Yes", "YES", "on", "On", "ON"].contains value then some true
  else if ["n", "N", "no", "No", "NO", "off", "Off", "OFF"].contains value then some false
  else none

/-- A truth value: a plain one, or a text that stands for one. -/
def truth (id : NodeId) : Decoding (Option Bool) :=
  follow id <| scalar "bool" none fun _ v =>
    match v with
    | .truth b => some b
    | .text content => wordTruth? content
    | _ => none

/-- The least and the greatest integer of 64 bits. -/
def minInteger : Int := -0x8000000000000000
def maxInteger : Int := 0x7fffffffffffffff

/-- An integer of 64 bits; of a float the integer part counts. -/
def integer (id : NodeId) : Decoding (Option Int) :=
  follow id <| scalar "int" none fun _ v =>
    match v with
    | .integer n => if n ≤ maxInteger then some n else none
    | .float (some n) => if n ≤ maxInteger then some (max n minInteger) else none
    | _ => none

/-- A list, whose items that do not fit are left out. -/
def list {α : Type} (wanted : String) (item : NodeId → Decoding (Option α)) (id : NodeId) :
    Decoding (Option (List α)) :=
  follow id fun n => do
    match n.content with
    | .sequence items => return some ((← items.toList.mapM item).filterMap fun found => found)
    | _ => scalar wanted (some []) (fun _ _ => none) n

/-- A list of texts. -/
def texts : NodeId → Decoding (Option (List String)) :=
  list "[]string" (text "string")

/-! ## Mappings -/

/-- What a mapping is read into, a value of type `α`. -/
structure Shape (α : Type) where
  /-- The name of the type. -/
  type : String
  /-- The keys that the type knows, each of which can be set once; nothing if
  every key may be used, and a later one counts. -/
  fields : Option (List String)
  /-- What a null makes of the value; nothing if it stays as it is. -/
  null : Option α
  /-- What has to hold of the node. -/
  check : Yaml.Node → Decoding Unit
  /-- Set a key to the value of a node. -/
  set : α → String → NodeId → Decoding α

/-- A mapping that is read pair by pair: the value so far, the known keys that
have been set, the mapping to take over from, and the keys not to be taken over
any more. -/
structure Filling (α : Type) where
  value : α
  done : List String
  source : Option NodeId
  taken : Option (List String)

/-- Whether a key asks to take over the pairs of another mapping. -/
def isMergeKey (n : Yaml.Node) : Bool :=
  n.content = .scalar "<<" && n.tag = .merge

/-- Set a key. -/
def Filling.setKey {α : Type} (shape : Shape α) (s : Filling α) (key : NodeId) (name : String)
    (value : NodeId) : Decoding (Filling α) := do
  match shape.fields with
  | none => return { s with value := ← shape.set s.value name value }
  | some names =>
    if !names.contains name then return s
    else if s.done.contains name then
      note (← node key).line (.alreadySet name shape.type)
      return s
    else
      return { s with value := ← shape.set s.value name value, done := name :: s.done }

/-- Read a pair. -/
def Filling.pair {α : Type} (shape : Shape α) (s : Filling α) (key value : NodeId) :
    Decoding (Filling α) := do
  if isMergeKey (← node key) then return { s with source := some value }
  else
    match ← text "string" key with
    | none => return s
    | some name =>
      match s.taken with
      | none => s.setKey shape key name value
      | some names =>
        if names.contains name then return s
        else Filling.setKey shape { s with taken := some (name :: names) } key name value

/-- The keys of a mapping that are texts. -/
def textKeys (pairs : Array (NodeId × NodeId)) : Decoding (List String) := do
  let keys ← pairs.toList.mapM fun (key, _) => follow key fun n => do
    match n.content with
    | .scalar value =>
      match ← scalarValue n.tag value with
      | .text content => return some content
      | _ => return none
    | _ => throw .malformed
  return keys.filterMap id

/-- Whether a node is a mapping or stands for one. -/
def isMapping (id : NodeId) : Decoding Bool := do
  let holdsPairs : Yaml.Content → Bool
    | .mapping _ => true
    | _ => false
  match (← node id).content with
  | .reference _ target => return holdsPairs (← node target).content
  | content => return holdsPairs content

/-- The mappings whose pairs are taken over from a node: itself or its items. -/
def mergeSources (id : NodeId) : Decoding (List NodeId) := do
  match (← node id).content with
  | .sequence items => return items.toList
  | _ => return [id]

mutual

/-- Read a node into a value: nothing if it does not fit. -/
def readInto {α : Type} (shape : Shape α) (fuel : Nat) (a : α) (n : Yaml.Node) :
    Decoding (Option α) :=
  match fuel with
  | 0 => throw .malformed
  | fuel + 1 => do
    shape.check n
    match n.content with
    | .mapping pairs => fill shape fuel a pairs
    | _ => scalar shape.type shape.null (fun _ _ => none) n
termination_by structural fuel

/-- Read the pairs of a mapping, and then those that it takes over. -/
def fill {α : Type} (shape : Shape α) (fuel : Nat) (a : α) (pairs : Array (NodeId × NodeId)) :
    Decoding (Option α) :=
  match fuel with
  | 0 => throw .malformed
  | fuel + 1 => do
    if ← keysDiffer pairs then
      let taken := (← get).taken
      modify fun s => { s with taken := none }
      let s ← pairs.foldlM (fun s (key, value) => Filling.pair shape s key value)
        ⟨a, [], none, taken⟩
      modify fun notes => { notes with taken := s.taken }
      match s.source with
      | none => return some s.value
      | some source => return some (← takeOver shape fuel s.value pairs source)
    else return none
termination_by structural fuel

/-- Take over the pairs of other mappings whose keys the mapping has not. -/
def takeOver {α : Type} (shape : Shape α) (fuel : Nat) (a : α) (pairs : Array (NodeId × NodeId))
    (source : NodeId) : Decoding α :=
  match fuel with
  | 0 => throw .malformed
  | fuel + 1 => do
    let outermost := (← get).taken.isNone
    if outermost then
      let keys ← textKeys pairs
      modify fun s => { s with taken := some keys }
    let a ← (← mergeSources source).foldlM (fun a id => do
      if !(← isMapping id) then throw .malformed
      return (← follow id (readInto shape fuel a)).getD a) a
    if outermost then modify fun s => { s with taken := none }
    return a
termination_by structural fuel

end

/-- Read a node into a value: nothing if it does not fit. -/
def record {α : Type} (shape : Shape α) (a : α) (n : Yaml.Node) : Decoding (Option α) := do
  let size := (← read).size
  readInto shape (3 * (size + 1) * (size + 1)) a n

end Decoding
end ForwardDecl
