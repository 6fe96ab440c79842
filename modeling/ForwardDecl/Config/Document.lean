import ForwardDecl.Config.Basic
import ForwardDecl.Config.Decoding

/-! # Configuration documents

A configuration document is a mapping whose keys are the names of settings.
What it does not mention keeps its value.  A list takes the place of the list
before it, and a mapping is merged into the one before it key by key.  A null
empties lists and mappings, and leaves everything else as it is.  Values of the
wrong kind are all found and reported together; a bad ignore entry is reported
at once and alone.
-/
namespace ForwardDecl
namespace Config
namespace Document

open Yaml (NodeId Tag)
open ForwardDecl.Decoding

/-- The integer that decimal digits with an optional sign denote, if it is a
line number. -/
def lineNumber? (value : String) : Option Nat :=
  let digits := match value.toList with
    | '+' :: rest => rest
    | cs => cs
  if isNumeral digits ∧ 1 ≤ numeralValue digits ∧ numeralValue digits ≤ maxLine then
    some (numeralValue digits)
  else none

/-- The ignore entry that a scalar with a tag is: an integer is a line number and
a text is a class name. -/
def scalarEntry (tag : Tag) (value : String) : Except EntryProblem IgnoreEntry :=
  if tag = .int then
    match lineNumber? value with
    | some n => .ok (.ofLine n)
    | none => .error (.badNumber value)
  else if tag = .str then
    if trimmed value = "" then .error .empty else .ok (.ofClass value)
  else .error (.neither value)

/-- An ignore entry as a mapping, which only a node with the tag of a null can
be. -/
def entryShape : Shape IgnoreEntry where
  type := "forwardedit.IgnoreEntry"
  fields := some ["line", "class"]
  null := none
  check n := if n.tag = .null then return else throw (.entry n.line .notScalar)
  set e name value := do
    if name = "line" then return { e with line := (← integer value).getD e.line }
    else return { e with className := (← text "string" value).getD e.className }

/-- An ignore entry; a null is none. -/
def entry (id : NodeId) : Decoding (Option IgnoreEntry) :=
  follow id fun n =>
    match n.content with
    | .scalar value =>
      if n.tag = .null then record entryShape ⟨0, ""⟩ n
      else
        match scalarEntry n.tag value with
        | .ok e => return some e
        | .error problem => throw (.entry n.line problem)
    | _ => record entryShape ⟨0, ""⟩ n

def ignoreList : NodeId → Decoding (Option IgnoreList) :=
  list "forwardedit.IgnoreList" entry

/-- Ignore lists by path, merged into those that are there. -/
def ignoreMapShape : Shape IgnoreMap where
  type := "map[string]forwardedit.IgnoreList"
  fields := none
  null := some []
  check _ := return
  set m path value := do
    match ← ignoreList value with
    | some list => return m.insert path list
    | none => return m

def ignoreMap (old : IgnoreMap) (id : NodeId) : Decoding IgnoreMap := do
  return (← follow id (record ignoreMapShape old)).getD old

/-- The settings of a checkout. -/
def checkoutShape : Shape CheckoutConfig where
  type := "forwardedit.CheckoutConfig"
  fields :=
    some ["subdir", "revision", "required", "ignore_dirs", "ignore_files", "ignore_classes"]
  null := none
  check _ := return
  set c name value := do
    if name = "subdir" then
      return { c with subdir := (← text "string" value).getD c.subdir }
    else if name = "revision" then
      return { c with revision := (← text "string" value).getD c.revision }
    else if name = "required" then
      return { c with required := (← texts value).getD c.required }
    else if name = "ignore_dirs" then
      return { c with ignoreDirs := (← texts value).getD c.ignoreDirs }
    else if name = "ignore_files" then
      return { c with ignoreFiles := (← texts value).getD c.ignoreFiles }
    else return { c with ignoreClasses := ← ignoreMap c.ignoreClasses value }

/-- All settings. -/
def configShape : Shape Config where
  type := "forwardedit.Config"
  fields :=
    some ["suffix", "mode", "install_runtime", "runtime_template", "strict", "ignore_dirs",
      "ignore_files", "ignore_classes", "checkout"]
  null := none
  check _ := return
  set c name value := do
    if name = "suffix" then
      return { c with suffix := (← text "string" value).getD c.suffix }
    else if name = "mode" then
      return { c with mode := (← text "forwardedit.Mode" value).getD c.mode }
    else if name = "install_runtime" then
      return { c with installRuntime := (← truth value).getD c.installRuntime }
    else if name = "runtime_template" then
      return { c with runtimeTemplate := (← text "string" value).getD c.runtimeTemplate }
    else if name = "strict" then
      return { c with strict := (← truth value).getD c.strict }
    else if name = "ignore_dirs" then
      return { c with ignoreDirs := (← texts value).getD c.ignoreDirs }
    else if name = "ignore_files" then
      return { c with ignoreFiles := (← texts value).getD c.ignoreFiles }
    else if name = "ignore_classes" then
      return { c with ignoreClasses := ← ignoreMap c.ignoreClasses value }
    else
      let checkout ← follow value (record checkoutShape c.checkout)
      return { c with checkout := checkout.getD c.checkout }

end Document

/-- The settings that a document makes of the default ones.  The document itself
counts as a node that is read. -/
def ofDocument (d : Yaml.Document) : Except DocumentProblem Config :=
  match d.root with
  | none => .ok .default
  | some root =>
    let read := ForwardDecl.Decoding.follow root (ForwardDecl.Decoding.record Document.configShape .default)
    match (read.run d.graph).run ⟨#[], 1, 0, [], none⟩ with
    | .error problem _ => .error problem
    | .ok result notes =>
      if notes.problems.isEmpty then .ok (result.getD .default)
      else .error (.unfit notes.problems.toList)

/-- The settings that the bytes of a document say. -/
def ofDocumentBytes (bytes : ByteArray) : Except DocumentProblem Config :=
  match Yaml.Document.ofBytes? bytes with
  | none => .error .malformed
  | some d => ofDocument d

end Config
end ForwardDecl
