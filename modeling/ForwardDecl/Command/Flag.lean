import ForwardDecl.Error

/-! # Flags

A command line is flags and arguments.  A flag has a long name and may have a
letter: `--name`, `--name=VALUE`, `--name VALUE`, `-l`, `-l=VALUE`, `-lVALUE`,
`-l VALUE`.  Letters can be put together behind one dash.  `--` ends the flags.
Flags are read from left to right, and the first one that cannot be read ends
the reading.
-/
namespace ForwardDecl

/-- What a flag takes: nothing but an optional truth value, or a text; the last
of several texts counts, or all of them do. -/
inductive FlagKind
  | switch
  | text
  | texts
  deriving DecidableEq, Repr

/-- A flag that a command knows. -/
structure Flag where
  name : String
  letter : Option Char
  kind : FlagKind
  help : String
  deriving DecidableEq, Repr

/-- What was read: the flags with their values and the arguments, in order. -/
structure Parsed where
  settings : List (String × String)
  args : List String
  deriving DecidableEq, Repr

/-- The truth value that a word means. -/
def parseTruth? (word : String) : Option Bool :=
  if ["1", "t", "T", "TRUE", "true", "True"].contains word then some true
  else if ["0", "f", "F", "FALSE", "false", "False"].contains word then some false
  else none

namespace Flag

/-- A flag as error messages call it. -/
def title (f : Flag) : String :=
  match f.letter with
  | some c => "-" ++ c.toString ++ ", --" ++ f.name
  | none => "--" ++ f.name

/-- Give a flag a value. -/
def set (f : Flag) (value : String) : Except Error (String × String) :=
  if f.kind = .switch ∧ parseTruth? value = none then
    .error (.flag (.notBoolean value f.title))
  else .ok (f.name, value)

/-- How messages show the letter of an unknown flag: one outside of ASCII is
taken for its first byte, and that byte for the first byte of its own UTF-8 form,
which is the same for all of them. -/
def shownLetter (c : Char) : Char :=
  if c.toNat < 0x80 then c else '\u00c3'

/-- Read what is behind two dashes.  `next` is the argument after it; the
answer says whether it was taken as the value. -/
def long (flags : List Flag) (argument : String) (body : List Char) (next : Option String) :
    Except Error ((String × String) × Bool) :=
  if body.head? = some '-' ∨ body.head? = some '=' then .error (.flag (.badFlag argument))
  else
    let name := String.ofList (body.takeWhile (· ≠ '='))
    match flags.find? (·.name = name) with
    | none => if name = "help" then .error .helpRequested else .error (.flag (.unknownFlag name))
    | some f =>
      match body.dropWhile (· ≠ '=') with
      | _ :: value => (f.set (String.ofList value)).map (·, false)
      | [] =>
        if f.kind = .switch then (f.set "true").map (·, false)
        else
          match next with
          | some value => (f.set value).map (·, true)
          | none => .error (.flag (.missingValue name))

/-- Read a group of letters.  A letter that takes a value takes the rest of the
group, or the next argument.  A group that goes on with `test.` is passed over
from there. -/
def letters (flags : List Flag) (next : Option String) :
    List Char → Except Error (List (String × String) × Bool)
  | [] => .ok ([], false)
  | c :: rest =>
    if "test.".toList.isPrefixOf (c :: rest) then .ok ([], false)
    else
      match flags.find? (·.letter = some c) with
      | none =>
        if c = 'h' then .error .helpRequested
        else .error (.flag (.unknownLetter (shownLetter c) (String.ofList (c :: rest))))
      | some f =>
        let whole (value : List Char) : Except Error (List (String × String) × Bool) :=
          (f.set (String.ofList value)).map fun s => ([s], false)
        match rest with
        | '=' :: v :: vs => whole (v :: vs)
        | rest =>
          if f.kind = .switch then do
            let s ← f.set "true"
            let (more, taken) ← letters flags next rest
            return (s :: more, taken)
          else if rest ≠ [] then whole rest
          else
            match next with
            | some value => (f.set value).map fun s => ([s], true)
            | none => .error (.flag (.missingLetterValue c c.toString))

/-- Read an argument that is flags: nothing if it is none. -/
def read? (flags : List Flag) (argument : String) (next : Option String) :
    Option (Except Error (List (String × String) × Bool)) :=
  match argument.toList with
  | '-' :: '-' :: body =>
    some ((long flags argument body next).map fun (found, taken) => ([found], taken))
  | '-' :: c :: cs => some (letters flags next (c :: cs))
  | _ => none

/-- Read arguments.  Unless flags may stand after arguments, the first argument
ends the flags. -/
def parseFrom (flags : List Flag) (interspersed : Bool) (acc : Parsed) :
    List String → Except Error Parsed
  | [] => .ok acc
  | arg :: rest =>
    if arg = "--" then .ok { acc with args := acc.args ++ rest }
    else
      match read? flags arg rest.head? with
      | some (.error e) => .error e
      | some (.ok (found, taken)) =>
        parseFrom flags interspersed { acc with settings := acc.settings ++ found }
          (rest.drop taken.toNat)
      | none =>
        if interspersed then
          parseFrom flags interspersed { acc with args := acc.args ++ [arg] } rest
        else .ok { acc with args := acc.args ++ arg :: rest }
termination_by args => args.length

/-- Read a command line. -/
def parse (flags : List Flag) (interspersed : Bool) (args : List String) : Except Error Parsed :=
  parseFrom flags interspersed ⟨[], []⟩ args

/-! ## Usage -/

/-- The left column of a usage text. -/
def synopsis (f : Flag) : String :=
  let value := match f.kind with
    | .switch => ""
    | .text => " string"
    | .texts => " stringArray"
  (match f.letter with
    | some c => "  -" ++ c.toString ++ ", --"
    | none => "      --") ++ f.name ++ value

/-- The flags of a command with what they are for, in order of their names. -/
def usage (command : String) (flags : List Flag) : String :=
  let sorted := flags.mergeSort fun a b => decide (a.name ≤ b.name)
  let width := (flags.map (·.synopsis.length)).foldl max 0
  "Usage of " ++ command ++ ":\n" ++ String.join (sorted.map fun f =>
    f.synopsis ++ String.ofList (List.replicate (width - f.synopsis.length + 3) ' ') ++ f.help ++
      "\n")

end Flag

namespace Parsed

/-- Whether a switch is on. -/
def isOn (p : Parsed) (name : String) : Bool :=
  match (p.settings.reverse.lookup name).bind parseTruth? with
  | some b => b
  | none => false

/-- The text of a flag, or nothing. -/
def text (p : Parsed) (name : String) : String :=
  (p.settings.reverse.lookup name).getD ""

/-- All texts of a flag, in order. -/
def texts (p : Parsed) (name : String) : List String :=
  (p.settings.filter (·.1 = name)).map Prod.snd

end Parsed
end ForwardDecl
