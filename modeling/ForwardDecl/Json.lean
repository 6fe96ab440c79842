import ForwardDecl.Text.Quoted

/-! # JSON

Results are given to other programs as JSON: compact, with the fields of an
object in a fixed order.  Characters that have a meaning in markup or end a
line in scripts are escaped, besides those that have to be.
-/
namespace ForwardDecl

/-- A JSON value.  No number here is anything but an integer. -/
inductive Json
  | null
  | bool (value : Bool)
  | int (value : Int)
  | str (value : String)
  | arr (items : List Json)
  | obj (fields : List (String × Json))
  deriving Inhabited

namespace Json

/-- One character inside a string. -/
def escapeChar (c : Char) : List Char :=
  if c = '"' || c = '\\' then ['\\', c]
  else if c = '\x08' then ['\\', 'b']
  else if c = '\x0c' then ['\\', 'f']
  else if c = '\n' then ['\\', 'n']
  else if c = '\r' then ['\\', 'r']
  else if c = '\t' then ['\\', 't']
  else if c.toNat < 0x20 || c = '<' || c = '>' || c = '&' || c = '\u2028' || c = '\u2029' then
    '\\' :: 'u' :: hexDigits 4 c.toNat
  else [c]

/-- A string with its quotation marks. -/
def renderString (s : String) : String :=
  String.ofList ('"' :: s.toList.flatMap escapeChar ++ ['"'])

mutual

/-- The text of a value. -/
def render : Json → String
  | null => "null"
  | bool b => if b then "true" else "false"
  | int n => toString n
  | str s => renderString s
  | arr items => "[" ++ ",".intercalate (renderItems items) ++ "]"
  | obj fields => "\x7b" ++ ",".intercalate (renderFields fields) ++ "\x7d"
termination_by structural j => j

def renderItems : List Json → List String
  | [] => []
  | j :: rest => j.render :: renderItems rest
termination_by structural js => js

def renderFields : List (String × Json) → List String
  | [] => []
  | (name, j) :: rest => (renderString name ++ ":" ++ j.render) :: renderFields rest
termination_by structural fields => fields

end

/-- A natural number. -/
def nat (n : Nat) : Json := int n

/-- A field that is left out when it is empty. -/
def unlessEmpty (name : String) (value : Json) : List (String × Json) :=
  match value with
  | .str "" => []
  | .arr [] => []
  | v => [(name, v)]

end Json
end ForwardDecl
