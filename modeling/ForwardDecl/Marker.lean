import ForwardDecl.Text.Blank

/-! # Marker lines

The fixed lines that adding puts into a source text and removing takes out
again, and the lines that bar a text from being edited at all.  They are
compared with the stripped form of a line.  A class declaration is recognised
by its one-line shape, `class NAME…:`.
-/
namespace ForwardDecl
namespace Marker

/-- Brings the decorators into scope. -/
def importLine : Line := "from forward import *".toList

/-- Takes the first decorator out of scope at the end of a text. -/
def deleteForward : Line := "del forward".toList

/-- Takes the second decorator out of scope at the end of a text. -/
def deleteContinue : Line := "del continue_".toList

/-- Marks the class below it as declared forward. -/
def decorator : Line := "@forward()".toList

/-- Opens the block that holds the body of a class declared forward. -/
def opener : Line := "class _____:".toList

/-- The body of a declared class until its own body follows, relative to the
indentation of the class. -/
def placeholder : Line := "    ...".toList

/-- Says which class a continuation block belongs to. -/
def continuation (className : List Char) : Line :=
  "@continue_(".toList ++ className ++ ")".toList

/-- A text with this line is never modified. -/
def sentinel : Line := "# hey, forward.tools.editor! ignore this file!".toList

/-- A text with a line that begins in one of these ways is left alone as a
whole: slotted classes and enumerations do not survive being declared
forward. -/
def rejected : List String :=
  ["@dataclass(slots=True)", "@enum.global_enum", "@enum._simple_enum", "@global_enum",
    "@_simple_enum", "__slots__ = "]

/-- Whether a stripped line begins in a rejected way. -/
def isRejected (s : Line) : Bool :=
  rejected.any fun start => start.toList.isPrefixOf s

/-- Whether a stripped line is one of the three lines that stand alone. -/
def isLoose (s : Line) : Bool :=
  s = importLine || s = deleteForward || s = deleteContinue

end Marker

/-! ## Class declarations -/

/-- Whether a stripped line begins like a class declaration. -/
def startsClass (s : Line) : Bool :=
  "class ".toList.isPrefixOf s

/-- Whether a stripped line is a class declaration on one line. -/
def isClassDeclaration (s : Line) : Bool :=
  startsClass s && s.getLast? = some ':'

/-- A character of a class name: an ASCII letter or digit, or an underscore. -/
def isNameChar (c : Char) : Bool :=
  c = '_' || c.isAlphanum

/-- The name in a stripped line that begins with `class NAME` and goes on with
an opening parenthesis, a space or a colon. -/
def className? (s : Line) : Option (List Char) :=
  if startsClass s then
    match (s.drop "class ".length).span isNameChar with
    | ([], _) => none
    | (name, c :: _) => if c = '(' || c = ' ' || c = ':' then some name else none
    | (_, []) => none
  else none

/-- The name of the class that a stripped line declares. -/
def declaredClass? (s : Line) : Option (List Char) :=
  if isClassDeclaration s then className? s else none

/-- The five lines for a declared class: the declaration itself, marked as
forward and with a placeholder body, and the head of its continuation. -/
def forwardLines (l : Line) (className : List Char) : List Line :=
  let indent := indentOf l
  [indent ++ Marker.decorator, l, indent ++ Marker.placeholder,
    indent ++ Marker.continuation className, indent ++ Marker.opener]

end ForwardDecl
