import ForwardDecl.Docstring
import ForwardDecl.Conversion.Pass

/-! # Converting a text

A conversion runs the pass for its mode and then sees to the head and the tail of
the text.  After adding, the import goes before the first statement and the
cleanup lines go to the end, with an empty line on either side.  After
removing, up to two empty lines are cut from the end, which are those two.
Head and tail are left alone when the pass modified nothing.
-/
namespace ForwardDecl

/-- A text after a conversion: its lines, the direction that was taken, the number
of lines put in or left out, and why the text was left untouched, if it was. -/
structure Converted where
  lines : List Line
  mode : Mode
  modifications : Nat
  skipped : Option SkipReason
  deriving DecidableEq, Repr

/-- The text of the lines. -/
def Converted.text (r : Converted) : List Char :=
  joinLines r.lines

namespace Conversion

/-- The lines after the last one with code, once a text has declarations. -/
def tail : List Line :=
  [[], Marker.deleteForward, Marker.deleteContinue, []]

/-- Put the import before the line with index `at`, or at the end if there are
fewer lines. -/
def insertImport (index : Nat) (lines : List Line) : List Line :=
  lines.take index ++ Marker.importLine :: lines.drop index

/-- Leave out up to `n` empty lines at the front. -/
def dropEmpty : (n : Nat) → List Line → List Line
  | n + 1, [] :: ls => dropEmpty n ls
  | _, ls => ls

/-- Leave out up to two empty lines at the end. -/
def cutTail (lines : List Line) : List Line :=
  (dropEmpty 2 lines.reverse).reverse

/-- The conversion that a pass over `source` ends in. -/
def finish (source : List Line) : Ending → Except Error Converted
  | .malformed cause => .error (.shape cause)
  | .untouched mode reason => .ok ⟨source, mode, 0, some reason⟩
  | .complete mode lines modifications =>
    if lines = [] then .ok ⟨[], mode, 0, some .empty⟩
    else if modifications = 0 then .ok ⟨lines, mode, 0, none⟩
    else if mode = .add then
      let placed := insertImport (Docstring.insertionLine source) lines
      .ok ⟨placed ++ tail, mode, modifications + 5, none⟩
    else
      let kept := cutTail lines
      .ok ⟨kept, mode, modifications + (lines.length - kept.length), none⟩

/-- The last event of a conversion: a text that is left untouched says so. -/
def lastEvents : Ending → List Event
  | .untouched _ reason => [.leftUntouched reason]
  | _ => []

end Conversion

/-- Convert a text in a mode.  The only errors are a bad ignore entry and a
malformed text. -/
def convert (mode : Mode) (ignore : IgnoreList) (text : List Char) : Except Error Converted := do
  ignore.check
  let source := splitLines text
  Conversion.finish source (Pass.run mode ignore source).ending

/-- What a conversion traces. -/
def conversionEvents (mode : Mode) (ignore : IgnoreList) (text : List Char) : List Event :=
  match ignore.check with
  | .error _ => []
  | .ok () =>
    let pass := Pass.run mode ignore (splitLines text)
    pass.events ++ Conversion.lastEvents pass.ending

end ForwardDecl
