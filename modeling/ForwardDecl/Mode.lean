import ForwardDecl.Error
import ForwardDecl.Text.Blank

/-! # Modes

The direction of an edit.  Each mode has one name, which configuration files
and results use; `Mode.parse` also reads what a person types.
-/
namespace ForwardDecl

/-- The direction of an edit: make forward declarations, unmake them, or find
out which of the two the text calls for. -/
inductive Mode
  | add
  | remove
  | toggle
  deriving DecidableEq, Repr

namespace Mode

/-- The name of a mode. -/
def name : Mode → String
  | add => "add"
  | remove => "remove"
  | toggle => "toggle"

/-- All modes. -/
def all : List Mode := [add, remove, toggle]

/-- The mode with exactly this name. -/
def ofName? (word : String) : Option Mode :=
  all.find? fun m => m.name = word

/-- The mode with exactly this name, or the error that there is none. -/
def ofName (word : String) : Except Error Mode :=
  match ofName? word with
  | some mode => .ok mode
  | none => .error (.config (.unknownMode word))

/-- The mode of one of the short options `-a`, `-r` and `-t`. -/
def ofOption? (word : String) : Option Mode :=
  if word = "-a" then some add
  else if word = "-r" then some remove
  else if word = "-t" then some toggle
  else none

/-- The mode that a typed word means: a short option, or a name in any case
with white space around it.  Only ASCII letters have a case here, which is
enough, because no other letter is lowered to a letter of a name. -/
def parse (word : String) : Except Error Mode :=
  match ofOption? word with
  | some mode => .ok mode
  | none =>
    match ofName? (String.ofList ((trimmed word).toList.map Char.toLower)) with
    | some mode => .ok mode
    | none => .error (.config (.unknownMode word))

@[simp] theorem ofName?_name (m : Mode) : ofName? m.name = some m := by
  cases m <;> decide

theorem ofName?_eq_some_iff {word : String} {m : Mode} : ofName? word = some m ↔ word = m.name := by
  constructor
  · intro h
    have hm := List.find?_some h
    exact (of_decide_eq_true hm).symm
  · rintro rfl
    exact ofName?_name m

end Mode

end ForwardDecl
