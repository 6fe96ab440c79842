import ForwardDecl.Ignore.Basic
import ForwardDecl.Mode

/-! # Traces

A verbose run tells what it does, one event at a time.  Events are values, so
that what is traced can be stated; `Event.message` is the only place where
they become text.
-/
namespace ForwardDecl

/-- Why a text was left untouched on purpose. -/
inductive SkipReason
  | sentinel
  | rejected
  | alreadyForward
  | empty
  deriving DecidableEq, Repr

def SkipReason.name : SkipReason → String
  | sentinel => "sentinel"
  | rejected => "rejected"
  | alreadyForward => "already-forward"
  | empty => "empty"

/-- The part of a text in which a pass over its lines is. -/
inductive Phase
  /-- Looking for a line that tells the direction. -/
  | detect
  /-- Outside every forward declaration. -/
  | initial
  /-- After a decorator, before its class declaration. -/
  | expectClass
  /-- After a class declaration, before its continuation. -/
  | seekContinuation
  deriving DecidableEq, Repr

def Phase.name : Phase → String
  | detect => "detect"
  | initial => "initial"
  | expectClass => "emit class declaration"
  | seekContinuation => "looking for continuation"

/-- Something that a run does. -/
inductive Event
  | phaseChanged (before after : Phase)
  | toggleResolved (line : Nat) (mode : Mode)
  | classDeclared (line : Nat) (className : List Char)
  | classIgnored (line : Nat) (className : List Char)
  | startRejected (line : Nat) (text : Line)
  | leftUntouched (reason : SkipReason)
  | fileEntered (path : String) (mode : Mode) (ignore : List String)
  | fileModified (path : String) (modifications : Nat) (mode : Mode)
  | treeEntered (root : String) (mode : Mode) (ignoreDirs ignoreFiles : List String)
      (install : Bool)
  | moduleInstalled (path : String)
  | fileSkipped (path : String) (cause : Error)
  | fileFailed (path : String) (cause : Error)
  | treeLeft (mode : Mode) (modifiedFiles modifiedLines : Nat)
  deriving DecidableEq, Repr

/-- A list between brackets, its items divided by spaces. -/
def bracketed (items : List String) : String :=
  "[" ++ " ".intercalate items ++ "]"

/-- The text of a truth value. -/
def truthName (b : Bool) : String :=
  if b then "true" else "false"

namespace Event

/-- The line that tells of an event. -/
def message : Event → String
  | phaseChanged before after => "  state " ++ before.name ++ " -> " ++ after.name
  | toggleResolved line mode =>
    "  line " ++ toString line ++ ": resolved toggle to " ++ mode.name
  | classDeclared line className =>
    "  line " ++ toString line ++ ": forward-declared class " ++ String.ofList className
  | classIgnored line className =>
    "  line " ++ toString line ++ ": ignoring class " ++ String.ofList className
  | startRejected line text =>
    "  line " ++ toString line ++ ": rejected prefix in " ++ quoteChars text
  | leftUntouched reason => "  leaving file untouched (" ++ reason.name ++ ")"
  | fileEntered path mode ignore =>
    "edit " ++ path ++ " (mode=" ++ mode.name ++ ", ignore=" ++ bracketed ignore ++ ")"
  | fileModified path modifications mode =>
    "  " ++ path ++ ": " ++ toString modifications ++ " modifications (mode=" ++ mode.name ++ ")"
  | treeEntered root mode ignoreDirs ignoreFiles install =>
    "edit tree " ++ root ++ " (mode=" ++ mode.name ++ ", ignore_dirs=" ++ bracketed ignoreDirs ++
      ", ignore_files=" ++ bracketed ignoreFiles ++ ", install_runtime=" ++ truthName install ++ ")"
  | moduleInstalled path => "  installed " ++ path
  | fileSkipped path cause => "  skipping " ++ path ++ ": " ++ cause.message
  | fileFailed path cause => "  failed " ++ path ++ ": " ++ cause.message
  | treeLeft mode modifiedFiles modifiedLines =>
    "  returning mode=" ++ mode.name ++ ", modified_files=" ++ toString modifiedFiles ++
      ", modified_lines=" ++ toString modifiedLines

end Event

end ForwardDecl
