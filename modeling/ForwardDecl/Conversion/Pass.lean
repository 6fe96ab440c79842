import ForwardDecl.Marker
import ForwardDecl.Trace

/-! # Passes over the lines of a text

One pass per direction reads the lines once, from the first to the last.
Adding puts the lines of a forward declaration around every class declaration
that is not ignored; removing takes them out again; toggling copies lines
until one of them tells the direction, and then hands the rest of the text,
that line included, to the pass for it.

A pass either comes to the end of the text, with the lines that it keeps and
the number of lines that it put in or left out, or it stops at a line: the
text is then left as it is, or it is malformed.
-/
namespace ForwardDecl

/-- What a line is to every pass. -/
inductive LineKind
  | blank
  /-- The text may not be modified. -/
  | barred (reason : SkipReason)
  | code (text : Line)
  deriving DecidableEq, Repr

/-- The kind of a line, which only its stripped form decides. -/
def lineKind (l : Line) : LineKind :=
  let s := stripped l
  if s = [] then .blank
  else if s = Marker.sentinel then .barred .sentinel
  else if Marker.isRejected s then .barred .rejected
  else .code s

/-- How a pass ends. -/
inductive Ending
  /-- All lines were read. -/
  | complete (mode : Mode) (lines : List Line) (modifications : Nat)
  /-- The text is left as it is. -/
  | untouched (mode : Mode) (reason : SkipReason)
  /-- The text is not of the shape that adding gives it. -/
  | malformed (cause : ShapeError)
  deriving DecidableEq, Repr

/-- A pass: how it ends and what it traced on the way. -/
structure Pass where
  events : List Event
  ending : Ending
  deriving DecidableEq, Repr

namespace Pass

/-- A pass that reads no line. -/
def stop (ending : Ending) : Pass := ⟨[], ending⟩

/-- Trace events before those of the rest of the pass. -/
def tell (events : List Event) (p : Pass) : Pass :=
  { p with events := events ++ p.events }

/-- Put out lines before those of the rest of the pass, counting `n`
modifications. -/
def emit (lines : List Line) (n : Nat) (p : Pass) : Pass :=
  match p.ending with
  | .complete mode rest m => { p with ending := .complete mode (lines ++ rest) (n + m) }
  | _ => p

/-- Keep a line as it is. -/
def keep (l : Line) (p : Pass) : Pass := p.emit [l] 0

/-- Leave out a line. -/
def drop (p : Pass) : Pass := p.emit [] 1

/-- Stop at a line that bars the text from being modified. -/
def bar (mode : Mode) (reason : SkipReason) (number : Nat) (l : Line) : Pass :=
  tell (if reason = .rejected then [.startRejected number (stripped l)] else [])
    (stop (.untouched mode reason))

@[simp] theorem tell_ending (events : List Event) (p : Pass) :
    (p.tell events).ending = p.ending := rfl

theorem emit_complete {p : Pass} {mode : Mode} {rest : List Line} {m : Nat}
    (h : p.ending = .complete mode rest m) (lines : List Line) (n : Nat) :
    (p.emit lines n).ending = .complete mode (lines ++ rest) (n + m) := by
  simp [emit, h]

theorem emit_untouched {p : Pass} {mode : Mode} {reason : SkipReason}
    (h : p.ending = .untouched mode reason) (lines : List Line) (n : Nat) :
    (p.emit lines n).ending = .untouched mode reason := by
  simp [emit, h]

theorem emit_malformed {p : Pass} {cause : ShapeError}
    (h : p.ending = .malformed cause) (lines : List Line) (n : Nat) :
    (p.emit lines n).ending = .malformed cause := by
  simp [emit, h]

@[simp] theorem emit_events (lines : List Line) (n : Nat) (p : Pass) :
    (p.emit lines n).events = p.events := by
  unfold emit
  split <;> rfl

/-! ## Adding -/

/-- Add forward declarations to the lines after the first `read` lines of a
text. -/
def add (ignore : IgnoreList) (read : Nat) : List Line → Pass
  | [] => stop (.complete .add [] 0)
  | l :: ls =>
    let number := read + 1
    match lineKind l with
    | .blank => (add ignore number ls).keep l
    | .barred reason => bar .add reason number l
    | .code s =>
      if ignore.ignoresLine number then (add ignore number ls).keep l
      else if s = Marker.decorator then stop (.untouched .add .alreadyForward)
      else
        match declaredClass? s with
        | none => (add ignore number ls).keep l
        | some name =>
          if ignore.ignoresClass name then
            ((add ignore number ls).keep l).tell [.classIgnored number name]
          else
            ((add ignore number ls).emit (forwardLines l name) 4).tell
              [.classDeclared number name]

/-! ## Removing -/

/-- Where a removing pass is between two lines. -/
inductive Site
  | outside
  /-- A decorator was left out, and its class declaration has to follow.  The
  line that was read last is kept for the report if it never does. -/
  | awaitingClass (last : Line)
  /-- A class declaration was kept, and its continuation has to follow. -/
  | awaitingContinuation
  deriving DecidableEq, Repr

/-- What is wrong with a line that ought to be a class declaration. -/
def expectedClass : String :=
  "expected class declaration after " ++ String.ofList Marker.decorator

/-- What is wrong with a text that ends where a class declaration ought to be. -/
def endsBeforeClass : String :=
  "file ends before the class declaration following " ++ String.ofList Marker.decorator

/-- Remove forward declarations from the lines after the first `read` lines of
a text. -/
def remove (read : Nat) (site : Site) : List Line → Pass
  | [] =>
    match site with
    | .awaitingClass last => stop (.malformed ⟨"", read, last, endsBeforeClass⟩)
    | _ => stop (.complete .remove [] 0)
  | l :: ls =>
    let number := read + 1
    match lineKind l with
    | .blank =>
      match site with
      | .awaitingClass _ => (remove number (.awaitingClass l) ls).keep l
      | _ => (remove number site ls).keep l
    | .barred reason => bar .remove reason number l
    | .code s =>
      match site with
      | .outside =>
        if s = Marker.decorator then
          (remove number (.awaitingClass l) ls).drop.tell [.phaseChanged .initial .expectClass]
        else if Marker.isLoose s then (remove number .outside ls).drop
        else (remove number .outside ls).keep l
      | .awaitingClass _ =>
        if isClassDeclaration s then
          ((remove number .awaitingContinuation ls).keep l).tell
            [.phaseChanged .expectClass .seekContinuation]
        else stop (.malformed ⟨"", number, l, expectedClass⟩)
      | .awaitingContinuation =>
        if s = Marker.opener then
          (remove number .outside ls).drop.tell [.phaseChanged .seekContinuation .initial]
        else (remove number .awaitingContinuation ls).drop

/-! ## Toggling -/

/-- Find out the direction from the lines after the first `read` lines of a
text, and go on in it. -/
def toggle (ignore : IgnoreList) (read : Nat) : List Line → Pass
  | [] => stop (.complete .toggle [] 0)
  | l :: ls =>
    let number := read + 1
    match lineKind l with
    | .blank => (toggle ignore number ls).keep l
    | .barred reason => bar .toggle reason number l
    | .code s =>
      if startsClass s then
        (add ignore read (l :: ls)).tell
          [.toggleResolved number .add, .phaseChanged .detect .initial]
      else if s = Marker.importLine then
        (remove read .outside (l :: ls)).tell [.phaseChanged .detect .initial]
      else if s = Marker.decorator then
        (remove read .outside (l :: ls)).tell
          [.toggleResolved number .remove, .phaseChanged .detect .initial]
      else (toggle ignore number ls).keep l

/-- The pass for a mode over all lines of a text. -/
def run (mode : Mode) (ignore : IgnoreList) (lines : List Line) : Pass :=
  match mode with
  | .add => add ignore 0 lines
  | .remove => remove 0 .outside lines
  | .toggle => toggle ignore 0 lines

end Pass
end ForwardDecl
