import ForwardDecl.Docstring
import ForwardDecl.Proofs.LossyLines
import Mathlib.Logic.Relation

/-! # Reading by positions

The reader of docstrings can be seen as a machine that looks at single bytes of numbered lines.  It
is at a position, a line and a column, and it may ask for any line and any byte, but there is a
`Fault` if there is none.  `Cursor.step` is one step of this machine, `seekStep` one of the search
for a line with code, and `literalStep` one inside of a string literal.

The column may go beyond the end of a line: a backslash takes the byte behind it along, even where
there is none.  So the bounds for a position depend on what the machine is doing there
(`Cursor.InBounds`).  A step within the bounds meets no fault, stays within the bounds, and goes to
a later line or further to the right (`Cursor.step_spec`).  There is no way to do that forever
(`wellFounded_further`), so that every run ends.
-/
namespace ForwardDecl
namespace Docstring

/-! ## Positions -/

/-- The number of a line, and the number of bytes before a place on it. -/
structure Position where
  line : Nat
  column : Nat
  deriving DecidableEq, Repr

namespace Position

/-- Positions are ordered by their lines, and on a line by their columns. -/
instance : LT Position := ⟨fun p q => p.line < q.line ∨ p.line = q.line ∧ p.column < q.column⟩

/-- So many bytes further to the right. -/
def right (p : Position) (n : Nat) : Position := ⟨p.line, p.column + n⟩

/-- The start of the next line. -/
def nextLine (p : Position) : Position := ⟨p.line + 1, 0⟩

/-- The position is on a line, or right behind it. -/
def OnLine (lines : List ByteArray) (p : Position) : Prop :=
  ∃ line, lines[p.line]? = some line ∧ p.column ≤ line.size

/-- The position is behind a line of which a backslash has taken more than there is. -/
def Beyond (lines : List ByteArray) (p : Position) : Prop :=
  ∃ line, lines[p.line]? = some line ∧ 0 < line.size ∧ p.column = line.size + 1

/-- The position is behind all lines. -/
def AtEnd (lines : List ByteArray) (p : Position) : Prop := p.line = lines.length ∧ p.column = 0

/-- The position is no further than one byte behind a line. -/
def Bounded (lines : List ByteArray) (p : Position) : Prop :=
  p.OnLine lines ∨ p.Beyond lines ∨ p.AtEnd lines

section
variable {lines : List ByteArray} {p q r : Position} {n : Nat}

theorem lt_iff : p < q ↔ p.line < q.line ∨ p.line = q.line ∧ p.column < q.column := Iff.rfl

theorem lt_trans (h : p < q) (h' : q < r) : p < r := by
  rw [lt_iff] at *
  omega

theorem lt_right (h : 0 < n) : p < p.right n := Or.inr ⟨rfl, Nat.lt_add_of_pos_right h⟩

theorem lt_nextLine (p : Position) : p < p.nextLine := Or.inl (Nat.lt_succ_self _)

theorem onLine_of_lt (h : p.line < lines.length) (hcolumn : p.column = 0) : p.OnLine lines :=
  ⟨_, List.getElem?_eq_getElem h, by rw [hcolumn]; exact Nat.zero_le _⟩

/-- Behind a line there is another one, or the end. -/
theorem bounded_nextLine (h : p.line < lines.length) :
    p.nextLine.OnLine lines ∨ p.nextLine.AtEnd lines := by
  rcases Nat.lt_or_eq_of_le h with hlt | heq
  · exact Or.inl (onLine_of_lt hlt rfl)
  · exact Or.inr ⟨heq, rfl⟩

/-- How many lines and how many bytes of the line there are behind a position. -/
def left (lines : List ByteArray) (p : Position) : Nat × Nat :=
  (lines.length - p.line, (lines[p.line]?.getD .empty).size + 1 - p.column)

theorem Bounded.le (h : p.Bounded lines) :
    p.line ≤ lines.length ∧ p.column ≤ (lines[p.line]?.getD .empty).size + 1 := by
  rcases h with ⟨line, hline, hcolumn⟩ | ⟨line, hline, -, hcolumn⟩ | ⟨hline, hcolumn⟩
  · rw [hline, Option.getD_some]
    exact ⟨Nat.le_of_lt (List.getElem?_eq_some_iff.mp hline).1, Nat.le_succ_of_le hcolumn⟩
  · rw [hline, Option.getD_some]
    exact ⟨Nat.le_of_lt (List.getElem?_eq_some_iff.mp hline).1, Nat.le_of_eq hcolumn⟩
  · rw [hcolumn]
    exact ⟨Nat.le_of_eq hline, Nat.zero_le _⟩

/-- Further on there is less left. -/
theorem left_lt (hlt : p < q) (h : q.Bounded lines) :
    Prod.Lex (· < ·) (· < ·) (q.left lines) (p.left lines) := by
  obtain ⟨hline, hcolumn⟩ := h.le
  rcases hlt with hlt | ⟨heq, hlt⟩
  · exact Prod.Lex.left _ _ (by omega)
  · rw [left, left, heq]
    exact Prod.Lex.right _ (by omega)

end

/-- **Positions do not grow forever within the bounds.** -/
theorem wellFounded_further (lines : List ByteArray) :
    WellFounded fun q p : Position => p < q ∧ q.Bounded lines := by
  have hlex : WellFounded (Prod.Lex (· < ·) (· < ·) : Nat × Nat → Nat × Nat → Prop) :=
    (Prod.lex Nat.lt_wfRel Nat.lt_wfRel).wf
  exact Subrelation.wf (fun h => left_lt h.1 h.2) (InvImage.wf (left lines) hlex)

end Position

/-! ## Accesses and runs -/

/-- An access that is out of range: to a line, to a byte of a line or to the bytes behind one. -/
inductive Fault
  | line (number : Nat)
  | byte (column : Nat)
  | bytes (column : Nat)
  deriving DecidableEq, Repr

def lineAt (lines : List ByteArray) (number : Nat) : Except Fault ByteArray :=
  match lines[number]? with
  | some line => .ok line
  | none => .error (.line number)

def byteAt (line : ByteArray) (column : Nat) : Except Fault UInt8 :=
  match bytesFrom line column with
  | b :: _ => .ok b
  | [] => .error (.byte column)

/-- The bytes from a column on, which may be that right behind the line. -/
def bytesAt (line : ByteArray) (column : Nat) : Except Fault (List UInt8) :=
  if column ≤ line.size then .ok (bytesFrom line column) else .error (.bytes column)

theorem lineAt_of_getElem? {lines : List ByteArray} {line : ByteArray} {i : Nat}
    (h : lines[i]? = some line) : lineAt lines i = .ok line := by
  rw [lineAt, h]

section
variable {line : ByteArray} {i : Nat} {b : UInt8} {xs : List UInt8}

theorem byteAt_of_bytesFrom (h : bytesFrom line i = b :: xs) : byteAt line i = .ok b := by
  rw [byteAt, h]

theorem bytesAt_of_bytesFrom (h : bytesFrom line i = b :: xs) :
    bytesAt line i = .ok (b :: xs) := by
  rw [bytesAt, if_pos (Nat.le_of_lt (lt_size_of_bytesFrom h)), h]

end

section
variable {σ ρ : Type}

/-- A finite run: steps without a fault, the last of which gives the result. -/
inductive Runs (step : σ → Except Fault (σ ⊕ ρ)) : σ → ρ → Prop
  | done {s : σ} {r : ρ} (h : step s = .ok (.inr r)) : Runs step s r
  | next {s t : σ} {r : ρ} (h : step s = .ok (.inl t)) (hrun : Runs step t r) : Runs step s r

/-- From a state on, a machine meets no fault, and its position grows with every step. -/
def Grows (step : σ → Except Fault (σ ⊕ ρ)) (position : σ → Position) (s : σ) : Prop :=
  ∀ t, Relation.ReflTransGen (fun s t => step s = .ok (.inl t)) s t →
    ∃ o, step t = .ok o ∧ ∀ u, o = .inl u → position t < position u

variable {step : σ → Except Fault (σ ⊕ ρ)} {s : σ} {r r' : ρ}

theorem Runs.unique (h : Runs step s r) (h' : Runs step s r') : r = r' := by
  induction h with
  | done h =>
    cases h' with
    | done h' => exact Sum.inr.inj (Except.ok.inj (h.symm.trans h'))
    | next h' _ => cases h.symm.trans h'
  | next h _ ih =>
    cases h' with
    | done h' => cases h.symm.trans h'
    | next h' hrun =>
      obtain rfl := Sum.inl.inj (Except.ok.inj (h.symm.trans h'))
      exact ih hrun

section
variable {lines : List ByteArray} {position : σ → Position} {Inv : σ → Prop}
  (hstep : ∀ s, Inv s → ∃ o, step s = .ok o ∧ ∀ t, o = .inl t → position s < position t ∧ Inv t)
include hstep

/-- **A machine whose position grows within the bounds ends.** -/
theorem Runs.exists_of_growing (hbound : ∀ s, Inv s → (position s).Bounded lines) (h : Inv s) :
    ∃ r, Runs step s r := by
  induction hp : position s using (Position.wellFounded_further lines).induction generalizing s with
  | h p ih =>
    subst hp
    obtain ⟨o, ho, hgrows⟩ := hstep s h
    cases o with
    | inr r => exact ⟨r, .done ho⟩
    | inl t =>
      obtain ⟨hlt, ht⟩ := hgrows t rfl
      obtain ⟨r, hr⟩ := ih _ ⟨hlt, hbound t ht⟩ ht rfl
      exact ⟨r, .next ho hr⟩

theorem Grows.of_inv (h : Inv s) : Grows step position s := by
  intro t hreach
  have ht : Inv t := by
    induction hreach with
    | refl => exact h
    | tail _ hnext ih =>
      obtain ⟨o, ho, hgrows⟩ := hstep _ ih
      exact (hgrows _ (Except.ok.inj (ho.symm.trans hnext))).2
  obtain ⟨o, ho, hgrows⟩ := hstep t ht
  exact ⟨o, ho, fun u hu => (hgrows u hu).1⟩

end
end

/-! ## The search for a line with code -/

/-- Go on to the next line, unless this one holds code or there is none. -/
def seekStep (lines : List ByteArray) (i : Nat) : Except Fault (Nat ⊕ Nat) :=
  if i < lines.length then do
    let line ← lineAt lines i
    return if holdsCode (lossyChars line 0) then .inr i else .inl (i + 1)
  else .ok (.inr lines.length)

/-! ## String literals -/

/-- The quotation marks around a string. -/
structure Quotation where
  mark : UInt8
  triple : Bool
  isQuote : mark = '"'.toUInt8 ∨ mark = '\''.toUInt8

def Quotation.bytes (d : Quotation) : List UInt8 :=
  List.replicate (if d.triple then 3 else 1) d.mark

/-- One step inside of a string literal: to a further position, or to a result.  That is the
position behind the closing marks, if there are any. -/
def literalStep (lines : List ByteArray) (d : Quotation) (p : Position) :
    Except Fault (Position ⊕ Option Position) :=
  if p.line < lines.length then do
    let line ← lineAt lines p.line
    if p.column < line.size then
      let b ← byteAt line p.column
      if b = '\\'.toUInt8 then return .inl (p.right 2)
      else
        let rest ← bytesAt line p.column
        if d.bytes.isPrefixOf rest then return .inr (some (p.right d.bytes.length))
        else return .inl (p.right 1)
    else if d.triple ∨ 0 < line.size ∧ p.column = line.size + 1 then return .inl p.nextLine
    else return .inr none
  else .ok (.inr none)

/-- The letters that may stand before a string. -/
def letters : List UInt8 := "rRuU".toList.map Char.toUInt8

/-- The column behind the optional letter that may stand before a string. -/
def letterStep (line : ByteArray) (column : Nat) : Except Fault Nat :=
  if column < line.size then do
    let b ← byteAt line column
    return if b ∈ letters then column + 1 else column
  else .ok column

/-- The quotation marks of the string literal at a position, and the position behind them. -/
def openLiteral (lines : List ByteArray) (p : Position) :
    Except Fault (Option (Quotation × Position)) := do
  let line ← lineAt lines p.line
  let column ← letterStep line p.column
  if column < line.size then
    let b ← byteAt line column
    if h : b = '"'.toUInt8 ∨ b = '\''.toUInt8 then
      let rest ← bytesAt line column
      let d : Quotation := ⟨b, (List.replicate 3 b).isPrefixOf rest, h⟩
      return some (d, ⟨p.line, column + d.bytes.length⟩)
    else return none
  else return none

/-- What the scan for the string literal at a position comes to. -/
def ScansLiteral (lines : List ByteArray) (p : Position) (r : Option Position) : Prop :=
  (openLiteral lines p = .ok none ∧ r = none) ∨
    ∃ d q, openLiteral lines p = .ok (some (d, q)) ∧ Runs (literalStep lines d) q r

/-! ## The statement -/

/-- What the machine is doing at a position. -/
inductive Stage
  /-- It is between two tokens, inside of parentheses and behind a token. -/
  | between (depth : Nat) (prev : Token)
  /-- It is inside of a string literal. -/
  | inside (d : Quotation) (depth : Nat)
  /-- It is behind the docstring, and looks for a line with code. -/
  | behind

/-- The machine: what it is doing, and where. -/
structure Cursor where
  stage : Stage
  position : Position

/-- What is done at the end of a line, or at a comment. -/
def breakStep (lines : List ByteArray) (first depth : Nat) (prev : Token) (p : Position) :
    Cursor ⊕ Nat :=
  if isDone depth prev then .inl ⟨.behind, p.nextLine⟩
  else if depth = 0 ∨ lines.length ≤ p.line + 1 then .inr first
  else .inl ⟨.between depth prev, p.nextLine⟩

/-- What is done at a backslash at the end of a line. -/
def joinStep (lines : List ByteArray) (first depth : Nat) (prev : Token) (p : Position) :
    Cursor ⊕ Nat :=
  if lines.length ≤ p.line + 1 then .inr (if isDone depth prev then lines.length else first)
  else .inl ⟨.between depth prev, p.nextLine⟩

/-- What is done where a string literal may begin. -/
def beginLiteral (first depth : Nat) : Option (Quotation × Position) → Cursor ⊕ Nat
  | none => .inr first
  | some (d, q) => .inl ⟨.inside d depth, q⟩

/-- The bytes that may stand between tokens. -/
def blanks : List UInt8 := " \t\x0c".toList.map Char.toUInt8

/-- What is done at a byte between two tokens. -/
def byteStep (lines : List ByteArray) (first depth : Nat) (prev : Token) (p : Position)
    (size : Nat) (b : UInt8) : Except Fault (Cursor ⊕ Nat) :=
  if b ∈ blanks then .ok (.inl ⟨.between depth prev, p.right 1⟩)
  else if b = '#'.toUInt8 then .ok (breakStep lines first depth prev p)
  else if b = '\\'.toUInt8 ∧ p.column = size - 1 then .ok (joinStep lines first depth prev p)
  else if b = ';'.toUInt8 then .ok (.inr (if isDone depth prev then p.line else first))
  else if b = '('.toUInt8 then
    .ok (if prev = .start ∨ prev = .opening then .inl ⟨.between (depth + 1) .opening, p.right 1⟩
      else .inr first)
  else if b = ')'.toUInt8 then
    .ok (if depth = 0 ∨ ¬(prev = .string ∨ prev = .closing) then .inr first
      else .inl ⟨.between (depth - 1) .closing, p.right 1⟩)
  else if prev = .closing then .ok (.inr first)
  else (openLiteral lines p).map (beginLiteral first depth)

/-- One step of the machine, for the statement on the line `first`. -/
def Cursor.step (lines : List ByteArray) (first : Nat) : Cursor → Except Fault (Cursor ⊕ Nat)
  | ⟨.between depth prev, p⟩ => do
    let line ← lineAt lines p.line
    if p.column < line.size then
      byteStep lines first depth prev p line.size (← byteAt line p.column)
    else return breakStep lines first depth prev p
  | ⟨.inside d depth, p⟩ => do
    match ← literalStep lines d p with
    | .inl q => return .inl ⟨.inside d depth, q⟩
    | .inr none => return .inr first
    | .inr (some q) => return .inl ⟨.between depth .string, q⟩
  | ⟨.behind, p⟩ => do
    match ← seekStep lines p.line with
    | .inl i => return .inl ⟨.behind, ⟨i, 0⟩⟩
    | .inr r => return .inr r

/-- The bytes of the byte order mark. -/
def markBytes : List UInt8 := [0xef, 0xbb, 0xbf]

/-- The position at which a statement begins: on the first line behind a byte order mark. -/
def startAt (lines : List ByteArray) (first : Nat) : Except Fault Position :=
  if first = 0 then do
    let line ← lineAt lines 0
    return ⟨0, if markBytes.isPrefixOf (bytesFrom line 0) then 3 else 0⟩
  else .ok ⟨first, 0⟩

/-- What the machine comes to: the line before which the import belongs. -/
def Inserts (lines : List ByteArray) (r : Nat) : Prop :=
  ∃ first, Runs (seekStep lines) 0 first ∧
    if first < lines.length then
      ∃ p, startAt lines first = .ok p ∧
        Runs (Cursor.step lines first) ⟨.between 0 .start, p⟩ r
    else r = first

/-! ## Steps without faults -/

section
variable {lines : List ByteArray} {line : ByteArray} {d : Quotation} {p : Position} {b : UInt8}
  {xs : List UInt8} {i first depth : Nat} {prev : Token}

theorem seekStep_of_line (h : lines[i]? = some line) : seekStep lines i =
    .ok (if holdsCode (lossyChars line 0) then .inr i else .inl (i + 1)) := by
  rw [seekStep, if_pos (List.getElem?_eq_some_iff.mp h).1, lineAt_of_getElem? h]
  rfl

theorem seekStep_of_end (h : lines.length ≤ i) : seekStep lines i = .ok (.inr lines.length) := by
  rw [seekStep, if_neg (Nat.not_lt.mpr h)]

theorem literalStep_of_byte (h : lines[p.line]? = some line)
    (hbytes : bytesFrom line p.column = b :: xs) : literalStep lines d p =
      .ok (if b = '\\'.toUInt8 then .inl (p.right 2)
        else if d.bytes.isPrefixOf (b :: xs) then .inr (some (p.right d.bytes.length))
        else .inl (p.right 1)) := by
  rw [literalStep, if_pos (List.getElem?_eq_some_iff.mp h).1, lineAt_of_getElem? h]
  dsimp only [bind, Except.bind, pure, Except.pure]
  rw [if_pos (lt_size_of_bytesFrom hbytes), byteAt_of_bytesFrom hbytes, bytesAt_of_bytesFrom hbytes]
  dsimp only
  split
  · rfl
  · split <;> rfl

theorem literalStep_of_lineEnd (h : lines[p.line]? = some line) (hend : line.size ≤ p.column) :
    literalStep lines d p =
      .ok (if d.triple ∨ 0 < line.size ∧ p.column = line.size + 1 then .inl p.nextLine
        else .inr none) := by
  rw [literalStep, if_pos (List.getElem?_eq_some_iff.mp h).1, lineAt_of_getElem? h]
  dsimp only [bind, Except.bind, pure, Except.pure]
  rw [if_neg (Nat.not_lt.mpr hend)]
  split <;> rfl

theorem literalStep_of_end (h : lines.length ≤ p.line) :
    literalStep lines d p = .ok (.inr none) := by
  rw [literalStep, if_neg (Nat.not_lt.mpr h)]

/-- The column behind an optional letter. -/
def afterLetter (line : ByteArray) (column : Nat) : Nat :=
  match bytesFrom line column with
  | b :: _ => if b ∈ letters then column + 1 else column
  | [] => column

/-- The quotation marks that stand behind an optional letter. -/
def opened (line : ByteArray) (p : Position) : Option (Quotation × Position) :=
  match bytesFrom line (afterLetter line p.column) with
  | b :: xs =>
    if h : b = '"'.toUInt8 ∨ b = '\''.toUInt8 then
      let d : Quotation := ⟨b, (List.replicate 3 b).isPrefixOf (b :: xs), h⟩
      some (d, ⟨p.line, afterLetter line p.column + d.bytes.length⟩)
    else none
  | [] => none

theorem letterStep_eq (line : ByteArray) (column : Nat) :
    letterStep line column = .ok (afterLetter line column) := by
  rw [letterStep, afterLetter]
  cases hbytes : bytesFrom line column with
  | nil => rw [if_neg (Nat.not_lt.mpr (size_le_of_bytesFrom hbytes))]
  | cons b xs =>
    rw [if_pos (lt_size_of_bytesFrom hbytes), byteAt_of_bytesFrom hbytes]
    rfl

theorem openLiteral_eq (h : lines[p.line]? = some line) :
    openLiteral lines p = .ok (opened line p) := by
  rw [openLiteral, lineAt_of_getElem? h, opened]
  dsimp only [bind, Except.bind, pure, Except.pure]
  rw [letterStep_eq]
  dsimp only
  cases hbytes : bytesFrom line (afterLetter line p.column) with
  | nil => rw [if_neg (Nat.not_lt.mpr (size_le_of_bytesFrom hbytes))]
  | cons b xs =>
    rw [if_pos (lt_size_of_bytesFrom hbytes), byteAt_of_bytesFrom hbytes,
      bytesAt_of_bytesFrom hbytes]
    dsimp only
    split <;> rfl

theorem step_of_byte (h : lines[p.line]? = some line) (hbytes : bytesFrom line p.column = b :: xs) :
    Cursor.step lines first ⟨.between depth prev, p⟩ =
      byteStep lines first depth prev p line.size b := by
  rw [Cursor.step, lineAt_of_getElem? h]
  dsimp only [bind, Except.bind, pure, Except.pure]
  rw [if_pos (lt_size_of_bytesFrom hbytes), byteAt_of_bytesFrom hbytes]

theorem step_of_lineEnd (h : lines[p.line]? = some line) (hend : line.size ≤ p.column) :
    Cursor.step lines first ⟨.between depth prev, p⟩ =
      .ok (breakStep lines first depth prev p) := by
  rw [Cursor.step, lineAt_of_getElem? h]
  dsimp only [bind, Except.bind, pure, Except.pure]
  rw [if_neg (Nat.not_lt.mpr hend)]

end

/-! ## Bounds and growth -/

section
variable {lines : List ByteArray} {line : ByteArray} {d : Quotation} {p q : Position}
  {b : UInt8} {xs : List UInt8} {i first depth : Nat} {prev : Token}

theorem Quotation.length_pos (d : Quotation) : 0 < d.bytes.length := by
  rw [bytes, List.length_replicate]
  split <;> decide

theorem seekStep_spec (h : i ≤ lines.length) : ∃ o, seekStep lines i = .ok o ∧
    (∀ j, o = .inl j → j = i + 1 ∧ j ≤ lines.length) ∧
    ∀ r, o = .inr r → i ≤ r ∧ r ≤ lines.length := by
  rcases Nat.lt_or_eq_of_le h with hlt | heq
  · refine ⟨_, seekStep_of_line (List.getElem?_eq_getElem hlt), fun j hj => ?_, fun r hr => ?_⟩
    · split at hj
      · cases hj
      · obtain rfl := Sum.inl.inj hj
        exact ⟨rfl, hlt⟩
    · split at hr
      · obtain rfl := Sum.inr.inj hr
        exact ⟨Nat.le_refl i, h⟩
      · cases hr
  · refine ⟨_, seekStep_of_end (Nat.le_of_eq heq.symm), fun j hj => (nomatch hj), fun r hr => ?_⟩
    obtain rfl := Sum.inr.inj hr
    exact ⟨h, Nat.le_refl _⟩

/-- Marks that stand on a line end on it. -/
theorem onLine_of_marks {ys : List UInt8} (h : lines[p.line]? = some line)
    (hbytes : bytesFrom line p.column = b :: xs) (hbegins : ys <+: b :: xs) :
    (p.right ys.length).OnLine lines := by
  have hlength := length_bytesFrom line p.column
  have hlt := lt_size_of_bytesFrom hbytes
  have hle := hbegins.length_le
  rw [hbytes] at hlength
  refine ⟨line, h, ?_⟩
  show p.column + ys.length ≤ line.size
  omega

/-- A backslash takes the byte behind it along, or it is the last byte. -/
theorem bounded_right_two (h : lines[p.line]? = some line) (hlt : p.column < line.size) :
    (p.right 2).Bounded lines := by
  rcases Nat.lt_or_eq_of_le hlt with hlt' | heq
  · exact Or.inl ⟨line, h, hlt'⟩
  · exact Or.inr (Or.inl ⟨line, h, Nat.zero_lt_of_lt hlt, congrArg Nat.succ heq⟩)

/-- A step inside of a string literal went on within the bounds, or it came to the end of the
literal on a line, or to no end. -/
def Advances (lines : List ByteArray) (p : Position) : Position ⊕ Option Position → Prop
  | .inl t => p < t ∧ t.Bounded lines
  | .inr (some q) => p < q ∧ q.OnLine lines
  | .inr none => True

/-- **One step inside of a string literal.** -/
theorem literalStep_spec (d : Quotation) (h : p.Bounded lines) :
    ∃ o, literalStep lines d p = .ok o ∧ Advances lines p o := by
  have hlineEnd : ∀ line, lines[p.line]? = some line → line.size ≤ p.column →
      ∃ o, literalStep lines d p = .ok o ∧ Advances lines p o := by
    intro line hline hend
    refine ⟨_, literalStep_of_lineEnd hline hend, ?_⟩
    split
    · have hnext := Position.bounded_nextLine (List.getElem?_eq_some_iff.mp hline).1
      exact ⟨p.lt_nextLine, hnext.imp_right Or.inr⟩
    · trivial
  rcases h with ⟨line, hline, hcolumn⟩ | ⟨line, hline, -, hcolumn⟩ | ⟨hline, -⟩
  · cases hbytes : bytesFrom line p.column with
    | nil => exact hlineEnd line hline (size_le_of_bytesFrom hbytes)
    | cons b xs =>
      have hlt := lt_size_of_bytesFrom hbytes
      refine ⟨_, literalStep_of_byte hline hbytes, ?_⟩
      split
      · exact ⟨Position.lt_right (by decide), bounded_right_two hline hlt⟩
      · split
        · rename_i hbegins
          exact ⟨Position.lt_right d.length_pos,
            onLine_of_marks hline hbytes (List.isPrefixOf_iff_prefix.mp hbegins)⟩
        · exact ⟨Position.lt_right (by decide), Or.inl ⟨line, hline, hlt⟩⟩
  · exact hlineEnd line hline (by omega)
  · exact ⟨_, literalStep_of_end (Nat.le_of_eq hline.symm), trivial⟩

theorem afterLetter_le (line : ByteArray) (i : Nat) : i ≤ afterLetter line i := by
  rw [afterLetter]
  split
  · split <;> omega
  · exact Nat.le_refl i

/-- The opening marks take up bytes of the line. -/
theorem opened_spec (h : lines[p.line]? = some line) (hopened : opened line p = some (d, q)) :
    p < q ∧ q.OnLine lines := by
  have hle := afterLetter_le line p.column
  rw [opened] at hopened
  split at hopened
  · rename_i b xs hbytes
    split at hopened
    · rename_i hquote
      obtain ⟨rfl, rfl⟩ := Prod.mk.inj (Option.some.inj hopened)
      have hbegins : Quotation.bytes ⟨b, (List.replicate 3 b).isPrefixOf (b :: xs), hquote⟩ <+:
          b :: xs := by
        rw [Quotation.bytes]
        split
        · rename_i hthree
          exact List.isPrefixOf_iff_prefix.mp hthree
        · exact ⟨xs, rfl⟩
      refine ⟨Or.inr ⟨rfl, ?_⟩,
        @onLine_of_marks _ _ ⟨p.line, afterLetter line p.column⟩ _ _ _ h hbytes hbegins⟩
      exact Nat.lt_of_le_of_lt hle (Nat.lt_add_of_pos_right (Quotation.length_pos _))
    · cases hopened
  · cases hopened

/-- The bounds for the position of the machine: between two tokens it is on a line or right behind
it, inside of a string literal it may be beyond. -/
def Stage.Allows (lines : List ByteArray) (p : Position) : Stage → Prop
  | .between _ _ => p.OnLine lines
  | .inside _ _ => p.Bounded lines
  | .behind => p.line ≤ lines.length ∧ p.column = 0

/-- The machine is within the bounds, and not before the line on which the statement begins. -/
structure Cursor.InBounds (lines : List ByteArray) (first : Nat) (s : Cursor) : Prop where
  first_le : first ≤ s.position.line
  allows : s.stage.Allows lines s.position

/-- A step went on within the bounds, or it gave the number of a line. -/
def Proceeds (lines : List ByteArray) (first : Nat) (p : Position) : Cursor ⊕ Nat → Prop
  | .inl t => p < t.position ∧ t.InBounds lines first
  | .inr r => first ≤ r ∧ r ≤ lines.length

theorem proceeds_cursor {stage : Stage} (hfirst : first ≤ p.line) (hlt : p < q)
    (h : stage.Allows lines q) : Proceeds lines first p (.inl ⟨stage, q⟩) := by
  refine ⟨hlt, ?_, h⟩
  rcases hlt with hlt | ⟨heq, -⟩
  · exact Nat.le_trans hfirst (Nat.le_of_lt hlt)
  · exact heq ▸ hfirst

theorem proceeds_first (hfirst : first ≤ p.line) (hline : p.line ≤ lines.length) :
    Proceeds lines first p (.inr first) :=
  ⟨Nat.le_refl first, Nat.le_trans hfirst hline⟩

/-- The result where a docstring may have ended. -/
theorem proceeds_result {r : Nat} (hfirst : first ≤ p.line) (h : p.line ≤ r)
    (hr : r ≤ lines.length) :
    Proceeds lines first p (.inr (if isDone depth prev then r else first)) := by
  split
  · exact ⟨Nat.le_trans hfirst h, hr⟩
  · exact proceeds_first hfirst (Nat.le_trans h hr)

theorem breakStep_proceeds (hfirst : first ≤ p.line) (hline : p.line < lines.length) :
    Proceeds lines first p (breakStep lines first depth prev p) := by
  rw [breakStep]
  split
  · exact proceeds_cursor hfirst p.lt_nextLine ⟨hline, rfl⟩
  · split
    · exact proceeds_first hfirst (Nat.le_of_lt hline)
    · rename_i hgoes
      have hnext : p.nextLine.line < lines.length := Nat.lt_of_not_le (not_or.mp hgoes).2
      exact proceeds_cursor hfirst p.lt_nextLine (Position.onLine_of_lt hnext rfl)

theorem joinStep_proceeds (hfirst : first ≤ p.line) (hline : p.line < lines.length) :
    Proceeds lines first p (joinStep lines first depth prev p) := by
  rw [joinStep]
  split
  · exact proceeds_result hfirst (Nat.le_of_lt hline) (Nat.le_refl _)
  · rename_i hlast
    have hnext : p.nextLine.line < lines.length := Nat.lt_of_not_le hlast
    exact proceeds_cursor hfirst p.lt_nextLine (Position.onLine_of_lt hnext rfl)

theorem byteStep_proceeds (hfirst : first ≤ p.line) (h : lines[p.line]? = some line)
    (hlt : p.column < line.size) (b : UInt8) :
    ∃ o, byteStep lines first depth prev p line.size b = .ok o ∧ Proceeds lines first p o := by
  have hline : p.line < lines.length := (List.getElem?_eq_some_iff.mp h).1
  have hright : ∀ depth prev, Proceeds lines first p (.inl ⟨.between depth prev, p.right 1⟩) :=
    fun depth prev => proceeds_cursor hfirst (Position.lt_right (by decide)) ⟨line, h, hlt⟩
  have hnone : Proceeds lines first p (.inr first) := proceeds_first hfirst (Nat.le_of_lt hline)
  rw [byteStep]
  split
  · exact ⟨_, rfl, hright _ _⟩
  split
  · exact ⟨_, rfl, breakStep_proceeds hfirst hline⟩
  split
  · exact ⟨_, rfl, joinStep_proceeds hfirst hline⟩
  split
  · exact ⟨_, rfl, proceeds_result hfirst (Nat.le_refl _) (Nat.le_of_lt hline)⟩
  split
  · refine ⟨_, rfl, ?_⟩
    split
    · exact hright _ _
    · exact hnone
  split
  · refine ⟨_, rfl, ?_⟩
    split
    · exact hnone
    · exact hright _ _
  split
  · exact ⟨_, rfl, hnone⟩
  · rw [openLiteral_eq h]
    refine ⟨_, rfl, ?_⟩
    cases hopened : opened line p with
    | none => exact hnone
    | some found =>
      obtain ⟨hopens, honLine⟩ := opened_spec h hopened
      exact proceeds_cursor hfirst hopens (Or.inl honLine)

/-- **A step within the bounds meets no fault.**  It stays within the bounds, and the position
grows; or it comes to a result, which is the number of a line behind the beginning, or that of all
lines. -/
theorem Cursor.step_spec {s : Cursor} (h : s.InBounds lines first) :
    ∃ o, s.step lines first = .ok o ∧ Proceeds lines first s.position o := by
  obtain ⟨stage, p⟩ := s
  obtain ⟨hfirst, hallows⟩ := h
  cases stage with
  | between depth prev =>
    obtain ⟨line, hline, hcolumn⟩ := hallows
    cases hbytes : bytesFrom line p.column with
    | nil =>
      exact ⟨_, step_of_lineEnd hline (size_le_of_bytesFrom hbytes),
        breakStep_proceeds hfirst (List.getElem?_eq_some_iff.mp hline).1⟩
    | cons b xs =>
      rw [step_of_byte hline hbytes]
      exact byteStep_proceeds hfirst hline (lt_size_of_bytesFrom hbytes) b
  | inside d depth =>
    obtain ⟨o, ho, hadvances⟩ := literalStep_spec d hallows
    rw [Cursor.step, ho]
    rcases o with q | _ | q
    · exact ⟨_, rfl, proceeds_cursor hfirst hadvances.1 hadvances.2⟩
    · exact ⟨_, rfl, proceeds_first hfirst hallows.le.1⟩
    · exact ⟨_, rfl, proceeds_cursor hfirst hadvances.1 hadvances.2⟩
  | behind =>
    obtain ⟨hline, hcolumn⟩ := hallows
    obtain ⟨o, ho, hgoes, hends⟩ := seekStep_spec hline
    rw [Cursor.step, ho]
    rcases o with j | r
    · obtain ⟨rfl, hle⟩ := hgoes j rfl
      exact ⟨_, rfl, p.lt_nextLine, Nat.le_succ_of_le hfirst, hle, rfl⟩
    · exact ⟨_, rfl, Nat.le_trans hfirst (hends r rfl).1, (hends r rfl).2⟩

end

/-! ## Every run ends -/

section
variable {lines : List ByteArray} {d : Quotation} {p q : Position} {i r first : Nat} {s t : Cursor}

theorem bounded_of_le (h : p.line ≤ lines.length) (hcolumn : p.column = 0) : p.Bounded lines := by
  rcases Nat.lt_or_eq_of_le h with hlt | heq
  · exact Or.inl (Position.onLine_of_lt hlt hcolumn)
  · exact Or.inr (Or.inr ⟨heq, hcolumn⟩)

theorem Cursor.InBounds.bounded (h : s.InBounds lines first) : s.position.Bounded lines := by
  obtain ⟨stage, p⟩ := s
  cases stage with
  | between depth prev => exact Or.inl h.allows
  | inside d depth => exact h.allows
  | behind => exact bounded_of_le h.allows.1 h.allows.2

theorem seekStep_grows (i : Nat) (h : i ≤ lines.length) : ∃ o, seekStep lines i = .ok o ∧
    ∀ j, o = .inl j → Position.mk i 0 < Position.mk j 0 ∧ j ≤ lines.length := by
  obtain ⟨o, ho, hgoes, -⟩ := seekStep_spec h
  refine ⟨o, ho, fun j hj => ?_⟩
  obtain ⟨rfl, hle⟩ := hgoes j hj
  exact ⟨Position.lt_nextLine ⟨i, 0⟩, hle⟩

theorem literalStep_grows (d : Quotation) (p : Position) (h : p.Bounded lines) :
    ∃ o, literalStep lines d p = .ok o ∧ ∀ t, o = .inl t → id p < id t ∧ t.Bounded lines := by
  obtain ⟨o, ho, hadvances⟩ := literalStep_spec d h
  refine ⟨o, ho, fun t ht => ?_⟩
  rw [ht] at hadvances
  exact hadvances

theorem Cursor.step_grows (s : Cursor) (h : s.InBounds lines first) :
    ∃ o, s.step lines first = .ok o ∧
      ∀ t, o = .inl t → s.position < t.position ∧ t.InBounds lines first := by
  obtain ⟨o, ho, hproceeds⟩ := Cursor.step_spec h
  refine ⟨o, ho, fun t ht => ?_⟩
  rw [ht] at hproceeds
  exact hproceeds

theorem exists_runs_seek (h : i ≤ lines.length) : ∃ r, Runs (seekStep lines) i r :=
  Runs.exists_of_growing seekStep_grows (fun _ hi => bounded_of_le hi rfl) h

theorem exists_runs_literal (d : Quotation) (h : p.Bounded lines) :
    ∃ r, Runs (literalStep lines d) p r :=
  Runs.exists_of_growing (literalStep_grows d) (fun _ hp => hp) h

theorem exists_runs_cursor (h : s.InBounds lines first) :
    ∃ r, Runs (Cursor.step lines first) s r :=
  Runs.exists_of_growing Cursor.step_grows (fun _ hs => hs.bounded) h

theorem advances_of_step {o : Position ⊕ Option Position} (h : p.Bounded lines)
    (hstep : literalStep lines d p = .ok o) : Advances lines p o := by
  obtain ⟨o', ho, hadvances⟩ := literalStep_spec d h
  obtain rfl := Except.ok.inj (ho.symm.trans hstep)
  exact hadvances

theorem Cursor.InBounds.proceeds {o : Cursor ⊕ Nat} (h : s.InBounds lines first)
    (hstep : s.step lines first = .ok o) : Proceeds lines first s.position o := by
  obtain ⟨o', ho, hproceeds⟩ := Cursor.step_spec h
  obtain rfl := Except.ok.inj (ho.symm.trans hstep)
  exact hproceeds

/-- The end of a string literal is on a line, behind its beginning. -/
theorem lt_of_runs_literal (h : p.Bounded lines) (hrun : Runs (literalStep lines d) p (some q)) :
    p < q ∧ q.OnLine lines := by
  generalize hr : some q = r at hrun
  induction hrun with
  | done hstep =>
    subst hr
    exact advances_of_step h hstep
  | next hstep hrun ih =>
    obtain ⟨hlt, hbounded⟩ := advances_of_step h hstep
    obtain ⟨hlt', honLine⟩ := ih hbounded hr
    exact ⟨Position.lt_trans hlt hlt', honLine⟩

/-- The result is the number of a line behind the beginning, or that of all lines. -/
theorem le_of_runs_cursor (h : s.InBounds lines first) (hrun : Runs (Cursor.step lines first) s r) :
    first ≤ r ∧ r ≤ lines.length := by
  induction hrun with
  | done hstep => exact h.proceeds hstep
  | next hstep hrun ih => exact ih (h.proceeds hstep).2

end
end Docstring
end ForwardDecl
