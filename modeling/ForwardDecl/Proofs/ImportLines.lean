import ForwardDecl.Proofs.Docstrings

/-! # Where the import goes

The import goes in front of the first code that is not the docstring of a module.  What the
docstring is, is said by the grammar of docstring statements; so the line of the import is
known from the grammar and from which lines hold code, without a look at how a text is read
(`Docstring.insertionLine_of_grammar`).

A statement that ends on some line was read through the lines before it, each as a whole
(`Docstring.Onward`), so that the lines after the statement are known from its last one.
-/
namespace ForwardDecl
namespace Docstring

/-! ## The lines of a statement -/

/-- From the first place on, whole lines were passed to come to the second one. -/
def Onward (p q : Place) : Prop :=
  ∃ passed, p.rest = passed ++ q.rest ∧ q.line = p.line + passed.length

section
variable {isOpen : Prop} {mark : Char} {triple : Bool} {d top n : Nat} {cs ds : List Char}
  {l : Line} {rest : List Line} {p q r : Place} {ending : Ending}

theorem onward_line (n : Nat) (cs ds : List Char) (rest : List Line) :
    Onward ⟨n, cs, rest⟩ ⟨n, ds, rest⟩ := ⟨[], rfl, rfl⟩

theorem onward_nextLine (n : Nat) (cs : List Char) (l : Line) (rest : List Line) :
    Onward ⟨n, cs, l :: rest⟩ ⟨n + 1, l, rest⟩ := ⟨[l], rfl, rfl⟩

theorem Onward.trans (h : Onward p q) (h' : Onward q r) : Onward p r := by
  obtain ⟨passed, hrest, hline⟩ := h
  obtain ⟨passed', hrest', hline'⟩ := h'
  refine ⟨passed ++ passed', ?_, ?_⟩
  · rw [hrest, hrest', List.append_assoc]
  · rw [hline', hline, List.length_append, Nat.add_assoc]

theorem Gap.onward (h : Gap isOpen p q) : Onward p q := by
  induction h with
  | nothing p => exact onward_line _ _ _ _
  | blank hc h ih => exact (onward_line _ _ _ _).trans ih
  | joined h ih | broken ho h ih | comment ho h ih => exact (onward_nextLine _ _ _ _).trans ih

theorem Inside.onward (h : Inside mark triple p q) : Onward p q := by
  induction h with
  | closed => exact onward_line _ _ _ _
  | escaped h ih | character hc hopen h ih => exact (onward_line _ _ _ _).trans ih
  | joined h ih | broken htriple h ih => exact (onward_nextLine _ _ _ _).trans ih

theorem Literal.onward (h : Literal p q) : Onward p q := by
  cases h with
  | triple hletter hmark h => exact (onward_line _ _ _ _).trans h.onward
  | single hletter hmark hfew h => exact (onward_line _ _ _ _).trans h.onward

theorem Opens.onward (h : Opens d p q) : Onward p q := by
  induction h with
  | nothing p => exact onward_line _ _ _ _
  | more h hgap ih => exact (ih.trans hgap.onward).trans (onward_line _ _ _ _)

theorem Literals.onward (h : Literals isOpen p q) : Onward p q := by
  induction h with
  | one hgap h => exact hgap.onward.trans h.onward
  | more h hgap hlit ih => exact (ih.trans hgap.onward).trans hlit.onward

theorem Closes.onward (h : Closes top d p q) : Onward p q := by
  induction h with
  | nothing p => exact onward_line _ _ _ _
  | more h hgap ih => exact (ih.trans hgap.onward).trans (onward_line _ _ _ _)

/-- The lines after a statement are the last ones of those after its beginning. -/
theorem Statement.passed {e : Nat} (h : Statement p (.lineEnd e rest)) :
    ∃ passed, p.rest = passed ++ rest ∧ e = p.line + passed.length := by
  obtain ⟨d, p₁, p₂, p₃, p₄, hopens, hliterals, hcloses, hgap, hends⟩ := h
  have honward := ((hopens.onward.trans hliterals.onward).trans hcloses.onward).trans hgap.onward
  cases hends <;> exact honward

end

/-! ## The line of the import -/

/-- The line with index `r` is the first one with code from the index `i` on, or there is
none and `r` is the number of lines. -/
structure FirstCode (lines : List Line) (i r : Nat) : Prop where
  from_le : i ≤ r
  le_length : r ≤ lines.length
  before : ∀ k l, i ≤ k → k < r → lines[k]? = some l → holdsCode l = false
  code : ∀ l, lines[r]? = some l → holdsCode l = true

/-- The start of a line, behind a byte order mark if it is the first one. -/
def lineStart? (lines : List Line) (i : Nat) : Option Place :=
  match lines.drop i with
  | [] => none
  | l :: rest => some ⟨i, if i = 0 then dropMark l else l, rest⟩

/-- From the line `first` to the line `e` there is a docstring statement, and nothing else. -/
def IsDocstring (lines : List Line) (first e : Nat) : Prop :=
  ∃ p rest, lineStart? lines first = some p ∧ Statement p (.lineEnd e rest)

/-- The docstring statement on the line `first` is ended on the line `e` by a semicolon. -/
def SharesLine (lines : List Line) (first e : Nat) : Prop :=
  ∃ p, lineStart? lines first = some p ∧ Statement p (.semicolon e)

section
variable {lines before rest : List Line} {i r r' first e : Nat} {p : Place}

theorem FirstCode.unique (h : FirstCode lines i r) (h' : FirstCode lines i r') : r = r' := by
  have hle : ∀ {r r'}, FirstCode lines i r → FirstCode lines i r' → r' ≤ r := by
    intro r r' h h'
    apply Nat.le_of_not_lt
    intro hlt
    have hr : r < lines.length := Nat.lt_of_lt_of_le hlt h'.le_length
    have hcode := h.code lines[r] (List.getElem?_eq_getElem hr)
    have hnone := h'.before r lines[r] h.from_le hlt (List.getElem?_eq_getElem hr)
    rw [hcode] at hnone
    cases hnone
  exact Nat.le_antisymm (hle h' h) (hle h h')

theorem firstCode_nextStatement (before rest : List Line) :
    FirstCode (before ++ rest) before.length (nextStatement before.length rest) := by
  have hsplit := List.takeWhile_append_dropWhile (p := fun l => !holdsCode l) (l := rest)
  unfold nextStatement
  generalize hblank : rest.takeWhile (fun l => !holdsCode l) = blank at hsplit ⊢
  generalize hcode : rest.dropWhile (fun l => !holdsCode l) = code at hsplit
  subst hsplit
  refine ⟨by omega, by simp, ?_, ?_⟩
  · intro k l hk hlt hl
    rw [List.getElem?_append_right hk, List.getElem?_append_left (by omega)] at hl
    have hall : blank.all (fun l => !holdsCode l) = true := hblank ▸ List.all_takeWhile
    simpa using List.all_eq_true.mp hall l (List.mem_of_getElem? hl)
  · intro l hl
    rw [List.getElem?_append_right (by omega), List.getElem?_append_right (by omega)] at hl
    cases code with
    | nil => simp at hl
    | cons c code =>
      obtain rfl : c = l := by simpa using hl
      have hhead := List.head?_dropWhile_not (fun l => !holdsCode l) (blank ++ c :: code)
      rw [hcode] at hhead
      simpa using hhead

/-- The line of the import, read off the end of the first statement. -/
theorem insertionLine_eq (h : FirstCode lines 0 first) : insertionLine lines =
    match lineStart? lines first with
    | none => first
    | some p =>
      match statementEnd? 0 .start p with
      | none => first
      | some (.semicolon e) => e
      | some (.lineEnd e rest) => nextStatement (e + 1) rest := by
  obtain rfl := h.unique (firstCode_nextStatement [] lines)
  unfold insertionLine lineStart?
  dsimp only [List.length_nil]
  cases lines.drop (nextStatement 0 lines) <;> rfl

theorem drop_of_lineStart? (h : lineStart? lines i = some p) :
    ∃ l, lines.drop i = l :: p.rest ∧ p.line = i := by
  unfold lineStart? at h
  split at h
  · cases h
  · rename_i l rest hdrop
    obtain rfl := Option.some.inj h
    exact ⟨l, hdrop, rfl⟩

/-- The lines after a docstring are those after its last line. -/
theorem Statement.drop_eq (h : lineStart? lines i = some p) (hs : Statement p (.lineEnd e rest)) :
    ∃ before, lines = before ++ rest ∧ before.length = e + 1 := by
  obtain ⟨l, hdrop, hline⟩ := drop_of_lineStart? h
  obtain ⟨passed, hrest, rfl⟩ := hs.passed
  have hlt : i < lines.length := by
    apply Nat.lt_of_not_le
    intro hle
    rw [List.drop_eq_nil_of_le hle] at hdrop
    cases hdrop
  refine ⟨lines.take i ++ l :: passed, ?_, ?_⟩
  · rw [List.append_assoc, List.cons_append, ← hrest, ← hdrop, List.take_append_drop]
  · rw [List.length_append, List.length_take, List.length_cons, hline]
    omega

/-- **Where the import goes.**  Let `first` be the first line with code.

* If the lines from `first` to `e` are a docstring statement, then the import goes before
  the first line with code after `e`, or to the end if there is none.
* If the docstring statement is ended by a semicolon on the line `e`, then it goes before
  that line.
* If no docstring statement begins on `first`, then it goes before `first`. -/
theorem insertionLine_of_grammar (h : FirstCode lines 0 first) :
    (∀ e, IsDocstring lines first e → FirstCode lines (e + 1) (insertionLine lines)) ∧
    (∀ e, SharesLine lines first e → insertionLine lines = e) ∧
    ((∀ e, ¬IsDocstring lines first e ∧ ¬SharesLine lines first e) →
      insertionLine lines = first) := by
  rw [insertionLine_eq h]
  refine ⟨?_, ?_, ?_⟩
  · rintro e ⟨p, rest, hp, hs⟩
    obtain ⟨before, rfl, hlength⟩ := hs.drop_eq hp
    rw [hp, ← hlength]
    dsimp only
    rw [statementEnd?_eq_some_iff.mpr hs]
    dsimp only
    rw [← hlength]
    exact firstCode_nextStatement before rest
  · rintro e ⟨p, hp, hs⟩
    rw [hp]
    dsimp only
    rw [statementEnd?_eq_some_iff.mpr hs]
  · intro hnone
    cases hp : lineStart? lines first with
    | none => rfl
    | some p =>
      dsimp only
      cases hend : statementEnd? 0 .start p with
      | none => rfl
      | some ending =>
        have hs := statementEnd?_eq_some_iff.mp hend
        cases ending with
        | lineEnd e rest => exact absurd ⟨p, rest, hp, hs⟩ (hnone e).1
        | semicolon e => exact absurd ⟨p, hp, hs⟩ (hnone e).2

/-- A docstring of two literals in parentheses, with a comment between them. -/
def aboutLines : List Line :=
  ["# coding", "(r\"\"\"About # this", "module.\"\"\"  # more", "'it')", "", "x = 1"].map
    String.toList

/-- The import goes behind the docstring, to the first line with code. -/
theorem insertionLine_of_grammar_about : FirstCode aboutLines 0 1 ∧ IsDocstring aboutLines 1 3 ∧
    FirstCode aboutLines 4 (insertionLine aboutLines) ∧ insertionLine aboutLines = 5 := by
  have hfirst : FirstCode aboutLines 0 1 :=
    firstCode_nextStatement [] aboutLines
  have hdoc : IsDocstring aboutLines 1 3 := by
    refine ⟨⟨1, "(r\"\"\"About # this".toList, aboutLines.drop 2⟩, aboutLines.drop 4, rfl, 1,
      ⟨1, "r\"\"\"About # this".toList, aboutLines.drop 2⟩, ⟨3, ")".toList, aboutLines.drop 4⟩,
      ⟨3, [], aboutLines.drop 4⟩, ⟨3, [], aboutLines.drop 4⟩, ?_, ?_, ?_, .nothing _, .line _ _⟩
    · exact .more (.nothing _) (.nothing _)
    · have hfirst : Literal ⟨1, "r\"\"\"About # this".toList, aboutLines.drop 2⟩
          ⟨2, "  # more".toList, aboutLines.drop 3⟩ := literal?_eq_some_iff.mp (by decide)
      have hsecond : Literal ⟨3, "'it')".toList, aboutLines.drop 4⟩
          ⟨3, ")".toList, aboutLines.drop 4⟩ := literal?_eq_some_iff.mp (by decide)
      refine .more (.one (.nothing _) hfirst) ?_ hsecond
      exact .blank rfl (.blank rfl (.comment (by decide) (.nothing _)))
    · exact .more (.nothing _) (.nothing _)
  have hafter := (insertionLine_of_grammar hfirst).1 3 hdoc
  exact ⟨hfirst, hdoc, hafter, hafter.unique (firstCode_nextStatement (aboutLines.take 4) _)⟩

end
end Docstring
end ForwardDecl
