import ForwardDecl.Proofs.ImportPlacement

/-! # The head of a text

Above the first line with code stand comments, empty lines, an interpreter line
and a coding line, all of which a reader looks for at the very top.  Adding declares
nothing there, and the import goes below, so that each of these lines stays where it
is.

A byte order mark shares its line with whatever follows it.  To find the first
statement the mark is passed over, but the import is put in front of a whole line,
mark and all.  So the mark is still the first character exactly if the import goes
below the first line: there is no code on this line, or a docstring begins there and
the import goes behind its first line (`head_kept`).  Otherwise it is buried
(`mark_buried`).
-/
namespace ForwardDecl
open Conversion Docstring

/-! ## The place of the import and the first line with code -/

namespace Docstring
variable {lines : List Line} {first : Nat}

theorem Ending.line_le_importLine (ending : Ending) : ending.line ≤ ending.importLine := by
  cases ending with
  | semicolon e => exact Nat.le_refl e
  | lineEnd e rest => exact Nat.le_of_lt (lt_nextStatement e rest)

theorem le_insertionLine (h : FirstCode lines 0 first) : first ≤ insertionLine lines := by
  cases hfound : (lineStart? lines first).bind (statementEnd? 0 .start) with
  | none => exact Nat.le_of_eq (insertionLine_of_no_end h hfound).symm
  | some ending =>
    obtain ⟨start, hstart, hend⟩ := Option.bind_eq_some_iff.mp hfound
    obtain ⟨-, -, hline⟩ := drop_of_lineStart? hstart
    have hread : (Reading.mk 0 .start start).end? = some ending := hend
    have hle := line_le_of_end hread
    rw [insertionLine_of_end h hstart hend]
    calc first = start.line := hline.symm
      _ ≤ ending.line := hle
      _ ≤ ending.importLine := ending.line_le_importLine

/-- The import goes right before the first line with code, unless a docstring begins there that has
its lines to itself or ends further below, at a semicolon. -/
theorem insertionLine_ne_iff (h : FirstCode lines 0 first) : insertionLine lines ≠ first ↔
    ∃ e, IsDocstring lines first e ∨ SharesLine lines first e ∧ e ≠ first := by
  constructor
  · intro hne
    cases hfound : (lineStart? lines first).bind (statementEnd? 0 .start) with
    | none => exact absurd (insertionLine_of_no_end h hfound) hne
    | some ending =>
      obtain ⟨start, hstart, hend⟩ := Option.bind_eq_some_iff.mp hfound
      rw [insertionLine_of_end h hstart hend] at hne
      have hstatement := statementEnd?_eq_some_iff.mp hend
      cases ending with
      | lineEnd e rest => exact ⟨e, Or.inl ⟨start, rest, hstart, hstatement⟩⟩
      | semicolon e => exact ⟨e, Or.inr ⟨⟨start, hstart, hstatement⟩, hne⟩⟩
  · rintro ⟨e, ⟨start, rest, hstart, hstatement⟩ | ⟨⟨start, hstart, hstatement⟩, hne⟩⟩
    · have hend := statementEnd?_eq_some_iff.mpr hstatement
      obtain ⟨-, -, hline⟩ := drop_of_lineStart? hstart
      have hread : (Reading.mk 0 .start start).end? = some (.lineEnd e rest) := hend
      have hle : start.line ≤ e := line_le_of_end hread
      have hlt := lt_nextStatement e rest
      rw [insertionLine_of_end h hstart hend]
      show nextStatement (e + 1) rest ≠ first
      omega
    · rw [insertionLine_of_end h hstart (statementEnd?_eq_some_iff.mpr hstatement)]
      exact hne

end Docstring

/-! ## What adding puts out at the top -/

section
variable {ignore : IgnoreList} {text : List Char} {r : Converted} {n : Nat}

theorem Conversion.take_insertImport {index : Nat} {lines : List Line} (hindex : n ≤ index)
    (hn : n ≤ lines.length) : (insertImport index lines).take n = lines.take n := by
  have hlen : n ≤ (lines.take index).length := by
    rw [List.length_take]
    omega
  rw [insertImport, List.take_append_of_le_length hlen, List.take_take, Nat.min_eq_left hindex]

/-- The lines above the import among which nothing is declared are put out as they are. -/
theorem take_lines_of_undeclared (h : convert .add ignore text = .ok r) (hm : 0 < r.modifications)
    (hindex : n ≤ insertionLine (splitLines text)) (hn : n ≤ (splitLines text).length)
    (hd : ∀ i < n, ∀ l ∈ (splitLines text)[i]?, ¬ Declared ignore (i + 1) l) :
    r.lines.take n = (splitLines text).take n := by
  obtain ⟨out, m, he, -, rfl⟩ := (convert_eq_ok_iff.mp h).2.of_added hm (mode_of_convert_add h)
  obtain ⟨rfl, -, -⟩ := Pass.add_complete he
  obtain ⟨blocks, hblocks⟩ : ∃ blocks, Blocks ignore (splitLines text) blocks :=
    ⟨_, blocks_mapIdx ignore (splitLines text)⟩
  have hout := congrArg List.flatten (List.take_append_drop n blocks)
  rw [List.flatten_append, hblocks.flatten_take hd, hblocks.flatten_eq] at hout
  have hlen : ((splitLines text).take n).length = n := List.length_take_of_le hn
  have hle : n ≤ (Marked.lines (additions ignore 0 (splitLines text))).length := by
    rw [← hout, List.length_append, hlen]
    omega
  have hinsert := take_insertImport hindex hle
  have hplaced : n ≤ (insertImport (insertionLine (splitLines text))
      (Marked.lines (additions ignore 0 (splitLines text)))).length := by
    have := congrArg List.length hinsert
    rw [List.length_take, List.length_take] at this
    omega
  dsimp only
  rw [List.take_append_of_le_length hplaced, hinsert, ← hout, List.take_left' hlen]

/-- Nothing is declared at a line without code. -/
theorem not_declared_of_not_holdsCode {number : Nat} {l : Line} (h : holdsCode l = false) :
    ¬ Declared ignore number l := by
  intro hd
  rw [holdsCode_of_startsClass (startsClass_of_declared hd)] at h
  cases h

/-- Nothing is declared at a line with a byte order mark in front. -/
theorem not_declared_of_mark {number : Nat} {l : Line} :
    ¬ Declared ignore number (byteOrderMark :: l) := by
  intro hd
  have hmark := congrArg List.length (dropMark_of_startsClass (startsClass_of_declared hd))
  simp [dropMark] at hmark

/-! ## The byte order mark -/

/-- A text with a mark in front has it at the start of its first line. -/
theorem splitLines_mark (rest : List Char) :
    ∃ l ls, splitLines (byteOrderMark :: rest) = (byteOrderMark :: l) :: ls := by
  have hunify : unifyEnds (byteOrderMark :: rest) = byteOrderMark :: unifyEnds rest := by
    rw [unifyEnds.eq_3 byteOrderMark rest (by intro cs hc; cases hc)]
    rfl
  rw [splitLines, hunify, splitUnified_cons (by decide)]
  cases splitUnified (unifyEnds rest) with
  | nil => exact ⟨[], [], rfl⟩
  | cons l ls => exact ⟨l, ls, rfl⟩

/-- The mark stays in front exactly if the import goes below the first line. -/
theorem mark_isPrefix_iff {rest : List Char}
    (h : convert .add ignore (byteOrderMark :: rest) = .ok r) (hm : 0 < r.modifications) :
    [byteOrderMark] <+: r.text ↔ insertionLine (splitLines (byteOrderMark :: rest)) ≠ 0 := by
  obtain ⟨l, ls, hsplit⟩ := splitLines_mark rest
  constructor
  · intro hmark hzero
    -- the text begins with the import
    obtain ⟨out, m, -, -, rfl⟩ := (convert_eq_ok_iff.mp h).2.of_added hm (mode_of_convert_add h)
    rw [Converted.text, hzero] at hmark
    obtain ⟨t, ht⟩ := hmark
    exact absurd (List.cons.inj ht).1 (by decide)
  · intro hne
    have hfirst : ∀ i < 1, ∀ m ∈ (splitLines (byteOrderMark :: rest))[i]?,
        ¬ Declared ignore (i + 1) m := by
      intro i hi m hmem
      obtain rfl : i = 0 := by omega
      rw [hsplit] at hmem
      obtain rfl : byteOrderMark :: l = m := Option.some.inj hmem
      exact not_declared_of_mark
    have hlen : 1 ≤ (splitLines (byteOrderMark :: rest)).length := by
      rw [hsplit, List.length_cons]
      omega
    have htake := take_lines_of_undeclared h hm (Nat.one_le_iff_ne_zero.mpr hne) hlen hfirst
    rw [hsplit] at htake
    cases hlines : r.lines with
    | nil =>
      rw [hlines] at htake
      cases htake
    | cons m ms =>
      rw [hlines] at htake
      obtain rfl : m = byteOrderMark :: l := (List.cons.inj htake).1
      rw [Converted.text, hlines, joinLines_cons]
      exact ⟨_, rfl⟩

/-! ## The head -/

/-- The head of a text, above its first line with code, stands in a result as it did. -/
structure Converted.KeepsHead (text : List Char) (first : Nat) (r : Converted) : Prop where
  /-- Each line of the head is where it was. -/
  lines : ∀ i < first, r.lines[i]? = (splitLines text)[i]?
  /-- A byte order mark is still in front, if and only if there is no code on the first line, or a
  docstring begins there that has its lines to itself or ends further below, at a semicolon. -/
  mark : ∀ rest, text = byteOrderMark :: rest → ([byteOrderMark] <+: r.text ↔ first ≠ 0 ∨
    ∃ e, IsDocstring (splitLines text) 0 e ∨ SharesLine (splitLines text) 0 e ∧ e ≠ 0)

/-- **Adding keeps the head of a text.**  If adding modified a text, every line above the first one
with code stands in the result as it did, under the same number, and it is known when a byte order
mark in front of the text is in front of the result. -/
theorem head_kept {first : Nat} (h : convert .add ignore text = .ok r) (hm : 0 < r.modifications)
    (hfirst : FirstCode (splitLines text) 0 first) : r.KeepsHead text first := by
  have hle := le_insertionLine hfirst
  refine ⟨?_, ?_⟩
  · have hundeclared : ∀ i < first, ∀ l ∈ (splitLines text)[i]?, ¬ Declared ignore (i + 1) l := by
      intro i hi l hl
      exact not_declared_of_not_holdsCode (hfirst.before i l (Nat.zero_le i) hi hl)
    have htake := take_lines_of_undeclared h hm hle hfirst.le_length hundeclared
    intro i hi
    rw [← List.getElem?_take_of_lt hi, htake, List.getElem?_take_of_lt hi]
  · rintro rest rfl
    rw [mark_isPrefix_iff h hm]
    by_cases hzero : first = 0
    · subst hzero
      rw [insertionLine_ne_iff hfirst]
      simp
    · have hpos : insertionLine (splitLines (byteOrderMark :: rest)) ≠ 0 := by omega
      exact iff_of_true hpos (Or.inl hzero)

/-- A mark and a coding line above the code. -/
theorem head_kept_coding :
    ∃ r, convert .add [] "\ufeff# coding: utf-8\n\nimport os\nclass A:\n".toList = .ok r ∧
      0 < r.modifications ∧ r.lines[0]? = some "\ufeff# coding: utf-8".toList ∧
      r.lines[1]? = some [] ∧ r.lines[2]? = some "from forward import *".toList ∧
      [byteOrderMark] <+: r.text := by
  let added : Converted := ⟨["\ufeff# coding: utf-8", "", "from forward import *", "import os",
    "@forward()", "class A:", "    ...", "@continue_(A)", "class _____:", "", "del forward",
    "del continue_", ""].map String.toList, .add, 9, none⟩
  have h : convert .add [] "\ufeff# coding: utf-8\n\nimport os\nclass A:\n".toList = .ok added := by
    decide +kernel
  have hfirst : FirstCode
      (splitLines "\ufeff# coding: utf-8\n\nimport os\nclass A:\n".toList) 0 2 :=
    firstCode_nextStatement [] _
  obtain ⟨hlines, hmark⟩ := head_kept h (by decide) hfirst
  refine ⟨added, h, by decide, ?_, ?_, rfl, (hmark _ rfl).mpr (Or.inl (by decide))⟩
  · rw [hlines 0 (by decide)]
    decide +kernel
  · rw [hlines 1 (by decide)]
    decide +kernel

/-- **A byte order mark is buried by the import** if the text begins with it and with code that is
no docstring: the mark is then at the start of the second line. -/
theorem mark_buried :
    ∃ r, convert .add [] "\ufeffimport os\nclass A:\n    pass\n".toList = .ok r ∧
      0 < r.modifications ∧
      [byteOrderMark] <+: "\ufeffimport os\nclass A:\n    pass\n".toList ∧
      ¬ [byteOrderMark] <+: r.text ∧
      r.lines.take 2 = ["from forward import *".toList, "\ufeffimport os".toList] := by
  refine ⟨⟨["from forward import *", "\ufeffimport os", "@forward()", "class A:", "    ...",
    "@continue_(A)", "class _____:", "    pass", "", "del forward", "del continue_", ""].map
      String.toList, .add, 9, none⟩, ?_, ?_, ?_, ?_, ?_⟩ <;> decide +kernel

end
end ForwardDecl
