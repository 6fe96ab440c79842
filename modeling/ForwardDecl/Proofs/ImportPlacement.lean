import ForwardDecl.Proofs.Declaring
import ForwardDecl.Proofs.RoundTrip
import ForwardDecl.Proofs.StatementLines

/-! # Between which lines the import stands

The place of the import is found in the lines of the source, and the import is
put in among the lines that adding puts out.  The two agree as long as adding
puts out one line for each line above the place.  Above the place there are only
comments, empty lines and the docstring, so that nothing is declared there,
except where a line of a string literal reads like a class declaration
(`Docstring.beginsInLiteral_of_startsClass`).  Where no such line is declared,
what is put out for the lines above its place ends right before the import, and
what is put out for the lines below begins right after it (`import_stands_between`).
-/
namespace ForwardDecl
open Marked Conversion

/-! ## Lines that begin a class -/

theorem dropEndWhile_isPrefix (p : Char → Bool) (cs : List Char) : dropEndWhile p cs <+: cs := by
  have hsuffix : cs.reverse.dropWhile p <:+ cs.reverse := List.dropWhile_suffix p
  rw [dropEndWhile, ← List.reverse_suffix, List.reverse_reverse]
  exact hsuffix

theorem dropEndWhile_cons {p : Char → Bool} {c : Char} (hc : p c = false) (cs : List Char) :
    ∃ ds, dropEndWhile p (c :: cs) = c :: ds := by
  rw [dropEndWhile, List.reverse_cons, List.dropWhile_append]
  split
  · exact ⟨[], by simp [hc]⟩
  · exact ⟨((cs.reverse.dropWhile p).reverse), by simp⟩

section
variable {l : Line}

/-- A line that begins a class has nothing but padding in front of it. -/
theorem padding_of_startsClass (h : startsClass (stripped l) = true) :
    ∃ pad cs, l = pad ++ 'c' :: cs ∧ ∀ c ∈ pad, isPad c = true := by
  obtain ⟨t, ht⟩ := startsClass_iff.mp h
  obtain ⟨after, hafter⟩ := dropEndWhile_isPrefix isPad (l.dropWhile isPad)
  have hdrop : l.dropWhile isPad = 'c' :: ("lass ".toList ++ t ++ after) := by
    rw [← hafter, show dropEndWhile isPad (l.dropWhile isPad) = _ from ht]
    rfl
  refine ⟨l.takeWhile isPad, "lass ".toList ++ t ++ after, ?_, ?_⟩
  · rw [← hdrop, List.takeWhile_append_dropWhile]
  · intro c hc
    exact List.mem_takeWhile_imp hc

end

namespace Docstring

section
variable {d : Nat} {prev : Token} {l : Line}

theorem dropMark_of_startsClass (h : startsClass (stripped l) = true) : dropMark l = l := by
  obtain ⟨pad, cs, rfl, hpad⟩ := padding_of_startsClass h
  cases pad with
  | nil => rfl
  | cons c pad =>
    have hc : c ≠ byteOrderMark := by
      rintro rfl
      exact absurd (hpad _ List.mem_cons_self) (by decide)
    simp [dropMark, hc]

theorem holdsCode_of_startsClass (h : startsClass (stripped l) = true) : holdsCode l = true := by
  have hmark := dropMark_of_startsClass h
  obtain ⟨pad, cs, rfl, hpad⟩ := padding_of_startsClass h
  have hspace : ∀ c ∈ pad, isSpace c = true := fun c hc => isSpace_of_isPad (hpad c hc)
  have hdrop : (pad ++ 'c' :: cs).dropWhile isSpace = 'c' :: cs := by
    rw [List.dropWhile_append_of_pos hspace, List.dropWhile_cons_of_neg (by decide)]
  obtain ⟨ds, hds⟩ := @dropEndWhile_cons isSpace 'c' (by decide) cs
  rw [holdsCode, hmark, trimWhile, hdrop, hds]
  rfl

/-- Of the padding, blanks between tokens are skipped, so that a vertical tab is left. -/
theorem dropWhile_isInline_padding {pad : List Char} (hpad : ∀ c ∈ pad, isPad c = true)
    (cs : List Char) :
    ∃ c ds, (pad ++ 'c' :: cs).dropWhile isInline = c :: ds ∧ (c = 'c' ∨ c = '\x0b') := by
  induction pad with
  | nil => exact ⟨'c', cs, List.dropWhile_cons_of_neg (by decide), Or.inl rfl⟩
  | cons c pad ih =>
    obtain ⟨hc, hpad⟩ := List.forall_mem_cons.mp hpad
    by_cases hinline : isInline c = true
    · rw [List.cons_append, List.dropWhile_cons_of_pos hinline]
      exact ih hpad
    · refine ⟨c, pad ++ 'c' :: cs, List.dropWhile_cons_of_neg hinline, Or.inr ?_⟩
      simp only [isPad, isInline, Bool.or_eq_true, decide_eq_true_eq] at hc hinline
      exact hc.resolve_left hinline

/-- A line that begins a class is no part of a docstring outside of its string literals. -/
theorem statementEnd?_of_startsClass {p : Place} (h : startsClass (stripped p.cur) = true) :
    statementEnd? d prev p = none := by
  obtain ⟨pad, cs, hcur, hpad⟩ := padding_of_startsClass h
  obtain ⟨c, ds, hdrop, hc⟩ := dropWhile_isInline_padding hpad cs
  rw [← hcur] at hdrop
  rw [statementEnd?_of_cons hdrop]
  rcases hc with rfl | rfl <;> simp [literal?, dropStringLetter]

end

/-! ## Classes above the import -/

/-- The line with index `i` begins inside of a string literal of the first statement. -/
def BeginsInLiteral (lines : List Line) (i : Nat) : Prop :=
  ∃ first start r, FirstCode lines 0 first ∧ lineStart? lines first = some start ∧
    InsideLiteral start r ∧ r.line = i

section
variable {lines : List Line} {first i : Nat} {l : Line} {start q : Place} {ending : Ending}

theorem cur_of_lineStart? (hstart : lineStart? lines i = some start) (hl : lines[i]? = some l)
    (hmark : dropMark l = l) : start.cur = l := by
  unfold lineStart? at hstart
  split at hstart
  · cases hstart
  · rename_i m rest hdrop
    have hm : lines[i]? = some m := by
      rw [← List.head?_drop, hdrop]
      rfl
    obtain rfl : m = l := Option.some.inj (hm.symm.trans hl)
    obtain rfl := Option.some.inj hstart
    dsimp only
    split
    · exact hmark
    · rfl

theorem getElem?_of_laterLine (hstart : lineStart? lines first = some start)
    (hlater : LaterLine start q) : lines[q.line]? = some q.cur := by
  obtain ⟨l, hdrop, hline⟩ := drop_of_lineStart? hstart
  obtain ⟨passed, hrest, hq⟩ := hlater
  rw [hq, hline, Nat.add_assoc, ← List.getElem?_drop, hdrop, hrest]
  simp

/-- A line above the import that holds code is a line of a docstring. -/
theorem le_of_lt_insertionLine (hfirst : FirstCode lines 0 first)
    (hstart : lineStart? lines first = some start)
    (hend : statementEnd? 0 .start start = some ending) (hl : lines[i]? = some l)
    (hcode : holdsCode l = true) (hi : i < insertionLine lines) : i ≤ ending.line := by
  rw [insertionLine_of_end hfirst hstart hend] at hi
  cases ending with
  | semicolon e => exact Nat.le_of_lt hi
  | lineEnd e rest =>
    apply Nat.le_of_not_lt
    intro hlt
    -- there is no code between the docstring and the import
    obtain ⟨before, rfl, hlength⟩ := (statementEnd?_eq_some_iff.mp hend).drop_eq hstart
    have hafter := firstCode_nextStatement before rest
    rw [hlength] at hafter
    rw [hafter.before i l hlt hi hl] at hcode
    cases hcode

/-- **A class above the import stands in a string literal.** -/
theorem beginsInLiteral_of_startsClass (hl : lines[i]? = some l)
    (hclass : startsClass (stripped l) = true) (hi : i < insertionLine lines) :
    BeginsInLiteral lines i := by
  have hcode := holdsCode_of_startsClass hclass
  obtain ⟨first, hfirst⟩ : ∃ first, FirstCode lines 0 first :=
    ⟨_, firstCode_nextStatement [] lines⟩
  have hge : first ≤ i := by
    apply Nat.le_of_not_lt
    intro hlt
    rw [hfirst.before i l (Nat.zero_le i) hlt hl] at hcode
    cases hcode
  cases hfound : (lineStart? lines first).bind (statementEnd? 0 .start) with
  | none =>
    have heq := insertionLine_of_no_end hfirst hfound
    omega
  | some ending =>
    obtain ⟨start, hstart, hend⟩ := Option.bind_eq_some_iff.mp hfound
    have hle := le_of_lt_insertionLine hfirst hstart hend hl hcode hi
    obtain ⟨-, -, hline⟩ := drop_of_lineStart? hstart
    have hne : i ≠ first := by
      rintro rfl
      have hcur := cur_of_lineStart? hstart hl (dropMark_of_startsClass hclass)
      rw [statementEnd?_of_startsClass (hcur ▸ hclass)] at hend
      cases hend
    have hlt : start.line < i := by omega
    have hcomes : Comes start ⟨0, .start, start⟩ := .refl
    rcases begins_of_end hcomes hend hlt hle with ⟨t, ht, hlater, rfl⟩ | ⟨r, hr, hr'⟩
    · -- between two tokens the reader would stop at the class
      have hcur : l = t.place.cur :=
        Option.some.inj (hl.symm.trans (getElem?_of_laterLine hstart hlater))
      rw [ht.end?_eq, Reading.end?, statementEnd?_of_startsClass (hcur ▸ hclass)] at hend
      cases hend
    · exact ⟨first, start, r, hfirst, hstart, hr, hr'⟩

end
end Docstring

/-! ## The place of the import -/

section
variable {ignore : IgnoreList} {source : List Line} {blocks : List (List Line)} {i : Nat} {l : Line}

theorem startsClass_of_declared (h : Declared ignore i l) : startsClass (stripped l) = true := by
  obtain ⟨name, hname⟩ := h
  exact startsClass_of_declaredClass? (declaredClass?_eq_some_iff.mpr hname.declaration)

/-- The lines before a place at which nothing is declared are put out as they are. -/
theorem Blocks.flatten_take {n : Nat} (h : Blocks ignore source blocks)
    (hn : ∀ i < n, ∀ l ∈ source[i]?, ¬ Declared ignore (i + 1) l) :
    (blocks.take n).flatten = source.take n := by
  have hcopied : blocks.take n = (source.take n).map fun l => [l] := by
    apply List.ext_getElem?
    intro i
    rw [List.getElem?_map, List.getElem?_take, List.getElem?_take]
    split
    · cases hl : source[i]? with
      | none =>
        rw [List.getElem?_eq_none (by rw [h.length_eq]; exact List.getElem?_eq_none_iff.mp hl)]
        rfl
      | some l => exact h.copied i l hl (hn i ‹_› l hl)
    · rfl
  rw [hcopied, ← List.flatMap_def, List.flatMap_singleton']

/-- Where the lines above its place are put out as they are, the import goes between the blocks
above and the blocks below. -/
theorem Blocks.insertImport_eq (h : Blocks ignore source blocks)
    (hhead : (blocks.take (Docstring.insertionLine source)).flatten =
      source.take (Docstring.insertionLine source)) :
    insertImport (Docstring.insertionLine source) blocks.flatten =
      (blocks.take (Docstring.insertionLine source)).flatten ++
        Marker.importLine :: (blocks.drop (Docstring.insertionLine source)).flatten := by
  have hbody : bodyLines source = [] →
      (blocks.drop (Docstring.insertionLine source)).flatten = [] := by
    intro hnil
    have hle := List.drop_eq_nil_iff.mp hnil
    rw [List.drop_eq_nil_of_le (h.length_eq ▸ hle)]
    rfl
  have hsplit := congrArg List.flatten
    (List.take_append_drop (Docstring.insertionLine source) blocks)
  rw [List.flatten_append, hhead] at hsplit
  rw [hhead, ← hsplit]
  exact insertImport_headLines hbody

/-- **The import stands between the lines of its place.**  If adding modified a text, and declared
no class above the place of the import on a line that begins inside of a string literal, all that
is put out for the lines above this place comes before the import, and all that is put out for
the lines below comes after it.  In particular the import does not stand between the lines of a
forward declaration. -/
theorem import_stands_between {text : List Char} {r : Converted}
    (h : convert .add ignore text = .ok r) (hm : 0 < r.modifications)
    (hd : ∀ i < Docstring.insertionLine (splitLines text), ∀ l ∈ (splitLines text)[i]?,
      Docstring.BeginsInLiteral (splitLines text) i → ¬ Declared ignore (i + 1) l) :
    ∃ blocks, Blocks ignore (splitLines text) blocks ∧
      r.lines = (blocks.take (Docstring.insertionLine (splitLines text))).flatten ++
        "from forward import *".toList ::
          (blocks.drop (Docstring.insertionLine (splitLines text))).flatten ++
        [[], "del forward".toList, "del continue_".toList, []] := by
  obtain ⟨out, n, he, -, rfl⟩ := (convert_eq_ok_iff.mp h).2.of_added hm (mode_of_convert_add h)
  obtain ⟨rfl, -, -⟩ := Pass.add_complete he
  have hblocks := blocks_mapIdx ignore (splitLines text)
  -- outside of string literals nothing above the import looks like a class
  have hhead : ∀ i < Docstring.insertionLine (splitLines text), ∀ l ∈ (splitLines text)[i]?,
      ¬ Declared ignore (i + 1) l := by
    intro i hi l hl hdeclared
    have hclass := startsClass_of_declared hdeclared
    exact hd i hi l hl (Docstring.beginsInLiteral_of_startsClass hl hclass hi) hdeclared
  refine ⟨_, hblocks, ?_⟩
  dsimp only
  rw [← hblocks.flatten_eq, hblocks.insertImport_eq (hblocks.flatten_take hhead)]
  rfl

/-- A docstring with a line that begins like a class but declares none, and a comment below. -/
def notedLines : List Line :=
  ["'''", "class notes", "'''", "# x", "class A:", "    pass"].map String.toList

/-- The import stands between the comment and the class. -/
theorem import_stands_between_noted :
    ∃ r, convert .add [] (joinLines notedLines) = .ok r ∧ 0 < r.modifications ∧
      ∃ blocks, Blocks [] notedLines blocks ∧
        r.lines = (blocks.take 4).flatten ++ "from forward import *".toList ::
          (blocks.drop 4).flatten ++ [[], "del forward".toList, "del continue_".toList, []] := by
  let added : Converted := ⟨["'''", "class notes", "'''", "# x", "from forward import *",
    "@forward()", "class A:", "    ...", "@continue_(A)", "class _____:", "    pass", "",
    "del forward", "del continue_", ""].map String.toList, .add, 9, none⟩
  have h : convert .add [] (joinLines notedLines) = .ok added := by decide +kernel
  have hsplit : splitLines (joinLines notedLines) = notedLines := by decide +kernel
  have hline : Docstring.insertionLine notedLines = 4 := by decide +kernel
  have hnone : ∀ i < 4, ∀ l ∈ notedLines[i]?, ¬ Declared [] (i + 1) l := by decide +kernel
  have hbetween := import_stands_between h (by decide)
  rw [hsplit, hline] at hbetween
  exact ⟨added, h, by decide, hbetween fun i hi l hl _ => hnone i hi l hl⟩

/-- **A class in a docstring can catch the import.**  The class is declared in the midst of the
docstring, and the import stands between its declaration and the placeholder. -/
theorem import_splits_declaration :
    ∃ r, convert .add [] "'''\nclass A:\n'''\n".toList = .ok r ∧ 0 < r.modifications ∧
      ["class A:".toList, "from forward import *".toList, "    ...".toList] <:+: r.lines ∧
      ¬∃ blocks, Blocks [] (splitLines "'''\nclass A:\n'''\n".toList) blocks ∧
        r.lines = (blocks.take (Docstring.insertionLine
            (splitLines "'''\nclass A:\n'''\n".toList))).flatten ++
          "from forward import *".toList :: (blocks.drop (Docstring.insertionLine
            (splitLines "'''\nclass A:\n'''\n".toList))).flatten ++
          [[], "del forward".toList, "del continue_".toList, []] := by
  let added : Converted := ⟨["'''", "@forward()", "class A:", "from forward import *", "    ...",
    "@continue_(A)", "class _____:", "'''", "", "del forward", "del continue_", ""].map
      String.toList, .add, 9, none⟩
  refine ⟨added, by decide +kernel, by decide, ?_, ?_⟩
  · exact ⟨added.lines.take 2, added.lines.drop 5, rfl⟩
  · rintro ⟨blocks, hblocks, hlines⟩
    rw [hblocks.unique (blocks_mapIdx [] _)] at hlines
    revert hlines
    decide +kernel

end
end ForwardDecl
