import ForwardDecl.Proofs.Toggling

/-! # Removing undoes adding

An added text is a marked text in one more way: the lines of the source are the
lines to keep, and all that adding put in is marked as left out.  The two halves
of the round trip meet there.  On one side, adding writes the lines of that
marked text (`splitLines_of_added`).  On the other, a removing pass runs over it
with exactly those marks (`steps_addedText`), and keeps the source and the two
empty lines around the cleanup, which are then cut.

The source must not hold the fixed markers itself, and nothing may be declared
above the line before which the import goes (`Restorable`): a class text inside
the docstring would move the import into its five lines.
-/
namespace ForwardDecl
open Marked Conversion

/-- The lines of a source that removing can give back after adding. -/
structure Restorable (ignore : IgnoreList) (source : List Line) : Prop where
  /-- No line is one of the fixed markers. -/
  unmarked : ∀ l ∈ source, stripped l ∉ Marker.fixed
  /-- No class above the place of the import is declared forward. -/
  undeclared : ∀ i < Docstring.insertionLine source, ∀ l ∈ source[i]?,
    declares ignore (i + 1) l = none

instance (ignore : IgnoreList) (source : List Line) : Decidable (Restorable ignore source) :=
  decidable_of_iff ((∀ l ∈ source, stripped l ∉ Marker.fixed) ∧
      ∀ i < Docstring.insertionLine source, ∀ l ∈ source[i]?, declares ignore (i + 1) l = none)
    ⟨fun h => ⟨h.1, h.2⟩, fun h => ⟨h.unmarked, h.undeclared⟩⟩

/-! ## The marked text of an addition -/

/-- The lines above the place of the import. -/
def headLines (source : List Line) : List Line := source.take (Docstring.insertionLine source)

/-- The lines below the place of the import. -/
def bodyLines (source : List Line) : List Line := source.drop (Docstring.insertionLine source)

theorem headLines_append_bodyLines (source : List Line) :
    headLines source ++ bodyLines source = source := List.take_append_drop _ source

/-- The cleanup, of which only the empty lines are kept. -/
def markedTail : List (Line × Bool) :=
  [([], true), (Marker.deleteForward, false), (Marker.deleteContinue, false), ([], true)]

/-- All that adding makes of a source, as a marked text. -/
def addedText (ignore : IgnoreList) (source : List Line) : List (Line × Bool) :=
  (headLines source).map (·, true) ++ (Marker.importLine, false) ::
    additions ignore (headLines source).length (bodyLines source) ++ markedTail

section
variable {ignore : IgnoreList} {source : List Line}

/-- Nothing is added above the place of the import. -/
theorem additions_eq (h : Restorable ignore source) :
    additions ignore 0 source = (headLines source).map (·, true) ++
      additions ignore (headLines source).length (bodyLines source) := by
  have hhead : ∀ i, ∀ l ∈ (headLines source)[i]?, declares ignore (0 + i + 1) l = none := by
    intro i l hl
    rw [Nat.zero_add]
    by_cases hi : i < Docstring.insertionLine source
    · rw [headLines, List.getElem?_take_of_lt hi] at hl
      exact h.undeclared i hi l hl
    · rw [headLines, List.getElem?_take_eq_none (Nat.le_of_not_lt hi)] at hl
      cases hl
  calc additions ignore 0 source
      = additions ignore 0 (headLines source ++ bodyLines source) := by
        rw [headLines_append_bodyLines]
    _ = _ := by rw [additions_append, additions_of_none hhead, Nat.zero_add]

/-- The import goes between the lines above its place and whatever is put out for
the lines below it. -/
theorem insertImport_headLines {later : List Line} (h : bodyLines source = [] → later = []) :
    insertImport (Docstring.insertionLine source) (headLines source ++ later) =
      headLines source ++ Marker.importLine :: later := by
  by_cases hlen : Docstring.insertionLine source ≤ source.length
  · have hhead : (headLines source).length = Docstring.insertionLine source :=
      List.length_take_of_le hlen
    rw [insertImport, List.take_left' hhead, List.drop_left' hhead]
  · -- the place is past the end, so there is nothing below it
    have hle : source.length ≤ Docstring.insertionLine source := Nat.le_of_not_le hlen
    obtain rfl : later = [] := h (List.drop_of_length_le hle)
    have hhead : (headLines source).length ≤ Docstring.insertionLine source :=
      List.length_take_le _ source
    rw [insertImport, List.append_nil, List.take_of_length_le hhead,
      List.drop_of_length_le hhead]

theorem lines_addedText (h : Restorable ignore source) :
    lines (addedText ignore source) =
      insertImport (Docstring.insertionLine source) (lines (additions ignore 0 source)) ++
        tail := by
  have hbody : bodyLines source = [] →
      lines (additions ignore (headLines source).length (bodyLines source)) = [] := by
    intro hb
    rw [hb]
    rfl
  rw [additions_eq h, lines_append, lines_map_true, insertImport_headLines hbody, addedText,
    lines_append, lines_append, lines_map_true]
  rfl

theorem kept_addedText (h : Restorable ignore source) :
    kept (addedText ignore source) = source ++ [[], []] := by
  have hsource := kept_additions ignore 0 source
  rw [additions_eq h, kept_append] at hsource
  rw [addedText, kept_append, kept_append, kept_cons_false, hsource]
  rfl

theorem leftOut_addedText (h : Restorable ignore source) :
    leftOut (addedText ignore source) = leftOut (additions ignore 0 source) + 3 := by
  have htail : leftOut markedTail = 2 := rfl
  rw [additions_eq h, addedText, leftOut_append, leftOut_append, leftOut_append,
    leftOut_cons_false, htail]
  omega

end

/-! ## Removing runs over it -/

section
variable {ignore : IgnoreList}

/-- The lines of a forward declaration bring a removing pass back outside. -/
theorem steps_addition {number : Nat} {l : Line} (hb : ¬ Bars l)
    (hf : stripped l ∉ Marker.fixed) :
    Pass.Steps .outside (addition ignore number l) .outside := by
  cases hd : declares ignore number l with
  | none =>
    have hone : ∀ m ∈ [l], ¬ Bars m ∧ stripped m ∉ Marker.fixed := by simpa using ⟨hb, hf⟩
    rw [addition_of_none hd]
    exact Pass.steps_plain hone
  | some name =>
    have hclass := declaredClass?_of_declares hd
    have hkind : lineKind l = .code (stripped l) := by
      refine (lineKind_of_not_bars hb).resolve_left fun hk => ?_
      rw [lineKind_eq_blank_iff.mp hk] at hclass
      cases hclass
    rw [addition_of_some hd]
    exact .cons (.decorator (lineKind_decorator l)) <|
      .cons (.head hkind (isClassDeclaration_of_declaredClass? hclass)) <|
      .cons (.body (lineKind_placeholder l) (by decide)) <|
      .cons (.body (lineKind_continuation l name) (continuation_ne_opener name)) <|
      .cons (.opener (lineKind_opener l)) .nil

theorem steps_additions {ls : List Line} (h : ∀ l ∈ ls, ¬ Bars l ∧ stripped l ∉ Marker.fixed)
    (read : Nat) : Pass.Steps .outside (additions ignore read ls) .outside := by
  induction ls generalizing read with
  | nil => exact .nil
  | cons l ls ih =>
    obtain ⟨⟨hb, hf⟩, hls⟩ := List.forall_mem_cons.mp h
    exact (steps_addition hb hf).append (ih hls (read + 1))

/-- A fixed marker that stands alone is left out. -/
theorem step_loose {m : Line} (hk : lineKind m = .code m) (hm : Marker.isLoose m = true) :
    Pass.Step .outside m false .outside := .loose hk hm

theorem steps_markedTail : Pass.Steps .outside markedTail .outside := by
  have hempty : Pass.Step .outside [] true .outside := .blank (by decide)
  exact .cons hempty <| .cons (step_loose (by decide) (by decide)) <|
    .cons (step_loose (by decide) (by decide)) <| .cons hempty .nil

/-- **A removing pass goes over an added text with its marks.** -/
theorem steps_addedText {source : List Line} (hb : ∀ l ∈ source, ¬ Bars l)
    (hf : ∀ l ∈ source, stripped l ∉ Marker.fixed) :
    Pass.Steps .outside (addedText ignore source) .outside := by
  have hall : ∀ l ∈ source, ¬ Bars l ∧ stripped l ∉ Marker.fixed := fun l hl => ⟨hb l hl, hf l hl⟩
  have hhead : Pass.Steps .outside ((headLines source).map (·, true)) .outside :=
    Pass.steps_plain fun l hl => hall l (List.mem_of_mem_take hl)
  have hbody : Pass.Steps .outside
      (additions ignore (headLines source).length (bodyLines source)) .outside :=
    steps_additions (fun l hl => hall l (List.mem_of_mem_drop hl)) _
  have himport : Pass.Step .outside Marker.importLine false .outside :=
    step_loose (by decide) (by decide)
  exact (hhead.append (.cons himport hbody)).append steps_markedTail

end

/-! ## The round trip -/

section
variable {ignore : IgnoreList} {text : List Char} {r : Converted}

/-- What adding has done when it modified something. -/
theorem Conversion.Finished.of_added {source : List Line} {e : Ending} (h : Finished source e r)
    (hm : 0 < r.modifications) (ha : r.mode = .add) :
    ∃ out n, e = .complete .add out n ∧ n ≠ 0 ∧
      r = ⟨insertImport (Docstring.insertionLine source) out ++ tail, .add, n + 5, none⟩ := by
  cases h with
  | untouched mode reason => exact absurd hm (Nat.lt_irrefl 0)
  | empty mode n => exact absurd hm (Nat.lt_irrefl 0)
  | unmodified mode hl => exact absurd hm (Nat.lt_irrefl 0)
  | added hl hn => exact ⟨_, _, rfl, hn, rfl⟩
  | cut hne hl hn => exact absurd ha hne

theorem mode_of_convert_add (h : convert .add ignore text = .ok r) : r.mode = .add := by
  have hmode := (convert_eq_ok_iff.mp h).2.mode?_eq
  rw [show Pass.run .add ignore (splitLines text) = Pass.add ignore 0 (splitLines text) from rfl,
    Pass.add_mode] at hmode
  exact (Option.some.inj hmode).symm

/-- **The result of adding, read back, is the marked text of the addition**, and
none of its source lines bars the text. -/
theorem splitLines_of_added (h : convert .add ignore text = .ok r) (hm : 0 < r.modifications)
    (ht : Restorable ignore (splitLines text)) :
    splitLines r.text = lines (addedText ignore (splitLines text)) ∧
      r.modifications = leftOut (addedText ignore (splitLines text)) + 2 ∧
      ∀ l ∈ splitLines text, ¬ Bars l := by
  obtain ⟨out, n, he, -, rfl⟩ :=
    (convert_eq_ok_iff.mp h).2.of_added hm (mode_of_convert_add h)
  obtain ⟨rfl, rfl, hb⟩ := Pass.add_complete he
  have hunbroken : ∀ l ∈ lines (addedText ignore (splitLines text)), Unbroken l := by
    have hsource : ∀ l ∈ splitLines text, Unbroken l := fun l hl => unbroken_of_mem_splitLines hl
    intro l hl
    rw [addedText, lines_append, lines_append, lines_map_true, lines_cons] at hl
    rcases List.mem_append.mp hl with hl | hl
    · rcases List.mem_append.mp hl with hl | hl
      · exact hsource l (List.mem_of_mem_take hl)
      · rcases List.mem_cons.mp hl with rfl | hl
        · decide
        · exact unbroken_additions (fun m hm => hsource m (List.mem_of_mem_drop hm)) l hl
    · exact (by decide : ∀ m ∈ lines markedTail, Unbroken m) l hl
  refine ⟨?_, ?_, hb⟩
  · rw [Converted.text, ← lines_addedText ht]
    exact splitLines_joinLines hunbroken
  · rw [leftOut_addedText ht]

/-- Removing gives the source back and counts what adding counted. -/
theorem convert_remove_of_added {other : IgnoreList} (h : convert .add ignore text = .ok r)
    (hm : 0 < r.modifications) (ht : Restorable ignore (splitLines text))
    (ho : other.check = .ok ()) :
    convert .remove other r.text = .ok ⟨splitLines text, .remove, r.modifications, none⟩ := by
  obtain ⟨hsplit, hcount, hb⟩ := splitLines_of_added h hm ht
  refine convert_eq_ok_iff.mpr ⟨ho, ?_⟩
  have hend : (Pass.run .remove other (splitLines r.text)).ending = .complete .remove
      (splitLines text ++ [[], []]) (leftOut (addedText ignore (splitLines text))) := by
    rw [hsplit, ← kept_addedText ht]
    exact Pass.remove_complete_of_steps (steps_addedText hb ht.unmarked) Pass.Site.closed_outside 0
  rw [hend, hcount]
  exact .cut_two (by rw [leftOut_addedText ht]; exact Nat.succ_ne_zero _)

/-- **Removing undoes adding.**  If adding modified a restorable text, removing
gives its lines back and counts as many modifications, with whatever ignore list;
and adding once more gives the first result again. -/
theorem remove_restores_source {other : IgnoreList} (h : convert .add ignore text = .ok r)
    (hm : 0 < r.modifications) (ht : Restorable ignore (splitLines text))
    (ho : other.check = .ok ()) :
    ∃ back, convert .remove other r.text = .ok back ∧ back.mode = .remove ∧
      back.skipped = none ∧ back.lines = splitLines text ∧
      back.modifications = r.modifications ∧ convert .add ignore back.text = .ok r := by
  refine ⟨_, convert_remove_of_added h hm ht ho, rfl, rfl, rfl, rfl, ?_⟩
  rw [← h]
  apply convert_of_splitLines
  exact splitLines_joinLines fun l hl => unbroken_of_mem_splitLines hl

/-- A docstring, a nested class, a class and a line to ignore, a class with the
name of the opener, and empty lines at the end. -/
theorem remove_restores_source_nested :
    ∃ r back, convert .add [.ofClass "D", .ofLine 7]
        "'Doc'\r\nclass A(B):\n    class C :\n    class D:\nclass _____:\n\nclass E:\n\n\n".toList =
        .ok r ∧ 0 < r.modifications ∧
      convert .remove [.ofLine 1] r.text = .ok back ∧ back.mode = .remove ∧
      back.skipped = none ∧ back.lines = ["'Doc'", "class A(B):", "    class C :", "    class D:",
        "class _____:", "", "class E:", "", ""].map String.toList ∧ back.modifications = 17 := by
  let added : Converted := ⟨["'Doc'", "from forward import *", "@forward()", "class A(B):",
    "    ...", "@continue_(A)", "class _____:", "    @forward()", "    class C :", "        ...",
    "    @continue_(C)", "    class _____:", "    class D:", "@forward()", "class _____:",
    "    ...", "@continue_(_____)", "class _____:", "", "class E:", "", "", "", "del forward",
    "del continue_", ""].map String.toList, .add, 17, none⟩
  have h : convert .add [.ofClass "D", .ofLine 7]
      "'Doc'\r\nclass A(B):\n    class C :\n    class D:\nclass _____:\n\nclass E:\n\n\n".toList =
      .ok added := by decide +kernel
  have ho : IgnoreList.check [.ofLine 1] = .ok () := rfl
  obtain ⟨back, hback, hmode, hskip, hlines, hcount, -⟩ :=
    remove_restores_source h (by decide) (by decide +kernel) ho
  refine ⟨added, back, h, by decide, hback, hmode, hskip, ?_, hcount⟩
  rw [hlines]
  decide +kernel

/-! ## Toggling twice -/

/-- A line that is not marked tells toggling nothing unless it begins a class. -/
theorem quiet_of_unmarked {p : Line} (hb : ¬ Bars p) (hf : stripped p ∉ Marker.fixed)
    (hc : startsClass (stripped p) = false) :
    Quiet p ∧ stripped p ≠ Marker.deleteForward ∧ stripped p ≠ Marker.deleteContinue := by
  simp only [Marker.fixed, List.mem_cons, List.not_mem_nil, or_false, not_or] at hf
  obtain ⟨hi, hdf, hdc, hd⟩ := hf
  exact ⟨⟨hb, hc, hi, hd⟩, hdf, hdc⟩

/-- **Toggling twice is the identity exactly if no class begins above the import.**
If toggling added to a restorable text, toggling again gives its lines back, with
the same count, just when no line above the place of the import begins like a
class declaration.  Such a line is taken for a class that is yet to be
declared. -/
theorem toggle_restores_iff (h : convert .toggle ignore text = .ok r) (ha : r.mode = .add)
    (hm : 0 < r.modifications) (ht : Restorable ignore (splitLines text)) :
    (∃ back, convert .toggle ignore r.text = .ok back ∧ back.mode = .remove ∧
      back.skipped = none ∧ back.lines = splitLines text ∧
      back.modifications = r.modifications) ↔
    ∀ l ∈ headLines (splitLines text), startsClass (stripped l) = false := by
  have hadd := convert_add_of_toggle h ha
  obtain ⟨hsplit, -, hb⟩ := splitLines_of_added hadd hm ht
  have hhead : ∀ p ∈ headLines (splitLines text), ¬ Bars p ∧ stripped p ∉ Marker.fixed :=
    fun p hp => ⟨hb p (List.mem_of_mem_take hp), ht.unmarked p (List.mem_of_mem_take hp)⟩
  rw [addedText, lines_append, lines_append, lines_map_true, lines_cons, List.append_assoc,
    List.cons_append] at hsplit
  constructor
  · rintro ⟨back, hback, hmode, -⟩
    cases hf : (headLines (splitLines text)).find? (startsClass ∘ stripped) with
    | none => simpa using hf
    | some c =>
      -- the first line above the import that begins a class makes toggling add
      exfalso
      obtain ⟨hc, before, after, hbefore, hnone⟩ := List.find?_eq_some_iff_append.mp hf
      rw [hbefore] at hsplit hhead
      have hq : ∀ p ∈ before, Quiet p := by
        intro p hp
        obtain ⟨hpb, hpf⟩ := hhead p (List.mem_append_left _ hp)
        exact (quiet_of_unmarked hpb hpf (by simpa using hnone p hp)).1
      have hcb : ¬ Bars c := (hhead c (by simp)).1
      rw [List.append_assoc, List.cons_append] at hsplit
      have hadds := toggle_mode_of_class hsplit hq hcb hc hback
      rw [hmode] at hadds
      cases hadds
  · intro hc
    have hquiet : ∀ p ∈ headLines (splitLines text), Quiet p ∧
        stripped p ≠ Marker.deleteForward ∧ stripped p ≠ Marker.deleteContinue :=
      fun p hp => quiet_of_unmarked (hhead p hp).1 (hhead p hp).2 (hc p hp)
    have hsignal : SignalsRemoval Marker.importLine := Or.inl (by decide)
    rw [convert_toggle_eq_remove hsplit hsignal hquiet,
      convert_remove_of_added hadd hm ht (check_of_convert h)]
    exact ⟨_, rfl, rfl, rfl, rfl, rfl⟩

/-- A module with a comment, a docstring and an import above its class. -/
theorem toggle_restores_iff_module :
    ∃ r, convert .toggle [] "# x\n'Doc.'\nimport os\nclass A:\n    pass\n".toList = .ok r ∧
      r.mode = .add ∧ 0 < r.modifications ∧
      ∃ back, convert .toggle [] r.text = .ok back ∧ back.mode = .remove ∧ back.skipped = none ∧
        back.lines = ["# x", "'Doc.'", "import os", "class A:", "    pass"].map String.toList ∧
        back.modifications = 9 := by
  let added : Converted := ⟨["# x", "'Doc.'", "from forward import *", "import os", "@forward()",
    "class A:", "    ...", "@continue_(A)", "class _____:", "    pass", "", "del forward",
    "del continue_", ""].map String.toList, .add, 9, none⟩
  have h : convert .toggle [] "# x\n'Doc.'\nimport os\nclass A:\n    pass\n".toList =
      .ok added := by decide +kernel
  obtain ⟨back, hback, hmode, hskip, hlines, hcount⟩ :=
    (toggle_restores_iff h rfl (by decide) (by decide +kernel)).mpr (by decide +kernel)
  refine ⟨added, h, rfl, by decide, back, hback, hmode, hskip, ?_, hcount⟩
  rw [hlines]
  decide +kernel

/-- **A docstring can turn the second toggling around.**  The text is restorable
and toggling added to it, but a line of its docstring begins with `class`, so
that toggling takes the result for one to add to and leaves it alone. -/
theorem toggle_twice_stopped_by_docstring :
    ∃ r, convert .toggle [] "'''\nclass notes\n'''\nclass A:\n    pass\n".toList = .ok r ∧
      r.mode = .add ∧ 0 < r.modifications ∧
      Restorable [] (splitLines "'''\nclass notes\n'''\nclass A:\n    pass\n".toList) ∧
      ¬ ∃ back, convert .toggle [] r.text = .ok back ∧ back.mode = .remove ∧
        back.skipped = none ∧
        back.lines = splitLines "'''\nclass notes\n'''\nclass A:\n    pass\n".toList ∧
        back.modifications = r.modifications := by
  let added : Converted := ⟨["'''", "class notes", "'''", "from forward import *", "@forward()",
    "class A:", "    ...", "@continue_(A)", "class _____:", "    pass", "", "del forward",
    "del continue_", ""].map String.toList, .add, 9, none⟩
  refine ⟨added, by decide +kernel, rfl, by decide, by decide +kernel, ?_⟩
  rintro ⟨back, hback, hmode, -⟩
  have hskip : convert .toggle [] added.text =
      .ok ⟨added.lines, .add, 0, some .alreadyForward⟩ := by decide +kernel
  rw [hskip] at hback
  obtain rfl := Except.ok.inj hback
  cases hmode

end
end ForwardDecl
