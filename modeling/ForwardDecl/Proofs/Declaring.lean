import Mathlib.Data.List.Induction
import ForwardDecl.Proofs.Conservation

/-! # What adding does to a text

Adding reads a text line by line and may give up at any of them.  Seen from
outside there is a simple rule.  A line can *stop* adding (`Stops`): it bars the
text, or it is a decorator that adding is not told to ignore.  The first such
line decides why the text is left as it is.  If there is none, each line is put
out by itself (`Blocks`): one that is `Declarable` gives the five lines of its
forward declaration, and any other line is copied.  Import and cleanup come on
top (`add_effect`).

The pass and the rule meet in one lemma: over lines that do not stop it, an
adding pass puts out the additions of these lines and goes on
(`Pass.add_append`), to the end of the text or to the line that stops it.
-/
namespace ForwardDecl
open Marked

/-! ## Ignored lines and classes -/

namespace IgnoreList
variable {ignore : IgnoreList}

theorem mem_lines_iff {number : Nat} :
    (number : Int) ∈ ignore.lines ↔ ignore.ignoresLine number = true := by
  simp [lines, ignoresLine, and_assoc]

theorem mem_classes_iff {name : List Char} :
    String.ofList name ∈ ignore.classes ↔ ignore.ignoresClass name = true := by
  have heq : ∀ w : String, w = String.ofList name ↔ w.toList = name := by
    intro w
    rw [← String.toList_inj, String.toList_ofList]
  simp [classes, ignoresClass, heq, and_assoc]

end IgnoreList

/-! ## Class declarations -/

/-- The stripped line `s` declares the class `name` on one line. -/
structure IsDeclaration (s name : Line) : Prop where
  /-- It begins with `class NAME` and goes on with one of three characters. -/
  head : ∃ c rest, c ∈ ['(', ' ', ':'] ∧ s = "class ".toList ++ (name ++ c :: rest)
  name_ne_nil : name ≠ []
  name_chars : ∀ c ∈ name, isNameChar c = true
  colon : [':'] <:+ s

section
variable {s t name : Line}

theorem startsClass_iff : startsClass s = true ↔ ∃ t, s = "class ".toList ++ t := by
  rw [startsClass, List.isPrefixOf_iff_prefix]
  constructor
  · rintro ⟨t, rfl⟩
    exact ⟨t, rfl⟩
  · rintro ⟨t, rfl⟩
    exact ⟨t, rfl⟩

theorem isClassDeclaration_iff :
    isClassDeclaration s = true ↔ startsClass s = true ∧ [':'] <:+ s := by
  rw [isClassDeclaration, Bool.and_eq_true, decide_eq_true_iff, List.getLast?_eq_some_iff]
  constructor
  · rintro ⟨hs, t, rfl⟩
    exact ⟨hs, t, rfl⟩
  · rintro ⟨hs, t, rfl⟩
    exact ⟨hs, t, rfl⟩

/-- No character that may follow a name is a character of one, so that the name ends where it
must. -/
theorem not_isNameChar {c : Char} (hc : c ∈ ['(', ' ', ':']) : isNameChar c = false := by
  simp only [List.mem_cons, List.not_mem_nil, or_false] at hc
  rcases hc with rfl | rfl | rfl <;> decide

theorem className?_eq_some_iff : className? ("class ".toList ++ t) = some name ↔
    name ≠ [] ∧ (∀ c ∈ name, isNameChar c = true) ∧
      ∃ c rest, c ∈ ['(', ' ', ':'] ∧ t = name ++ c :: rest := by
  have hstarts : startsClass ("class ".toList ++ t) = true := startsClass_iff.mpr ⟨t, rfl⟩
  have hdrop : ("class ".toList ++ t).drop "class ".length = t := rfl
  rw [className?, if_pos hstarts, hdrop, List.span_eq_takeWhile_dropWhile]
  constructor
  · intro h
    split at h
    · cases h
    · rename_i taken c rest hne heq
      obtain ⟨htake, hrest⟩ := Prod.mk.inj heq
      split at h
      · rename_i hc
        obtain rfl := Option.some.inj h
        refine ⟨hne, ?_, c, rest, ?_, ?_⟩
        · intro d hd
          exact List.mem_takeWhile_imp (htake ▸ hd)
        · simpa [or_assoc] using hc
        · rw [← htake, ← hrest, List.takeWhile_append_dropWhile]
      · cases h
    · cases h
  · rintro ⟨hne, hname, c, rest, hc, rfl⟩
    have hend := not_isNameChar hc
    have htake : (name ++ c :: rest).takeWhile isNameChar = name := by
      rw [List.takeWhile_append_of_pos hname, List.takeWhile_cons_of_neg (by simp [hend]),
        List.append_nil]
    have hrest : (name ++ c :: rest).dropWhile isNameChar = c :: rest := by
      rw [List.dropWhile_append_of_pos hname, List.dropWhile_cons_of_neg (by simp [hend])]
    rw [htake, hrest]
    cases name with
    | nil => exact absurd rfl hne
    | cons d name => exact if_pos (by simpa [or_assoc] using hc)

/-- **The name is read exactly from the class declarations.** -/
theorem declaredClass?_eq_some_iff : declaredClass? s = some name ↔ IsDeclaration s name := by
  rw [declaredClass?]
  constructor
  · intro h
    split at h
    · rename_i hclass
      obtain ⟨hstarts, hcolon⟩ := isClassDeclaration_iff.mp hclass
      obtain ⟨t, rfl⟩ := startsClass_iff.mp hstarts
      obtain ⟨hne, hname, c, rest, hc, rfl⟩ := className?_eq_some_iff.mp h
      exact ⟨⟨c, rest, hc, rfl⟩, hne, hname, hcolon⟩
    · cases h
  · rintro ⟨⟨c, rest, hc, rfl⟩, hne, hname, hcolon⟩
    rw [if_pos (isClassDeclaration_iff.mpr ⟨startsClass_iff.mpr ⟨_, rfl⟩, hcolon⟩)]
    exact className?_eq_some_iff.mpr ⟨hne, hname, c, rest, hc, rfl⟩

end

/-- Adding declares the class `name` at the line with this number: the line is its declaration,
and adding is told to ignore neither. -/
structure Declarable (ignore : IgnoreList) (number : Nat) (l : Line) (name : List Char) :
    Prop where
  declaration : IsDeclaration (stripped l) name
  line_not_ignored : (number : Int) ∉ ignore.lines
  class_not_ignored : String.ofList name ∉ ignore.classes

/-- Some class is declared at the line with this number. -/
def Declared (ignore : IgnoreList) (number : Nat) (l : Line) : Prop :=
  ∃ name, Declarable ignore number l name

section
variable {ignore : IgnoreList} {number : Nat} {l : Line} {name : List Char}

theorem declares_eq_some_iff :
    declares ignore number l = some name ↔ Declarable ignore number l name := by
  rw [declares]
  constructor
  · intro h
    split at h
    · cases h
    · rename_i hline
      obtain ⟨hclass, hname⟩ := Option.filter_eq_some_iff.mp h
      refine ⟨declaredClass?_eq_some_iff.mp hclass, mt IgnoreList.mem_lines_iff.mp hline, ?_⟩
      rw [IgnoreList.mem_classes_iff]
      simpa using hname
  · rintro ⟨hclass, hline, hname⟩
    rw [IgnoreList.mem_lines_iff] at hline
    rw [IgnoreList.mem_classes_iff] at hname
    rw [if_neg hline]
    refine Option.filter_eq_some_iff.mpr ⟨declaredClass?_eq_some_iff.mpr hclass, ?_⟩
    simpa using hname

theorem declares_eq_none_iff :
    declares ignore number l = none ↔ ¬ Declared ignore number l := by
  rw [Option.eq_none_iff_forall_ne_some, Declared, not_exists]
  exact forall_congr' fun name => not_congr declares_eq_some_iff

instance (ignore : IgnoreList) (number : Nat) (l : Line) :
    Decidable (Declared ignore number l) :=
  decidable_of_iff (declares ignore number l ≠ none) <| by
    rw [Ne, declares_eq_none_iff, Classical.not_not]

end

/-! ## Where adding stops -/

/-- The line with this number makes adding leave its text as it is, and why. -/
inductive Stops (ignore : IgnoreList) (number : Nat) (l : Line) : SkipReason → Prop
  | sentinel (h : stripped l = Marker.sentinel) : Stops ignore number l .sentinel
  | rejected {start : String} (hstart : start ∈ Marker.rejected)
      (h : start.toList <+: stripped l) : Stops ignore number l .rejected
  | declared (h : stripped l = Marker.decorator) (hline : (number : Int) ∉ ignore.lines) :
      Stops ignore number l .alreadyForward

section
variable {ignore : IgnoreList} {read number : Nat} {l : Line} {ls : List Line}
  {reason : SkipReason}

theorem Marker.isRejected_iff {s : Line} :
    isRejected s = true ↔ ∃ start ∈ rejected, start.toList <+: s := by
  simp [isRejected]

theorem lineKind_eq_barred_iff : lineKind l = .barred reason ↔
    stripped l = Marker.sentinel ∧ reason = .sentinel ∨
      Marker.isRejected (stripped l) = true ∧ reason = .rejected := by
  have hempty : Marker.isRejected [] = false := by decide
  have hsentinel : Marker.isRejected Marker.sentinel = false := by decide
  constructor
  · intro h
    simp only [lineKind] at h
    split at h
    · cases h
    · split at h
      · rename_i hs
        exact Or.inl ⟨hs, (LineKind.barred.inj h).symm⟩
      · split at h
        · rename_i hr
          exact Or.inr ⟨hr, (LineKind.barred.inj h).symm⟩
        · cases h
  · rintro (⟨hs, rfl⟩ | ⟨hr, rfl⟩)
    · have hne : Marker.sentinel ≠ [] := by decide
      simp [lineKind, hs, hne]
    · have hne : stripped l ≠ [] := by
        intro h
        rw [h, hempty] at hr
        cases hr
      have hs : stripped l ≠ Marker.sentinel := by
        intro h
        rw [h, hsentinel] at hr
        cases hr
      simp [lineKind, hne, hs, hr]

theorem not_stops_iff : (∀ reason, ¬ Stops ignore number l reason) ↔
    ¬ Bars l ∧ (stripped l = Marker.decorator → (number : Int) ∈ ignore.lines) := by
  constructor
  · intro h
    refine ⟨?_, ?_⟩
    · rintro (hs | hr)
      · exact h _ (.sentinel hs)
      · obtain ⟨start, hstart, hs⟩ := Marker.isRejected_iff.mp hr
        exact h _ (.rejected hstart hs)
    · intro hd
      by_contra hline
      exact h _ (.declared hd hline)
  · rintro ⟨hb, hd⟩ reason hs
    cases hs with
    | sentinel hs => exact hb (Or.inl hs)
    | rejected hstart hs => exact hb (Or.inr (Marker.isRejected_iff.mpr ⟨_, hstart, hs⟩))
    | declared hs hline => exact hline (hd hs)

namespace Pass

/-- A line that stops adding does so wherever the text goes on. -/
theorem add_of_stops (h : Stops ignore (read + 1) l reason) :
    (add ignore read (l :: ls)).ending = .untouched .add reason := by
  cases h with
  | sentinel h =>
    have hk : lineKind l = .barred .sentinel := lineKind_eq_barred_iff.mpr (Or.inl ⟨h, rfl⟩)
    simp [add, hk]
  | rejected hstart h =>
    have hr := Marker.isRejected_iff.mpr ⟨_, hstart, h⟩
    have hk : lineKind l = .barred .rejected := lineKind_eq_barred_iff.mpr (Or.inr ⟨hr, rfl⟩)
    simp [add, hk]
  | declared h hline =>
    have hk : lineKind l = .code Marker.decorator :=
      lineKind_eq_code_iff.mpr ⟨h, by decide, by decide, by decide⟩
    rw [IgnoreList.mem_lines_iff] at hline
    simp [add, hk, hline]

/-- Any other line gives its additions. -/
theorem add_of_not_stops (h : ∀ reason, ¬ Stops ignore (read + 1) l reason) :
    (add ignore read (l :: ls)).ending =
      (add ignore (read + 1) ls).ending.prepend (lines (addition ignore (read + 1) l))
        (leftOut (addition ignore (read + 1) l)) := by
  obtain ⟨hb, hline⟩ := not_stops_iff.mp h
  rcases add_cons ignore read l ls with ⟨-, he⟩ | ⟨reason, hk | ⟨hd, hi, -⟩, -⟩
  · exact he
  · exact absurd (bars_of_lineKind hk) hb
  · have hignored := IgnoreList.mem_lines_iff.mp (hline hd)
    rw [hi] at hignored
    cases hignored

/-- **Over lines that do not stop it, adding puts out their additions and goes on.** -/
theorem add_append (ignore : IgnoreList) (read : Nat) {before : List Line} (ls : List Line)
    (h : ∀ i, ∀ p ∈ before[i]?, ∀ reason, ¬ Stops ignore (read + i + 1) p reason) :
    (add ignore read (before ++ ls)).ending =
      (add ignore (read + before.length) ls).ending.prepend
        (lines (additions ignore read before)) (leftOut (additions ignore read before)) := by
  induction before generalizing read with
  | nil => exact (Ending.prepend_nil _).symm
  | cons p before ih =>
    have hp : ∀ reason, ¬ Stops ignore (read + 1) p reason := h 0 p rfl
    have hbefore : ∀ i, ∀ q ∈ before[i]?, ∀ reason, ¬ Stops ignore (read + 1 + i + 1) q reason := by
      intro i q hq
      have := h (i + 1) q hq
      rwa [show read + (i + 1) + 1 = read + 1 + i + 1 from by omega] at this
    rw [List.cons_append, add_of_not_stops hp, ih (read + 1) hbefore, Ending.prepend_prepend,
      additions, lines_append, leftOut_append, List.length_cons, Nat.add_assoc, Nat.add_comm 1]

/-- The first line that stops adding decides. -/
theorem add_stopped {source : List Line} {j : Nat} (hl : source[j]? = some l)
    (hs : Stops ignore (j + 1) l reason)
    (hbefore : ∀ i < j, ∀ p ∈ source[i]?, ∀ reason, ¬ Stops ignore (i + 1) p reason) :
    (add ignore 0 source).ending = .untouched .add reason := by
  obtain ⟨hj, rfl⟩ := List.getElem?_eq_some_iff.mp hl
  have hlen : (source.take j).length = j := List.length_take_of_le (Nat.le_of_lt hj)
  have hrun : ∀ i, ∀ p ∈ (source.take j)[i]?, ∀ reason, ¬ Stops ignore (0 + i + 1) p reason := by
    intro i p hp
    rw [List.getElem?_take] at hp
    split at hp
    · rw [Nat.zero_add]
      exact hbefore i ‹_› p hp
    · cases hp
  have hadd := add_append ignore 0 (source[j] :: source.drop (j + 1)) hrun
  rw [List.getElem_cons_drop, List.take_append_drop, hlen, Nat.zero_add,
    ← List.getElem_cons_drop hj, add_of_stops hs] at hadd
  exact hadd

/-- Without such a line the whole source is added to. -/
theorem add_unstopped {source : List Line}
    (h : ∀ i, ∀ p ∈ source[i]?, ∀ reason, ¬ Stops ignore (i + 1) p reason) :
    (add ignore 0 source).ending = .complete .add (lines (additions ignore 0 source))
      (leftOut (additions ignore 0 source)) := by
  have hrun : ∀ i, ∀ p ∈ source[i]?, ∀ reason, ¬ Stops ignore (0 + i + 1) p reason := by
    intro i p hp
    rw [Nat.zero_add]
    exact h i p hp
  have hadd := add_append ignore 0 [] hrun
  rw [List.append_nil] at hadd
  simpa [add, Ending.prepend] using hadd

end Pass
end

/-! ## What is put out for each line -/

/-- The lines that are put out for each line of a source, in the order of the source.  A
declared class has five of them, and any other line is copied. -/
structure Blocks (ignore : IgnoreList) (source : List Line) (blocks : List (List Line)) :
    Prop where
  length_eq : blocks.length = source.length
  declared : ∀ i l name, source[i]? = some l → Declarable ignore (i + 1) l name →
    blocks[i]? = some [indentOf l ++ "@forward()".toList, l, indentOf l ++ "    ...".toList,
      indentOf l ++ ("@continue_(".toList ++ name ++ ")".toList),
      indentOf l ++ "class _____:".toList]
  copied : ∀ i l, source[i]? = some l → ¬ Declared ignore (i + 1) l → blocks[i]? = some [l]

/-- The indexes of the lines at which adding declares a class. -/
def declaredIndexes (ignore : IgnoreList) (source : List Line) : List Nat :=
  (List.range source.length).filter fun i =>
    decide (∃ l ∈ source[i]?, Declared ignore (i + 1) l)

section
variable {ignore : IgnoreList} {source : List Line} {blocks : List (List Line)}

theorem blocks_mapIdx (ignore : IgnoreList) (source : List Line) :
    Blocks ignore source (source.mapIdx fun i l => lines (addition ignore (i + 1) l)) := by
  refine ⟨List.length_mapIdx, ?_, ?_⟩
  · intro i l name hl hd
    rw [List.getElem?_mapIdx, hl, Option.map_some, addition_of_some (declares_eq_some_iff.mpr hd)]
    rfl
  · intro i l hl hd
    rw [List.getElem?_mapIdx, hl, Option.map_some, addition_of_none (declares_eq_none_iff.mpr hd)]
    rfl

/-- There is only one way to put out each line. -/
theorem Blocks.unique {blocks' : List (List Line)} (h : Blocks ignore source blocks)
    (h' : Blocks ignore source blocks') : blocks = blocks' := by
  apply List.ext_getElem?
  intro i
  cases hl : source[i]? with
  | none =>
    have hi := List.getElem?_eq_none_iff.mp hl
    rw [List.getElem?_eq_none (by rw [h.length_eq]; exact hi),
      List.getElem?_eq_none (by rw [h'.length_eq]; exact hi)]
  | some l =>
    by_cases hd : Declared ignore (i + 1) l
    · obtain ⟨name, hd⟩ := hd
      rw [h.declared i l name hl hd, h'.declared i l name hl hd]
    · rw [h.copied i l hl hd, h'.copied i l hl hd]

theorem lines_additions (ignore : IgnoreList) (read : Nat) (ls : List Line) :
    lines (additions ignore read ls) =
      (ls.mapIdx fun i l => lines (addition ignore (read + i + 1) l)).flatten := by
  induction ls generalizing read with
  | nil => rfl
  | cons l ls ih =>
    have hshift : ∀ i, read + 1 + i + 1 = read + (i + 1) + 1 := fun i => by omega
    rw [additions, lines_append, ih, List.mapIdx_cons, List.flatten_cons]
    simp only [hshift]

theorem Blocks.flatten_eq (h : Blocks ignore source blocks) :
    blocks.flatten = lines (additions ignore 0 source) := by
  rw [h.unique (blocks_mapIdx ignore source), lines_additions]
  simp only [Nat.zero_add]

theorem leftOut_addition (ignore : IgnoreList) (number : Nat) (l : Line) :
    leftOut (addition ignore number l) = if Declared ignore number l then 4 else 0 := by
  by_cases hd : Declared ignore number l
  · obtain ⟨name, hname⟩ := id hd
    rw [if_pos hd, addition_of_some (declares_eq_some_iff.mpr hname)]
    rfl
  · rw [if_neg hd, addition_of_none (declares_eq_none_iff.mpr hd)]
    rfl

theorem declaredIndexes_concat (ignore : IgnoreList) (ls : List Line) (l : Line) :
    declaredIndexes ignore (ls ++ [l]) = declaredIndexes ignore ls ++
      if Declared ignore (ls.length + 1) l then [ls.length] else [] := by
  have hsame : ∀ i ∈ List.range ls.length,
      decide (∃ m ∈ (ls ++ [l])[i]?, Declared ignore (i + 1) m) =
        decide (∃ m ∈ ls[i]?, Declared ignore (i + 1) m) := by
    intro i hi
    rw [List.getElem?_append_left (List.mem_range.mp hi)]
  unfold declaredIndexes
  rw [List.length_append, List.length_singleton, List.range_succ, List.filter_append,
    List.filter_congr hsame]
  congr 1
  simp [List.filter_cons]

/-- Four lines are made up for each class that is declared. -/
theorem leftOut_additions (ignore : IgnoreList) (source : List Line) :
    leftOut (additions ignore 0 source) = 4 * (declaredIndexes ignore source).length := by
  induction source using List.reverseRecOn with
  | nil => rfl
  | append_singleton ls l ih =>
    rw [additions_append, leftOut_append, ih, declaredIndexes_concat, List.length_append,
      additions, additions, List.append_nil, Nat.zero_add, leftOut_addition]
    split
    · rw [List.length_singleton]
      omega
    · rfl

end

/-! ## The effect of adding -/

/-- **The effect of adding.**  Let `s` be the lines of a text.

* If a line stops adding, the first one that does is the reason why the text is left as it is,
  whatever classes there are.
* Otherwise, if no class is declared, the text is left as it is, too.
* Otherwise each line of a declared class is replaced by its five lines, one import is put in,
  and the cleanup comes last.  Each class counts four modifications, the rest counts five. -/
theorem add_effect (ignore : IgnoreList) (text : List Char) (hc : ignore.check = .ok ()) :
    (∀ j l reason, (splitLines text)[j]? = some l → Stops ignore (j + 1) l reason →
      (∀ i < j, ∀ p ∈ (splitLines text)[i]?, ∀ reason, ¬ Stops ignore (i + 1) p reason) →
      convert .add ignore text = .ok ⟨splitLines text, .add, 0, some reason⟩) ∧
    ((∀ i, ∀ p ∈ (splitLines text)[i]?, ∀ reason, ¬ Stops ignore (i + 1) p reason) →
      (declaredIndexes ignore (splitLines text) = [] →
        convert .add ignore text = .ok ⟨splitLines text, .add, 0,
          if splitLines text = [] then some .empty else none⟩) ∧
      (declaredIndexes ignore (splitLines text) ≠ [] →
        ∃ blocks index, Blocks ignore (splitLines text) blocks ∧
          convert .add ignore text = .ok
            ⟨blocks.flatten.take index ++ "from forward import *".toList ::
                blocks.flatten.drop index ++
              [[], "del forward".toList, "del continue_".toList, []],
            .add, 4 * (declaredIndexes ignore (splitLines text)).length + 5, none⟩)) := by
  constructor
  · intro j l reason hl hs hbefore
    refine convert_eq_ok_iff.mpr ⟨hc, ?_⟩
    rw [show (Pass.run .add ignore (splitLines text)).ending = _ from
      Pass.add_stopped hl hs hbefore]
    exact .untouched .add reason
  · intro hnone
    have hend := Pass.add_unstopped hnone
    have hconserves := (@Pass.Output.added ignore (splitLines text)).conserves
    rw [leftOut_additions] at hend hconserves
    constructor
    · intro hempty
      rw [hempty] at hend hconserves
      rw [hconserves.eq] at hend
      refine convert_eq_ok_iff.mpr ⟨hc, ?_⟩
      rw [show (Pass.run .add ignore (splitLines text)).ending = _ from hend]
      by_cases hs : splitLines text = []
      · rw [if_pos hs, hs]
        exact .empty .add 0
      · rw [if_neg hs]
        exact .unmodified .add hs
    · intro hne
      have hlines : lines (additions ignore 0 (splitLines text)) ≠ [] := by
        intro hnil
        have hsub := hconserves.1
        rw [hnil] at hsub
        rw [List.sublist_nil.mp hsub] at hne
        exact hne rfl
      have hblocks := blocks_mapIdx ignore (splitLines text)
      refine ⟨_, Docstring.insertionLine (splitLines text), hblocks,
        convert_eq_ok_iff.mpr ⟨hc, ?_⟩⟩
      rw [show (Pass.run .add ignore (splitLines text)).ending = _ from hend, hblocks.flatten_eq]
      have hpos := List.length_pos_iff.mpr hne
      exact .added hlines (by omega)

/-- A decorator and a class to be ignored, a class inside a class, and a line that only begins
like one. -/
def ignoredLines : List Line :=
  ["@forward()", "class A(B):", "    class C :", "class D:", "class E x"].map String.toList

/-- A class above a line that stops adding. -/
def slottedLines : List Line := ["class A:", "__slots__ = ()", "@forward()"].map String.toList

/-- Two of the classes are declared, and the second text is left as it is. -/
theorem add_effect_mixed :
    (∃ blocks index, Blocks [.ofLine 1, .ofClass "D"] ignoredLines blocks ∧
      convert .add [.ofLine 1, .ofClass "D"] (joinLines ignoredLines) = .ok
        ⟨blocks.flatten.take index ++ "from forward import *".toList ::
            blocks.flatten.drop index ++
          [[], "del forward".toList, "del continue_".toList, []], .add, 13, none⟩) ∧
    convert .add [] (joinLines slottedLines) = .ok ⟨slottedLines, .add, 0, some .rejected⟩ := by
  constructor
  · have heffect := (add_effect [.ofLine 1, .ofClass "D"] (joinLines ignoredLines) rfl).2
    have hsplit : splitLines (joinLines ignoredLines) = ignoredLines := by decide +kernel
    have hindexes : declaredIndexes [.ofLine 1, .ofClass "D"] ignoredLines = [1, 2] := by
      decide +kernel
    have hlines : ∀ i < 5, ∀ p ∈ ignoredLines[i]?, ¬ Bars p ∧ (stripped p = Marker.decorator →
        ((i + 1 : Nat) : Int) ∈ IgnoreList.lines [.ofLine 1, .ofClass "D"]) := by
      decide +kernel
    rw [hsplit, hindexes] at heffect
    refine (heffect ?_).2 (by decide)
    intro i p hp
    exact not_stops_iff.mpr (hlines i (List.getElem?_eq_some_iff.mp hp).1 p hp)
  · have heffect := (add_effect [] (joinLines slottedLines) rfl).1
    have hsplit : splitLines (joinLines slottedLines) = slottedLines := by decide +kernel
    have hstart : "__slots__ = " ∈ Marker.rejected := by decide
    have hlines : ∀ i < 1, ∀ p ∈ slottedLines[i]?, ¬ Bars p ∧ (stripped p = Marker.decorator →
        ((i + 1 : Nat) : Int) ∈ IgnoreList.lines []) := by decide +kernel
    rw [hsplit] at heffect
    refine heffect 1 "__slots__ = ()".toList .rejected rfl (.rejected hstart ?_) ?_
    · decide +kernel
    · intro i hi p hp
      exact not_stops_iff.mpr (hlines i hi p hp)

end ForwardDecl
