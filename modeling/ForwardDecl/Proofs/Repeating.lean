import ForwardDecl.Proofs.Declaring
import ForwardDecl.Proofs.Losses
import ForwardDecl.Proofs.RoundTrip

/-! # Converting a text once more

Removing settles a text for good.  What a removing pass keeps is neither a fixed
marker nor a line that bars the text (`Pass.unmarked_of_step`), and a pass over
such lines keeps all of them.  So a second removing has nothing to do, and it
does not cut the tail again, which is done only after another modification
(`remove_settles`).

Adding is meant to be stopped by the decorators that it has put in.  But the lines
that an ignore list names are copied before anything else is asked of them, and
in the second run the numbers of the list mean other lines than in the first.
Only if they happen to mean every decorator is the text declared once more, as far
as the list leaves a class to declare (`add_again_iff`).
-/
namespace ForwardDecl
open Marked Conversion

/-! ## What removing keeps -/

namespace Pass

theorem isClassDeclaration_of_mem_fixed :
    ∀ s ∈ Marker.fixed, isClassDeclaration s = false := by decide

/-- A line that a step keeps is no marker and does not bar the text. -/
theorem unmarked_of_step {site next : Site} {l : Line} (h : Step site l true next) :
    ¬ Bars l ∧ stripped l ∉ Marker.fixed := by
  cases h with
  | blank hk =>
    refine ⟨not_bars_of_lineKind_blank hk, ?_⟩
    rw [lineKind_eq_blank_iff.mp hk]
    decide
  | plain hk hd hs =>
    refine ⟨not_bars_of_lineKind_code hk, ?_⟩
    rw [Marker.mem_fixed_iff, stripped_of_lineKind_code hk]
    simp [hd, hs]
  | head hk hc =>
    refine ⟨not_bars_of_lineKind_code hk, ?_⟩
    intro hf
    rw [stripped_of_lineKind_code hk] at hf
    rw [isClassDeclaration_of_mem_fixed _ hf] at hc
    cases hc

theorem unmarked_of_steps {site last : Site} {marked : List (Line × Bool)}
    (h : Steps site marked last) : ∀ l ∈ kept marked, ¬ Bars l ∧ stripped l ∉ Marker.fixed := by
  induction h with
  | nil => intro l hl; cases hl
  | @cons site next last l b marked hs _ ih =>
    cases b with
    | true =>
      rw [kept_cons_true]
      exact List.forall_mem_cons.mpr ⟨unmarked_of_step hs, ih⟩
    | false => exact ih

/-- A removing pass keeps lines that are no markers and do not bar the text. -/
theorem remove_settled {ls : List Line} (h : ∀ l ∈ ls, ¬ Bars l ∧ stripped l ∉ Marker.fixed) :
    (remove 0 .outside ls).ending = .complete .remove ls 0 := by
  have hrun := remove_complete_of_steps (steps_plain h) Site.closed_outside 0
  rwa [lines_map_true, kept_map_true, leftOut_map_true] at hrun

end Pass

section
variable {ignore other : IgnoreList} {text : List Char} {r : Converted}

/-- A conversion that modifies nothing has kept no line, or its pass left out none. -/
theorem Conversion.Finished.of_unmodified {source out : List Line} {mode : Mode} {n : Nat}
    (h : Finished source (.complete mode out n) r) (hr : r.modifications = 0) :
    out = [] ∨ n = 0 := by
  generalize he : Ending.complete mode out n = e at h
  cases h with
  | untouched mode' reason => cases he
  | empty mode' n' => exact Or.inl (Ending.complete.inj he).2.1
  | unmodified mode' hl => exact Or.inr (Ending.complete.inj he).2.2
  | added hl hn => cases hr
  | cut hm hl hn => exact absurd (Nat.eq_zero_of_add_eq_zero_right hr) hn

/-- A conversion that is skipped modifies nothing: it gives the source, or it would leave no
line. -/
theorem Conversion.Finished.of_skipped {source : List Line} {e : Ending} {reason : SkipReason}
    (h : Finished source e r) (hs : r.skipped = some reason) :
    r.modifications = 0 ∧ (e = .untouched r.mode reason ∧ r.lines = source ∨
      reason = .empty ∧ r.lines = []) := by
  cases h with
  | untouched mode reason' =>
    obtain rfl := Option.some.inj hs
    exact ⟨rfl, Or.inl ⟨rfl, rfl⟩⟩
  | empty mode n =>
    obtain rfl := Option.some.inj hs
    exact ⟨rfl, Or.inr ⟨rfl, rfl⟩⟩
  | unmodified mode hl => cases hs
  | added hl hn => cases hs
  | cut hm hl hn => cases hs

theorem mode_of_convert_remove (h : convert .remove ignore text = .ok r) : r.mode = .remove :=
  Pass.remove_mode (convert_eq_ok_iff.mp h).2.mode?_eq

/-- What removing gives, unless it is skipped, holds no marker and no line that bars it. -/
theorem unmarked_of_convert_remove (h : convert .remove ignore text = .ok r)
    (hs : r.skipped = none) : ∀ l ∈ r.lines, ¬ Bars l ∧ stripped l ∉ Marker.fixed := by
  have hm : r.mode ≠ .add := by
    rw [mode_of_convert_remove h]
    decide
  obtain ⟨out, n, k, he, -, hout⟩ := (convert_eq_ok_iff.mp h).2.kept hm hs
  obtain ⟨marked, last, hsteps, -, -, hkept, -⟩ := Pass.steps_of_remove he
  intro l hl
  apply Pass.unmarked_of_steps hsteps
  rw [hkept, hout]
  exact List.mem_append_left _ hl

/-- A pass that keeps every line gives the source without a modification. -/
theorem convert_of_kept {mode mode' : Mode} (hc : ignore.check = .ok ())
    (he : (Pass.run mode ignore (splitLines text)).ending =
      .complete mode' (splitLines text) 0) :
    convert mode ignore text = .ok ⟨splitLines text, mode', 0,
      if splitLines text = [] then some .empty else none⟩ := by
  refine convert_eq_ok_iff.mpr ⟨hc, ?_⟩
  rw [he]
  by_cases hnil : splitLines text = []
  · rw [if_pos hnil, hnil]
    exact .empty mode' 0
  · rw [if_neg hnil]
    exact .unmodified mode' hnil

/-- **Removing settles a text.**  Unless it is skipped, the result holds no marker; and whatever
the result is, removing once more, with whatever ignore list, gives the same lines without a
modification.  A result without lines is then an empty text, and a text that was skipped is
skipped for the same reason. -/
theorem remove_settles (h : convert .remove ignore text = .ok r) (ho : other.check = .ok ()) :
    (r.skipped = none → ∀ l ∈ r.lines, stripped l ∉ Marker.fixed) ∧
    convert .remove other r.text =
      .ok ⟨r.lines, .remove, 0, if r.lines = [] then some .empty else r.skipped⟩ := by
  refine ⟨fun hs l hl => (unmarked_of_convert_remove h hs l hl).2, ?_⟩
  have hsplit := splitLines_text h
  cases hs : r.skipped with
  | none =>
    have hlines := unmarked_of_convert_remove h hs
    rw [← hsplit] at hlines ⊢
    exact convert_of_kept ho (Pass.remove_settled hlines)
  | some reason =>
    obtain ⟨-, ⟨he, hl⟩ | ⟨-, hl⟩⟩ := (convert_eq_ok_iff.mp h).2.of_skipped hs
    · -- the lines are those of the source, and the pass over them stops as it did
      have hne : splitLines text ≠ [] := by
        intro hnil
        rw [hnil] at he
        cases he
      rw [mode_of_convert_remove h] at he
      refine convert_eq_ok_iff.mpr ⟨ho, ?_⟩
      rw [hsplit, hl, if_neg hne,
        show (Pass.run .remove other (splitLines text)).ending = _ from he]
      exact .untouched .remove reason
    · have hkept : (Pass.run .remove other (splitLines r.text)).ending =
          .complete .remove (splitLines r.text) 0 := by
        rw [hsplit, hl]
        rfl
      have hagain := convert_of_kept ho hkept
      rw [hsplit, hl] at hagain
      rw [hl]
      exact hagain

/-- Of four empty lines at the end two are cut, and the others stay; a text that is barred keeps
its markers and is barred again. -/
theorem remove_settles_tail :
    (∃ r, convert .remove []
        "from forward import *\n@forward()\nclass A:\n    ...\nclass _____:\n    x\n\n\n\n\n".toList =
        .ok r ∧ r.skipped = none ∧ (∀ l ∈ r.lines, stripped l ∉ Marker.fixed) ∧
      convert .remove [.ofLine 1] r.text =
        .ok ⟨["class A:", "    x", "", ""].map String.toList, .remove, 0, none⟩) ∧
    ∃ r, convert .remove [] "del forward\n__slots__ = ()\n".toList = .ok r ∧
      convert .remove [] r.text =
        .ok ⟨["del forward", "__slots__ = ()"].map String.toList, .remove, 0, some .rejected⟩ := by
  constructor
  · have h : convert .remove []
        "from forward import *\n@forward()\nclass A:\n    ...\nclass _____:\n    x\n\n\n\n\n".toList =
        .ok ⟨["class A:", "    x", "", ""].map String.toList, .remove, 6, none⟩ := by
      decide +kernel
    obtain ⟨hunmarked, hagain⟩ :=
      remove_settles h (show IgnoreList.check [.ofLine 1] = .ok () from rfl)
    exact ⟨_, h, rfl, hunmarked rfl, hagain⟩
  · have h : convert .remove [] "del forward\n__slots__ = ()\n".toList =
        .ok ⟨["del forward", "__slots__ = ()"].map String.toList, .remove, 0, some .rejected⟩ := by
      decide +kernel
    exact ⟨_, h, (remove_settles h (show IgnoreList.check [] = .ok () from rfl)).2⟩

end

/-! ## Adding after adding -/

section
variable {ignore : IgnoreList} {text : List Char} {r : Converted} {ls : List Line}

/-- A decorator that adding is not told to ignore stands among the lines. -/
def Decorated (ignore : IgnoreList) (ls : List Line) : Prop :=
  ∃ i, ∃ l ∈ ls[i]?, stripped l = Marker.decorator ∧ ((i + 1 : Nat) : Int) ∉ ignore.lines

theorem declaredIndexes_eq_nil_iff :
    declaredIndexes ignore ls = [] ↔ ∀ i, ∀ l ∈ ls[i]?, ¬ Declared ignore (i + 1) l := by
  simp only [declaredIndexes, List.filter_eq_nil_iff, List.mem_range, decide_eq_true_eq, not_exists,
    not_and]
  constructor
  · intro h i l hl
    exact h i (List.getElem?_eq_some_iff.mp hl).1 l hl
  · intro h i _ l hl
    exact h i l hl

/-- What adding gives holds no line that bars the text. -/
theorem not_bars_of_added (h : convert .add ignore text = .ok r) (hm : 0 < r.modifications) :
    ∀ l ∈ r.lines, ¬ Bars l := by
  obtain ⟨out, n, he, -, rfl⟩ := (convert_eq_ok_iff.mp h).2.of_added hm (mode_of_convert_add h)
  obtain ⟨rfl, -, hb⟩ := Pass.add_complete he
  intro l hl
  rcases mem_added hl with hl | rfl | hl
  · exact not_bars_additions hb l hl
  · decide
  · exact (by decide : ∀ m ∈ tail, ¬ Bars m) l hl

/-- What adding gives holds a decorator. -/
theorem decorator_of_added (h : convert .add ignore text = .ok r) (hm : 0 < r.modifications) :
    ∃ l ∈ r.lines, stripped l = Marker.decorator := by
  obtain ⟨out, n, he, hn, rfl⟩ := (convert_eq_ok_iff.mp h).2.of_added hm (mode_of_convert_add h)
  obtain ⟨rfl, rfl, -⟩ := Pass.add_complete he
  have hne : declaredIndexes ignore (splitLines text) ≠ [] := by
    intro hnil
    rw [leftOut_additions, hnil] at hn
    exact hn rfl
  rw [Ne, declaredIndexes_eq_nil_iff] at hne
  simp only [not_forall, Classical.not_not] at hne
  obtain ⟨i, l, hl, name, hname⟩ := hne
  have hblocks := blocks_mapIdx ignore (splitLines text)
  refine ⟨indentOf l ++ "@forward()".toList, ?_, stripped_of_lineKind_code (lineKind_decorator l)⟩
  apply List.mem_append_left
  apply (insertImport_sublist _ _).subset
  rw [← hblocks.flatten_eq]
  refine List.mem_flatten.mpr ⟨_, List.mem_of_getElem? (hblocks.declared i l name hl hname), ?_⟩
  exact List.mem_cons_self

/-- The first decorator stops adding. -/
theorem Pass.add_decorated (hb : ∀ l ∈ ls, ¬ Bars l) (hd : Decorated ignore ls) :
    (add ignore 0 ls).ending = .untouched .add .alreadyForward := by
  obtain ⟨i, l, hl, hdecorator, hline⟩ := hd
  induction i using Nat.strongRecOn generalizing l with
  | ind i ih =>
    by_cases hearlier : ∃ j < i, ∃ p ∈ ls[j]?, stripped p = Marker.decorator ∧
        ((j + 1 : Nat) : Int) ∉ ignore.lines
    · obtain ⟨j, hj, p, hp, hdecorator', hline'⟩ := hearlier
      exact ih j hj p hp hdecorator' hline'
    · refine add_stopped hl (.declared hdecorator hline) ?_
      intro j hj p hp
      refine not_stops_iff.mpr ⟨hb p (List.mem_of_getElem? hp), ?_⟩
      intro hdecorator'
      by_contra hline'
      exact hearlier ⟨j, hj, p, hp, hdecorator', hline'⟩

/-- Without a decorator each line is added to. -/
theorem Pass.add_undecorated (hb : ∀ l ∈ ls, ¬ Bars l) (hd : ¬ Decorated ignore ls) :
    (add ignore 0 ls).ending = .complete .add (lines (additions ignore 0 ls))
      (leftOut (additions ignore 0 ls)) := by
  apply add_unstopped
  intro i p hp
  refine not_stops_iff.mpr ⟨hb p (List.mem_of_getElem? hp), ?_⟩
  intro hdecorator
  by_contra hline
  exact hd ⟨i, p, hp, hdecorator, hline⟩

/-- Without a decorator a text is left as it is just if no class is declared in it. -/
theorem convert_add_undecorated (hc : ignore.check = .ok ())
    (hb : ∀ l ∈ splitLines text, ¬ Bars l) (hd : ¬ Decorated ignore (splitLines text)) :
    (∃ again, convert .add ignore text = .ok again ∧ again.modifications = 0 ∧
      again.lines = splitLines text) ↔ declaredIndexes ignore (splitLines text) = [] := by
  have he : (Pass.run .add ignore (splitLines text)).ending = _ := Pass.add_undecorated hb hd
  have hconserves := (@Pass.Output.added ignore (splitLines text)).conserves
  rw [leftOut_additions] at he hconserves
  constructor
  · rintro ⟨again, hagain, hn, -⟩
    have hfinished := (convert_eq_ok_iff.mp hagain).2
    rw [he] at hfinished
    rcases hfinished.of_unmodified hn with hnil | hzero
    · rw [hnil] at hconserves
      rw [List.sublist_nil.mp hconserves.1]
      rfl
    · exact List.length_eq_zero_iff.mp (by omega)
  · intro hnil
    rw [hnil] at he hconserves
    rw [hconserves.eq] at he
    exact ⟨_, convert_of_kept hc he, rfl, rfl⟩

/-- **Adding once more.**  If adding modified a text, adding once more with the same ignore list
leaves the result as it is just if some decorator of the result is not to be ignored by its line
number, or if no class of the result is left to declare.  So it does whenever the list names no
line, and then it says why. -/
theorem add_again_iff (h : convert .add ignore text = .ok r) (hm : 0 < r.modifications) :
    ((∃ again, convert .add ignore r.text = .ok again ∧ again.modifications = 0 ∧
        again.lines = r.lines) ↔
      Decorated ignore r.lines ∨ ∀ i, ∀ l ∈ r.lines[i]?, ¬ Declared ignore (i + 1) l) ∧
    (ignore.lines = [] →
      convert .add ignore r.text = .ok ⟨r.lines, .add, 0, some .alreadyForward⟩) := by
  have hc := check_of_convert h
  have hsplit := splitLines_text h
  have hb := not_bars_of_added h hm
  have hstopped : Decorated ignore r.lines →
      convert .add ignore r.text = .ok ⟨r.lines, .add, 0, some .alreadyForward⟩ := by
    intro hd
    refine convert_eq_ok_iff.mpr ⟨hc, ?_⟩
    rw [hsplit, show (Pass.run .add ignore r.lines).ending = _ from Pass.add_decorated hb hd]
    exact .untouched .add .alreadyForward
  constructor
  · by_cases hd : Decorated ignore r.lines
    · simp only [hd, true_or, iff_true]
      exact ⟨_, hstopped hd, rfl, rfl⟩
    · rw [← hsplit] at hb hd
      have hagain := convert_add_undecorated hc hb hd
      rw [hsplit] at hagain hd
      rw [hagain, declaredIndexes_eq_nil_iff]
      simp only [hd, false_or]
  · intro hnone
    apply hstopped
    obtain ⟨l, hl, hdecorator⟩ := decorator_of_added h hm
    obtain ⟨i, hi⟩ := List.getElem?_of_mem hl
    refine ⟨i, l, hi, hdecorator, ?_⟩
    rw [hnone]
    exact List.not_mem_nil

/-- The list names the first decorator of the result, but not the second one. -/
theorem add_again_iff_pair :
    ∃ r, convert .add [.ofLine 2] "class A:\n    pass\nclass B:\n    pass\n".toList = .ok r ∧
      0 < r.modifications ∧
      ∃ again, convert .add [.ofLine 2] r.text = .ok again ∧ again.modifications = 0 ∧
        again.lines = r.lines := by
  let added : Converted := ⟨["from forward import *", "@forward()", "class A:", "    ...",
    "@continue_(A)", "class _____:", "    pass", "@forward()", "class B:", "    ...",
    "@continue_(B)", "class _____:", "    pass", "", "del forward", "del continue_", ""].map
      String.toList, .add, 13, none⟩
  have h : convert .add [.ofLine 2] "class A:\n    pass\nclass B:\n    pass\n".toList =
      .ok added := by decide +kernel
  have hd : Decorated [.ofLine 2] added.lines :=
    ⟨7, "@forward()".toList, rfl, by decide +kernel, by decide +kernel⟩
  exact ⟨added, h, by decide, (add_again_iff h (by decide)).1.mpr (Or.inl hd)⟩

/-- **A class can be declared twice.**  The list names the line of the only decorator that adding
puts in, so that the second adding does not stop at it. -/
theorem add_twice_over :
    ∃ r, convert .add [.ofLine 2] "class A:\n    pass\n".toList = .ok r ∧ 0 < r.modifications ∧
      (∃ again, convert .add [.ofLine 2] r.text = .ok again ∧ again.modifications = 13 ∧
        ["@forward()".toList, "@forward()".toList, "class A:".toList] <:+: again.lines) ∧
      ¬ ∃ again, convert .add [.ofLine 2] r.text = .ok again ∧ again.modifications = 0 ∧
        again.lines = r.lines := by
  let added : Converted := ⟨["from forward import *", "@forward()", "class A:", "    ...",
    "@continue_(A)", "class _____:", "    pass", "", "del forward", "del continue_", ""].map
      String.toList, .add, 9, none⟩
  let twice : Converted := ⟨["from forward import *", "from forward import *", "@forward()",
    "@forward()", "class A:", "    ...", "@continue_(A)", "class _____:", "    ...",
    "@continue_(A)", "@forward()", "class _____:", "    ...", "@continue_(_____)", "class _____:",
    "    pass", "", "del forward", "del continue_", "", "", "del forward", "del continue_",
    ""].map String.toList, .add, 13, none⟩
  have h : convert .add [.ofLine 2] added.text = .ok twice := by decide +kernel
  refine ⟨added, by decide +kernel, by decide, ⟨twice, h, rfl, ?_⟩, ?_⟩
  · exact ⟨twice.lines.take 2, twice.lines.drop 5, rfl⟩
  · rintro ⟨again, hagain, hn, -⟩
    rw [h] at hagain
    obtain rfl := Except.ok.inj hagain
    cases hn

end
end ForwardDecl
